import Mathlib.Data.List.Sort
import Mathlib.Data.List.TakeWhile
import VolumeSearch.IdSet

namespace VolumeSearch.Ascending
variable {α : Type} [DecidableEq α]

@[simp] theorem mem_dropRepeats (x : α) (xs : List α) : x ∈ dropRepeats xs ↔ x ∈ xs := by
  fun_induction dropRepeats xs with
  | case1 a rest ih =>
    rw [ih]
    simp
  | case2 a b rest _ ih => rw [List.mem_cons, ih, ← List.mem_cons]
  | case3 => rfl

theorem dropRepeats_sublist (xs : List α) : (dropRepeats xs).Sublist xs := by
  fun_induction dropRepeats xs with
  | case1 a rest ih => exact ih.cons a
  | case2 a b rest _ ih => exact ih.cons_cons a
  | case3 => exact .refl _

@[simp] theorem mem_ofList [LE α] [DecidableLE α] (x : α) (xs : List α) :
    x ∈ ofList xs ↔ x ∈ xs := by
  rw [ofList, mem_dropRepeats, List.mem_mergeSort]

theorem length_ofList_le [LE α] [DecidableLE α] (xs : List α) : (ofList xs).length ≤ xs.length := by
  have h := (dropRepeats_sublist (xs.mergeSort fun a b => a ≤ b)).length_le
  rwa [List.length_mergeSort] at h

variable [LE α] [LT α] [Std.IsLinearOrder α] [Std.LawfulOrderLT α]

theorem dropRepeats_pairwise_lt (xs : List α) (h : xs.Pairwise (· ≤ ·)) :
    (dropRepeats xs).Pairwise (· < ·) := by
  fun_induction dropRepeats xs with
  | case1 a rest ih => exact ih h.of_cons
  | case2 a b rest hne ih =>
    have htail := ih h.of_cons
    refine List.pairwise_cons.mpr ⟨?_, htail⟩
    intro x hx
    have hab : a < b := Std.lt_of_le_of_ne ((List.pairwise_cons.mp h).1 b (by simp)) hne
    rw [mem_dropRepeats] at hx
    rcases List.mem_cons.mp hx with rfl | hx
    · exact hab
    · exact Std.lt_of_lt_of_le hab ((List.pairwise_cons.mp h.of_cons).1 x hx)
  | case3 xs hxs =>
    match xs with
    | [] => exact .nil
    | [a] => exact List.pairwise_singleton _ a
    | a :: b :: rest => exact absurd rfl (hxs a b rest)

theorem ofList_pairwise_lt [DecidableLE α] (xs : List α) : (ofList xs).Pairwise (· < ·) := by
  apply dropRepeats_pairwise_lt
  have htrans (a b c : α) (hab : decide (a ≤ b) = true) (hbc : decide (b ≤ c) = true) :
      decide (a ≤ c) = true :=
    decide_eq_true (Std.le_trans (of_decide_eq_true hab) (of_decide_eq_true hbc))
  have htotal (a b : α) : (decide (a ≤ b) || decide (b ≤ a)) = true := by
    simpa using Std.le_total
  exact (List.pairwise_mergeSort htrans htotal xs).imp of_decide_eq_true

omit [DecidableEq α] [Std.IsLinearOrder α] in
theorem eq_of_mem_iff {xs ys : List α} (hx : xs.Pairwise (· < ·)) (hy : ys.Pairwise (· < ·))
    (h : ∀ x, x ∈ xs ↔ x ∈ ys) : xs = ys :=
  have : Std.Antisymm (fun a b : α => a < b) := ⟨fun _ _ hab hba => absurd hba (Std.not_gt_of_lt hab)⟩
  have : Std.Irrefl (fun a b : α => a < b) := ⟨fun _ => Std.lt_irrefl⟩
  hx.eq_of_mem_iff hy h

omit [DecidableEq α] [Std.IsLinearOrder α] in
/-- Among ascending lists, one that has only elements of another is a part of it in its order. -/
theorem sublist_of_subset {xs ys : List α} (hx : xs.Pairwise (· < ·)) (hy : ys.Pairwise (· < ·))
    (h : xs ⊆ ys) : xs.Sublist ys :=
  have : Std.Antisymm (fun a b : α => a < b) := ⟨fun _ _ hab hba => absurd hba (Std.not_gt_of_lt hab)⟩
  have : Std.Irrefl (fun a b : α => a < b) := ⟨fun _ => Std.lt_irrefl⟩
  List.sublist_of_subperm_of_pairwise (List.subperm_of_subset hx.nodup h) hx hy

end VolumeSearch.Ascending

namespace VolumeSearch.IdSet
variable {as bs : List FileId}

private theorem mem_dropWhile_lt (a x : FileId) (hbs : bs.Pairwise (· ≤ ·)) :
    x ∈ bs.dropWhile (· < a) ↔ x ∈ bs ∧ a ≤ x := by
  induction bs with
  | nil => simp
  | cons b rest ih =>
    by_cases hb : b < a
    · rw [List.dropWhile_cons_of_pos (by simpa using hb), ih hbs.of_cons, List.mem_cons]
      constructor
      · exact fun h => ⟨.inr h.1, h.2⟩
      · rintro ⟨rfl | hx, hle⟩
        · exact absurd hb (UInt64.not_lt.mpr hle)
        · exact ⟨hx, hle⟩
    · rw [List.dropWhile_cons_of_neg (by simpa using hb)]
      have hab : a ≤ b := UInt64.not_lt.mp hb
      constructor
      · intro hx
        refine ⟨hx, ?_⟩
        rcases List.mem_cons.mp hx with rfl | hx
        · exact hab
        · exact UInt64.le_trans hab ((List.pairwise_cons.mp hbs).1 x hx)
      · exact fun h => h.1

theorem intersect_sublist (as bs : List FileId) : (intersect as bs).Sublist as := by
  fun_induction intersect as bs with
  | case1 => exact .refl _
  | case2 a as => exact List.nil_sublist _
  | case3 as bs a rest hd ih => exact ih.cons_cons a
  | case4 a as bs b rest hd hne ih => exact ih.cons a

theorem mem_intersect (x : FileId) (has : as.Pairwise (· ≤ ·)) (hbs : bs.Pairwise (· ≤ ·)) :
    x ∈ intersect as bs ↔ x ∈ as ∧ x ∈ bs := by
  fun_induction intersect as bs with
  | case1 => simp
  | case2 a as bs hd =>
    have hnone := fun y => (mem_dropWhile_lt a y hbs).symm
    simp only [hd, List.not_mem_nil, iff_false, not_and] at hnone
    simp only [List.not_mem_nil, List.mem_cons, false_iff, not_and]
    rintro (rfl | hx) hb
    · exact hnone x hb UInt64.le_rfl
    · exact hnone x hb ((List.pairwise_cons.mp has).1 x hx)
  | case3 as bs a rest hd ih =>
    have hsome := fun y => mem_dropWhile_lt a y hbs
    simp only [hd, List.mem_cons] at hsome
    have hrest : (a :: rest).Pairwise (· ≤ ·) := hd ▸ hbs.sublist (List.dropWhile_sublist _)
    rw [List.mem_cons, ih has.of_cons hrest.of_cons, List.mem_cons]
    have hx := hsome x
    have ha := hsome a
    have hge := (List.pairwise_cons.mp has).1 x
    grind
  | case4 a as bs b rest hd hne ih =>
    have hsome := fun y => mem_dropWhile_lt a y hbs
    rw [hd] at hsome
    have hrest : (b :: rest).Pairwise (· ≤ ·) := hd ▸ hbs.sublist (List.dropWhile_sublist _)
    rw [ih has.of_cons hrest, List.mem_cons]
    have hab : a ≤ b := ((hsome b).mp (by simp)).2
    -- the head of the first list is below all that is left of the second
    have hout : a ∉ b :: rest := by
      intro ha
      rcases List.mem_cons.mp ha with rfl | ha
      · exact hne rfl
      · exact hne (UInt64.le_antisymm hab ((List.pairwise_cons.mp hrest).1 a ha))
    have hx := hsome x
    have hge := (List.pairwise_cons.mp has).1 x
    grind

private theorem mem_cons_dropHead (a x : FileId) (bs : List FileId) :
    x = a ∨ x ∈ dropHead a bs ↔ x = a ∨ x ∈ bs := by
  cases bs with
  | nil => rfl
  | cons b rest =>
    rw [dropHead]
    split
    · next he => simp [he]
    · rfl

theorem mem_merge (x : FileId) (as bs : List FileId) : x ∈ merge as bs ↔ x ∈ as ∨ x ∈ bs := by
  induction as generalizing bs with
  | nil => simp [merge]
  | cons a as ih =>
    have hsplit : x ∈ bs ↔ x ∈ bs.takeWhile (· < a) ∨ x ∈ bs.dropWhile (· < a) := by
      rw [← List.mem_append, List.takeWhile_append_dropWhile]
    have hhead := mem_cons_dropHead a x (bs.dropWhile (· < a))
    rw [merge, List.mem_append, List.mem_cons, ih, List.mem_cons, hsplit]
    grind

private theorem dropHead_sublist (a : FileId) (bs : List FileId) : (dropHead a bs).Sublist bs := by
  cases bs with
  | nil => exact .refl _
  | cons b rest =>
    rw [dropHead]
    split
    · exact List.sublist_cons_self b rest
    · exact .refl _

theorem merge_pairwise_le (has : as.Pairwise (· ≤ ·)) (hbs : bs.Pairwise (· ≤ ·)) :
    (merge as bs).Pairwise (· ≤ ·) := by
  induction as generalizing bs with
  | nil => exact hbs
  | cons a as ih =>
    have hbelow : ∀ x ∈ bs.takeWhile (· < a), x < a := by
      intro x hx
      simpa using List.mem_takeWhile_imp hx
    have hsub := (dropHead_sublist a _).trans (List.dropWhile_sublist (l := bs) (· < a))
    have hafter : ∀ y ∈ merge as (dropHead a (bs.dropWhile (· < a))), a ≤ y := by
      intro y hy
      rcases (mem_merge y _ _).mp hy with hy | hy
      · exact (List.pairwise_cons.mp has).1 y hy
      · exact ((mem_dropWhile_lt a y hbs).mp ((dropHead_sublist a _).subset hy)).2
    refine List.pairwise_append.mpr ⟨hbs.sublist (List.takeWhile_sublist _), ?_, ?_⟩
    · exact List.pairwise_cons.mpr ⟨hafter, ih has.of_cons (hbs.sublist hsub)⟩
    · intro x hx y hy
      rcases List.mem_cons.mp hy with rfl | hy
      · exact UInt64.le_of_lt (hbelow x hx)
      · exact UInt64.le_trans (UInt64.le_of_lt (hbelow x hx)) (hafter y hy)

theorem mem_union (x : FileId) (as bs : List FileId) : x ∈ union as bs ↔ x ∈ as ∨ x ∈ bs := by
  rw [union, Ascending.mem_dropRepeats, mem_merge]

theorem union_pairwise_lt (has : as.Pairwise (· ≤ ·)) (hbs : bs.Pairwise (· ≤ ·)) :
    (union as bs).Pairwise (· < ·) :=
  Ascending.dropRepeats_pairwise_lt _ (merge_pairwise_le has hbs)

theorem foldl_intersect_sublist (first : List FileId) (rest : List (List FileId)) :
    (rest.foldl intersect first).Sublist first := by
  induction rest generalizing first with
  | nil => exact .refl _
  | cons s rest ih => exact (ih _).trans (intersect_sublist first s)

theorem mem_foldl_intersect (x : FileId) (first : List FileId) (rest : List (List FileId))
    (hfirst : first.Pairwise (· ≤ ·)) (hrest : ∀ s ∈ rest, s.Pairwise (· ≤ ·)) :
    x ∈ rest.foldl intersect first ↔ x ∈ first ∧ ∀ s ∈ rest, x ∈ s := by
  induction rest generalizing first with
  | nil => simp
  | cons s rest ih =>
    have hs := hrest s (by simp)
    rw [List.foldl_cons, ih _ (hfirst.sublist (intersect_sublist first s))
      (fun t ht => hrest t (by simp [ht])), mem_intersect x hfirst hs]
    simp [and_assoc]

variable {sets : List (List FileId)}

/-- The order in which the lists are taken does not show in the result. -/
theorem mem_intersectAll (x : FileId) (h : ∀ s ∈ sets, s.Pairwise (· ≤ ·)) :
    x ∈ intersectAll sets ↔ sets ≠ [] ∧ ∀ s ∈ sets, x ∈ s := by
  have hperm := List.mergeSort_perm sets fun a b => decide (a.length ≤ b.length)
  unfold intersectAll
  split
  · next he =>
    rw [he] at hperm
    simp [hperm.nil_eq.symm]
  · next first rest he =>
    rw [he] at hperm
    have hsorted : ∀ s ∈ first :: rest, s.Pairwise (· ≤ ·) := fun s hs => h s (hperm.subset hs)
    have hne : sets ≠ [] := fun hn => by simp [hn] at hperm
    rw [mem_foldl_intersect x first rest (hsorted first (by simp))
      (fun s hs => hsorted s (by simp [hs]))]
    simp only [hne, ne_eq, not_false_eq_true, true_and]
    rw [← List.forall_mem_cons (p := (x ∈ ·))]
    exact ⟨fun hall s hs => hall s (hperm.symm.subset hs), fun hall s hs => hall s (hperm.subset hs)⟩

/-- What orders every list orders the result, whether it allows repeats or not. -/
theorem intersectAll_pairwise {r : FileId → FileId → Prop} (h : ∀ s ∈ sets, s.Pairwise r) :
    (intersectAll sets).Pairwise r := by
  have hperm := List.mergeSort_perm sets fun a b => decide (a.length ≤ b.length)
  unfold intersectAll
  split
  · exact .nil
  · next first rest he =>
    rw [he] at hperm
    exact (h first (hperm.subset (by simp))).sublist (foldl_intersect_sublist first rest)

end VolumeSearch.IdSet
