import Mathlib.Data.List.Count
import VolumeSearch.Proofs.IdSet

namespace VolumeSearch.IdSet
variable {as bs : List FileId}

theorem intersect_nil (as : List FileId) : intersect as [] = [] := by
  cases as <;> rfl

/-- Equal heads are taken together, and the lower one of two heads that differ is passed over. -/
theorem intersect_cons_cons (a b : FileId) (as bs : List FileId) :
    intersect (a :: as) (b :: bs) =
      if a = b then a :: intersect as bs
      else if a < b then intersect as (b :: bs)
      else intersect (a :: as) bs := by
  by_cases hba : b < a
  · have hne : a ≠ b := fun h => UInt64.lt_irrefl b (h ▸ hba)
    have hdrop : (b :: bs).dropWhile (· < a) = bs.dropWhile (· < a) :=
      List.dropWhile_cons_of_pos (by simpa using hba)
    rw [if_neg hne, if_neg (UInt64.lt_asymm hba), intersect, intersect, hdrop]
  · have hdrop : (b :: bs).dropWhile (· < a) = b :: bs := List.dropWhile_cons_of_neg (by simpa using hba)
    rw [intersect, hdrop]
    dsimp only
    split
    · rfl
    · next hne => rw [if_pos (UInt64.lt_of_le_of_ne (UInt64.not_lt.mp hba) hne)]

/-- An id below the head of a list that does not descend is not in the list. -/
private theorem count_eq_zero_of_lt {a b : FileId} (hbs : (b :: bs).Pairwise (· ≤ ·)) (h : a < b) :
    (b :: bs).count a = 0 := by
  apply List.count_eq_zero_of_not_mem
  intro hmem
  rcases List.mem_cons.mp hmem with rfl | hmem
  · exact UInt64.lt_irrefl a h
  · exact UInt64.not_lt.mpr ((List.pairwise_cons.mp hbs).1 a hmem) h

/-- So it does not count for what such a list has in common with another. -/
private theorem min_count_cons {a b : FileId} (hbs : (b :: bs).Pairwise (· ≤ ·)) (h : a < b) (x : FileId) :
    min ((a :: as).count x) ((b :: bs).count x) = min (as.count x) ((b :: bs).count x) := by
  by_cases hx : a = x
  · rw [← hx, count_eq_zero_of_lt hbs h, Nat.min_zero, Nat.min_zero]
  · rw [List.count_cons_of_ne hx]

/-- Two lists that do not descend have in common as many of each id as both of them have. -/
theorem count_intersect (x : FileId) (has : as.Pairwise (· ≤ ·)) (hbs : bs.Pairwise (· ≤ ·)) :
    (intersect as bs).count x = min (as.count x) (bs.count x) := by
  induction as generalizing bs with
  | nil => simp [intersect]
  | cons a as iha =>
    -- the heads move on in either list, so the second list has an induction of its own
    induction bs with
    | nil => simp [intersect_nil]
    | cons b bs ihb =>
      rw [intersect_cons_cons]
      split
      · next heq =>
        rw [List.count_cons, List.count_cons, List.count_cons, iha has.of_cons hbs.of_cons, heq]
        omega
      · next hne =>
        split
        · next hab => rw [iha has.of_cons hbs, min_count_cons hbs hab]
        · next hnlt =>
          have hba : b < a := UInt64.lt_of_le_of_ne (UInt64.not_lt.mp hnlt) (Ne.symm hne)
          rw [ihb hbs.of_cons, Nat.min_comm, ← min_count_cons has hba, Nat.min_comm]

private theorem pairwise_le (h : as.Pairwise (· < ·)) : as.Pairwise (· ≤ ·) := h.imp UInt64.le_of_lt

private theorem mem_intersectAll_iff {sets : List (List FileId)} (hsome : sets ≠ [])
    (hsets : ∀ s ∈ sets, s.Pairwise (· < ·)) (x : FileId) : x ∈ intersectAll sets ↔ ∀ s ∈ sets, x ∈ s := by
  rw [mem_intersectAll x fun s hs => pairwise_le (hsets s hs), and_iff_right hsome]

/-- Sets are intersected in any order, and no more of them once no id is left. -/
theorem foldl_intersect_eq {sets front back : List (List FileId)} {first : List FileId}
    (hsets : ∀ s ∈ sets, s.Pairwise (· < ·)) (hperm : (first :: front ++ back).Perm sets)
    (hdone : back = [] ∨ front.foldl intersect first = []) :
    front.foldl intersect first = intersectAll sets := by
  have hsome : sets ≠ [] := by
    rintro rfl
    exact List.cons_ne_nil _ _ hperm.eq_nil
  have hall (s : List FileId) (hs : s ∈ first :: front) : s.Pairwise (· < ·) :=
    hsets s (hperm.subset (List.mem_append_left back hs))
  have hfold (x : FileId) : x ∈ front.foldl intersect first ↔ ∀ s ∈ first :: front, x ∈ s := by
    rw [mem_foldl_intersect x first front (pairwise_le (hall first List.mem_cons_self))
      fun s hs => pairwise_le (hall s (List.mem_cons_of_mem first hs)), List.forall_mem_cons]
  apply Ascending.eq_of_mem_iff
  · exact (hall first List.mem_cons_self).sublist (foldl_intersect_sublist first front)
  · exact intersectAll_pairwise hsets
  · intro x
    rw [mem_intersectAll_iff hsome hsets]
    constructor
    · intro hx
      rcases hdone with rfl | hnone
      · rw [List.append_nil] at hperm
        exact fun s hs => (hfold x).mp hx s (hperm.symm.subset hs)
      · rw [hnone] at hx
        exact absurd hx List.not_mem_nil
    · exact fun hx => (hfold x).mpr fun s hs => hx s (hperm.subset (List.mem_append_left back hs))

/-- On ascending lists without duplicates the operations are those on sets, and their results are again such lists;
the sets of a collection may be taken in any order, no matter which of the shortest comes first, and need not be
taken once no id is left. Of lists that only do not descend, the union is an ascending list without duplicates,
and the intersection does not descend and has every id as often as both lists have it. -/
theorem operations_on_sets :
    (∀ as bs : List FileId, as.Pairwise (· < ·) → bs.Pairwise (· < ·) →
      ((intersect as bs).Pairwise (· < ·) ∧ ∀ x, x ∈ intersect as bs ↔ x ∈ as ∧ x ∈ bs) ∧
      (union as bs).Pairwise (· < ·) ∧ ∀ x, x ∈ union as bs ↔ x ∈ as ∨ x ∈ bs) ∧
    (∀ sets : List (List FileId), sets ≠ [] → (∀ s ∈ sets, s.Pairwise (· < ·)) →
      (intersectAll sets).Pairwise (· < ·) ∧ (∀ x, x ∈ intersectAll sets ↔ ∀ s ∈ sets, x ∈ s) ∧
      ∀ first front back, (first :: front ++ back).Perm sets →
        back = [] ∨ front.foldl intersect first = [] → front.foldl intersect first = intersectAll sets) ∧
    (∀ as bs : List FileId, as.Pairwise (· ≤ ·) → bs.Pairwise (· ≤ ·) →
      ((union as bs).Pairwise (· < ·) ∧ ∀ x, x ∈ union as bs ↔ x ∈ as ∨ x ∈ bs) ∧
      (intersect as bs).Pairwise (· ≤ ·) ∧ (∀ x, x ∈ intersect as bs ↔ x ∈ as ∧ x ∈ bs) ∧
      ∀ x, (intersect as bs).count x = min (as.count x) (bs.count x)) := by
  refine ⟨fun as bs has hbs => ?_, fun sets hsome hsets => ?_, fun as bs has hbs => ?_⟩
  · have has' := pairwise_le has
    have hbs' := pairwise_le hbs
    refine ⟨⟨has.sublist (intersect_sublist as bs), fun x => mem_intersect x has' hbs'⟩, ?_⟩
    exact ⟨union_pairwise_lt has' hbs', fun x => mem_union x as bs⟩
  · refine ⟨intersectAll_pairwise hsets, mem_intersectAll_iff hsome hsets, ?_⟩
    exact fun first front back => foldl_intersect_eq hsets
  · refine ⟨⟨union_pairwise_lt has hbs, fun x => mem_union x as bs⟩, ?_⟩
    refine ⟨has.sublist (intersect_sublist as bs), fun x => mem_intersect x has hbs, fun x => ?_⟩
    exact count_intersect x has hbs

/-- Two sets, sets of one length in another order, two that end the search before the third, and lists with
repeats. -/
theorem operations_on_ties_and_repeats :
    (∀ x, x ∈ intersect [1, 3, 5, 7] [3, 4, 5, 8] ↔ x ∈ [1, 3, 5, 7] ∧ x ∈ [3, 4, 5, 8]) ∧
    let sets : List (List FileId) := [[2, 4, 9], [1, 4, 9], [4, 6, 9]]
    let apart : List (List FileId) := [[7], [1, 7, 8], [2]]
    (∀ s ∈ sets, s.Pairwise (· < ·)) ∧ (∀ s ∈ apart, s.Pairwise (· < ·)) ∧
      [[1, 4, 9], [2, 4, 9]].foldl intersect [4, 6, 9] = intersectAll sets ∧
      [[7]].foldl intersect [2] = [] ∧ [[7]].foldl intersect [2] = intersectAll apart ∧
      ([3, 3, 5, 8] : List FileId).Pairwise (· ≤ ·) ∧ ([3, 3, 3, 8, 8] : List FileId).Pairwise (· ≤ ·) ∧
      (union [3, 3, 5, 8] [3, 3, 3, 8, 8]).Pairwise (· < ·) ∧
      (intersect [3, 3, 5, 8] [3, 3, 3, 8, 8]).count 3 = 2 := by
  obtain ⟨hpair, hcollection, hrepeats⟩ := operations_on_sets
  obtain ⟨⟨-, hcommon⟩, -⟩ := hpair [1, 3, 5, 7] [3, 4, 5, 8] (by decide) (by decide)
  refine ⟨hcommon, ?_⟩
  intro sets apart
  have hsets : ∀ s ∈ sets, s.Pairwise (· < ·) := by decide
  have hapart : ∀ s ∈ apart, s.Pairwise (· < ·) := by decide
  have hfirst : ([3, 3, 5, 8] : List FileId).Pairwise (· ≤ ·) := by decide
  have hsecond : ([3, 3, 3, 8, 8] : List FileId).Pairwise (· ≤ ·) := by decide
  obtain ⟨-, -, hties⟩ := hcollection sets (by decide) hsets
  obtain ⟨-, -, hstop⟩ := hcollection apart (by decide) hapart
  obtain ⟨⟨hunion, -⟩, -, -, hcount⟩ := hrepeats _ _ hfirst hsecond
  refine ⟨hsets, hapart, hties _ _ [] (by decide) (.inl rfl), by decide, ?_, hfirst, hsecond, hunion, hcount 3⟩
  exact hstop [2] [[7]] [[1, 7, 8]] (by decide) (.inr (by decide))

end VolumeSearch.IdSet
