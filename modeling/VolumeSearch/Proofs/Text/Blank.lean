import Mathlib.Data.List.TakeWhile
import Mathlib.Tactic.Common
import VolumeSearch.Text.Basic

namespace VolumeSearch.Text

theorem trimChars_of_forall {s : List Char} (h : ∀ c ∈ s, isBlank c = false) : trimChars s = s := by
  have hdrop {l : List Char} (hl : ∀ c ∈ l, isBlank c = false) : l.dropWhile isBlank = l := by
    cases l with
    | nil => rfl
    | cons c rest => rw [List.dropWhile_cons, hl c (by simp)]; rfl
  rw [trimChars, hdrop h, hdrop fun c hc => h c (List.mem_reverse.mp hc), List.reverse_reverse]

/-- Trimming only takes blanks off. -/
theorem trimChars_split (s : List Char) :
    ∃ front back, s = front ++ trimChars s ++ back ∧ (∀ c ∈ front, isBlank c = true) ∧
      ∀ c ∈ back, isBlank c = true := by
  let rest := s.dropWhile isBlank
  refine ⟨s.takeWhile isBlank, (rest.reverse.takeWhile isBlank).reverse, ?_, ?_, ?_⟩
  · have hrest : trimChars s ++ (rest.reverse.takeWhile isBlank).reverse = rest := by
      have hsplit := congrArg List.reverse
        (List.takeWhile_append_dropWhile (p := isBlank) (l := rest.reverse))
      rwa [List.reverse_append, List.reverse_reverse] at hsplit
    rw [List.append_assoc, hrest, List.takeWhile_append_dropWhile]
  · exact fun c hc => List.all_eq_true.mp List.all_takeWhile c hc
  · exact fun c hc => List.all_eq_true.mp List.all_takeWhile c (List.mem_reverse.mp hc)

theorem trimChars_eq_nil {s : List Char} : trimChars s = [] ↔ ∀ c ∈ s, isBlank c = true := by
  constructor
  · intro h
    obtain ⟨front, back, hsplit, hfront, hback⟩ := trimChars_split s
    rw [h, List.append_nil] at hsplit
    rw [hsplit]
    exact List.forall_mem_append.mpr ⟨hfront, hback⟩
  · intro h
    have hnone : s.dropWhile isBlank = [] := List.dropWhile_eq_nil_iff.mpr h
    rw [trimChars, hnone]
    rfl

private theorem dropWhile_blanks {front s : List Char} (hfront : ∀ c ∈ front, isBlank c = true)
    (hhead : ∀ c ∈ s.head?, isBlank c = false) : (front ++ s).dropWhile isBlank = s := by
  rw [List.dropWhile_append_of_pos hfront]
  cases s with
  | nil => rfl
  | cons c rest => rw [List.dropWhile_cons, hhead c rfl, if_neg Bool.false_ne_true]

/-- Of blanks and a text between them that neither starts nor ends in one, trimming leaves the text. -/
theorem trimChars_between {front s back : List Char} (hfront : ∀ c ∈ front, isBlank c = true)
    (hback : ∀ c ∈ back, isBlank c = true) (hhead : ∀ c ∈ s.head?, isBlank c = false)
    (hlast : ∀ c ∈ s.getLast?, isBlank c = false) : trimChars (front ++ s ++ back) = s := by
  cases s with
  | nil =>
    rw [List.append_nil]
    exact trimChars_eq_nil.mpr (List.forall_mem_append.mpr ⟨hfront, hback⟩)
  | cons c rest =>
    have hreversed : ∀ d ∈ (c :: rest).reverse.head?, isBlank d = false := by rwa [List.head?_reverse]
    rw [trimChars, List.append_assoc, dropWhile_blanks hfront (s := c :: rest ++ back) hhead, List.reverse_append,
      dropWhile_blanks (fun d hd => hback d (List.mem_reverse.mp hd)) hreversed, List.reverse_reverse]

theorem isInfix_trimChars (s : List Char) : trimChars s <:+: s := by
  obtain ⟨front, back, hsplit, -⟩ := trimChars_split s
  exact ⟨front, back, hsplit.symm⟩

theorem isBlank_of_isDigit {c : Char} (h : c.isDigit = true) : isBlank c = false := by
  simp only [Char.isDigit, Bool.and_eq_true, decide_eq_true_eq, ge_iff_le,
    UInt32.le_iff_toNat_le] at h
  simp only [isBlank, Bool.or_eq_false_iff, Bool.and_eq_false_iff, decide_eq_false_iff_not,
    beq_eq_false_iff_ne, ne_eq, UInt32.le_iff_toNat_le, ← UInt32.toNat_inj]
  simp at h ⊢
  omega

theorem toLower_of_digit_or_blank {c : Char} (h : c.isDigit = true ∨ isBlank c = true) : c.toLower = c := by
  have hupper : ¬ (c.val ≥ 'A'.val ∧ c.val ≤ 'Z'.val) := by
    simp only [Char.isDigit, isBlank, Bool.or_eq_true, Bool.and_eq_true, decide_eq_true_eq, beq_iff_eq, ge_iff_le,
      UInt32.le_iff_toNat_le, ← UInt32.toNat_inj] at h ⊢
    simp at h ⊢
    omega
  exact dif_neg hupper

theorem not_mem_of_mem_splitAt {sep : Char} {s piece : List Char} (h : piece ∈ splitAt sep s) :
    sep ∉ piece := by
  induction s generalizing piece with
  | nil =>
    obtain rfl : piece = [] := by simpa [splitAt] using h
    exact List.not_mem_nil
  | cons c rest ih =>
    rw [splitAt] at h
    split at h
    · rcases List.mem_cons.mp h with rfl | h
      · exact List.not_mem_nil
      · exact ih h
    · next hc =>
      cases hrest : splitAt sep rest with
      | nil => exact absurd hrest (splitAt_ne_nil sep rest)
      | cons first others =>
        rw [hrest] at h
        rcases List.mem_cons.mp h with rfl | h
        · rw [List.mem_cons, not_or]
          exact ⟨fun he => hc he.symm, ih (by simp [hrest])⟩
        · exact ih (by simp [hrest, h])

/-- What holds of the characters of every piece holds of all characters but the separators. -/
theorem forall_mem_splitAt {sep : Char} {s : List Char} {P : Char → Prop} :
    (∀ piece ∈ splitAt sep s, ∀ c ∈ piece, P c) ↔ ∀ c ∈ s, c = sep ∨ P c := by
  induction s with
  | nil => simp [splitAt]
  | cons c rest ih =>
    rw [List.forall_mem_cons, ← ih, splitAt]
    split
    · next hc => simp [hc]
    · next hc =>
      cases hrest : splitAt sep rest with
      | nil => exact absurd hrest (splitAt_ne_nil sep rest)
      | cons piece pieces => simp [hc, and_assoc]

theorem splitAt_of_not_mem {sep : Char} {s : List Char} (h : sep ∉ s) : splitAt sep s = [s] := by
  induction s with
  | nil => rfl
  | cons c rest ih =>
    rw [List.mem_cons, not_or] at h
    rw [splitAt, if_neg (Ne.symm h.1), ih h.2]

theorem splitAt_append_sep (sep : Char) (s t : List Char) :
    splitAt sep (s ++ sep :: t) = splitAt sep s ++ splitAt sep t := by
  induction s with
  | nil => simp [splitAt]
  | cons c rest ih =>
    rw [List.cons_append, splitAt, splitAt, ih]
    split
    · rfl
    · cases hrest : splitAt sep rest with
      | nil => exact absurd hrest (splitAt_ne_nil sep rest)
      | cons piece pieces => rfl

theorem splitAt_joinWith {sep : Char} {pieces : List (List Char)} (hne : pieces ≠ [])
    (h : ∀ piece ∈ pieces, sep ∉ piece) : splitAt sep (joinWith sep pieces) = pieces := by
  induction pieces with
  | nil => exact absurd rfl hne
  | cons piece rest ih =>
    obtain ⟨hpiece, hrest⟩ := List.forall_mem_cons.mp h
    cases rest with
    | nil => exact splitAt_of_not_mem hpiece
    | cons next others =>
      have hjoin : joinWith sep (piece :: next :: others) =
          piece ++ sep :: joinWith sep (next :: others) := rfl
      rw [hjoin, splitAt_append_sep, splitAt_of_not_mem hpiece, ih (List.cons_ne_nil _ _) hrest,
        List.singleton_append]

theorem mem_joinWith {sep c : Char} {piece : List Char} {pieces : List (List Char)} (hpiece : piece ∈ pieces)
    (hc : c ∈ piece) : c ∈ joinWith sep pieces := by
  induction pieces with
  | nil => exact absurd hpiece List.not_mem_nil
  | cons first rest ih =>
    have hjoin (next : List Char) (others : List (List Char)) : joinWith sep (first :: next :: others) =
        first ++ sep :: joinWith sep (next :: others) := rfl
    rcases List.mem_cons.mp hpiece with rfl | hrest
    · cases rest with
      | nil => exact hc
      | cons next others =>
        rw [hjoin]
        exact List.mem_append_left _ hc
    · cases rest with
      | nil => exact absurd hrest List.not_mem_nil
      | cons next others =>
        rw [hjoin]
        exact List.mem_append_right _ (List.mem_cons_of_mem _ (ih hrest))

/-- Pieces joined by a separator do not end in it, when the last one is not empty and has none. -/
theorem getLast?_joinWith_ne {sep : Char} {pieces : List (List Char)}
    (h : ∀ piece ∈ pieces, piece ≠ [] ∧ sep ∉ piece) : (joinWith sep pieces).getLast? ≠ some sep := by
  induction pieces with
  | nil => simp [joinWith]
  | cons piece rest ih =>
    cases rest with
    | nil => exact fun hlast => (h piece (by simp)).2 (List.mem_of_getLast? hlast)
    | cons next others =>
      have hne : joinWith sep (next :: others) ≠ [] := by
        have hnext := (h next (by simp)).1
        cases others <;> simp [joinWith, hnext]
      have hjoin : joinWith sep (piece :: next :: others) =
          piece ++ sep :: joinWith sep (next :: others) := rfl
      have hlast := ih fun p hp => h p (by simp [hp])
      rw [List.getLast?_eq_some_getLast hne] at hlast
      rw [hjoin, List.getLast?_append, List.getLast?_cons_of_ne_nil hne,
        List.getLast?_eq_some_getLast hne, Option.some_or]
      exact hlast

end VolumeSearch.Text
