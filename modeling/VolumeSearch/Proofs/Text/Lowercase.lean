import Mathlib.Tactic.Common
import VolumeSearch.Proofs.Text.Runs
import VolumeSearch.Text.Lowercase

/-! Lower case character by character. The place of a capital sigma decides between its two forms, so the
lower-case form of a text is not put together from those of its parts; its runs of ASCII or of CJK
characters are. -/
namespace VolumeSearch.Text

/-- Lower case of a character wherever it stands, with the form that sigma has within a word. -/
def lowerAlone (c : Char) : List Char := if c = 'Σ' then ['σ'] else lowerChar c

variable {p : Char → Bool}

/-- Where both forms of sigma are in no run, its place does not matter for the runs. -/
theorem runs_lowercaseChars (hsigma : p 'σ' = false) (hfinal : p 'ς' = false) (s : List Char) :
    runs p (lowercaseChars s) = runs p (s.flatMap lowerAlone) := by
  have hform {form : Char} (hform : p form = false) (run t : List Char) :
      runsFrom p run ([form] ++ t) = runsFrom p run ('σ' :: t) := by
    rw [List.singleton_append, runsFrom, runsFrom, hform, hsigma]
    rfl
  have hfrom (before run : List Char) :
      runsFrom p run (lowercaseFrom before s) = runsFrom p run (s.flatMap lowerAlone) := by
    induction s generalizing before run with
    | nil => rfl
    | cons c rest ih =>
      have hlater := runsFrom_append_congr (ih (c :: before))
      rw [lowercaseFrom, List.flatMap_cons, lowerAlone]
      by_cases hc : c = 'Σ'
      · rw [if_pos hc, if_pos hc]
        split
        · exact (hform hfinal run _).trans (hlater run ['σ'])
        · exact hlater run ['σ']
      · rw [if_neg hc, if_neg hc]
        exact hlater run _
  exact hfrom [] []

private def blankCodes : List Nat :=
  List.range' 0x09 5 ++ [0x20, 0x85, 0xa0, 0x1680] ++ List.range' 0x2000 11 ++
    [0x2028, 0x2029, 0x202f, 0x205f, 0x3000]

private theorem toNat_of_isBlank {c : Char} (h : isBlank c = true) : c.toNat ∈ blankCodes := by
  have hval : c.toNat = c.val.toNat := rfl
  simp only [isBlank, Bool.or_eq_true, Bool.and_eq_true, decide_eq_true_eq, beq_iff_eq,
    UInt32.le_iff_toNat_le, ← UInt32.toNat_inj] at h
  simp only [blankCodes, hval, List.mem_append, List.mem_range'_1, List.mem_cons, List.not_mem_nil,
    or_false]
  simp at h
  omega

theorem lowerAlone_of_isBlank {c : Char} (h : isBlank c = true) : lowerAlone c = [c] := by
  have hall : ∀ n ∈ blankCodes, lowerAlone (Char.ofNat n) = [Char.ofNat n] := by decide +kernel
  have hc := hall c.toNat (toNat_of_isBlank h)
  rwa [Char.ofNat_toNat] at hc

def IsLower (c : Char) : Prop := lowerChar c = [c]

instance : DecidablePred IsLower := fun c => inferInstanceAs (Decidable (lowerChar c = [c]))

namespace CaseRange

def top (r : CaseRange) : Nat := r.lower + (r.last - r.first)

/-- The forms of `r` are outside `q`: all before it or all after it, or a single one that `q` steps over, or every
other character, with `q` on those between them. -/
def apart (r q : CaseRange) : Bool :=
  Nat.blt q.last r.lower || Nat.blt r.top q.first ||
  (r.first == r.last && (r.lower - q.first) % q.step != 0) ||
  (r.step == 2 && q.step == 2 && (r.lower + q.first) % 2 == 1)

theorem contains_apply {r q : CaseRange} (h : r.apart q = true) {n : Nat} (hn : r.contains n = true) :
    q.contains (r.apply n) = false := by
  simp only [contains, Bool.and_eq_true, decide_eq_true_eq, beq_iff_eq] at hn
  obtain ⟨⟨hfirst, hlast⟩, hstep⟩ := hn
  simp only [apart, top, Bool.or_eq_true, Bool.and_eq_true, Nat.blt_eq, beq_iff_eq, bne_iff_ne] at h
  rw [apply, ← Bool.not_eq_true]
  simp only [contains, Bool.and_eq_true, decide_eq_true_eq, beq_iff_eq]
  rintro ⟨⟨hqfirst, hqlast⟩, hqstep⟩
  rcases h with ((hafter | hbefore) | ⟨hsingle, hover⟩) | ⟨⟨hr, hq⟩, hparity⟩
  · omega
  · omega
  · have hn : n - r.first = 0 := by omega
    rw [hn, Nat.add_zero] at hqstep
    exact hover hqstep
  · rw [hr] at hstep
    rw [hq] at hqstep
    omega

end CaseRange

private theorem caseRanges_apart {r q : CaseRange} (hr : r ∈ caseRanges) (hq : q ∈ caseRanges) :
    r.apart q = true := by
  have hall : (caseRanges.all fun r => caseRanges.all r.apart) = true := by decide +kernel
  exact List.all_eq_true.mp (List.all_eq_true.mp hall r hr) q hq

/-- The forms are characters, none of them a capital. -/
private theorem caseRanges_forms : ∀ r ∈ caseRanges, 'a'.toNat ≤ r.lower ∧ (r.top < 0x130 ∨ 0x130 < r.lower) ∧
    (r.top < 0xd800 ∨ 0xdfff < r.lower ∧ r.top < 0x110000) := by
  decide +kernel

/-- A property of all ASCII characters, which are tried one by one. -/
private theorem forall_ascii {P : Char → Prop} (h : ∀ n < 0x80, P (Char.ofNat n)) {c : Char}
    (hc : c.toNat < 0x80) : P c := by
  have hP := h c.toNat hc
  rwa [Char.ofNat_toNat] at hP

private theorem toNat_ofNat {n : Nat} (h : n.isValidChar) : (Char.ofNat n).toNat = n := by
  rw [Char.ofNat, dif_pos h]
  rfl

private theorem isLower_apply {r : CaseRange} (hr : r ∈ caseRanges) {n : Nat} (hn : r.contains n = true) :
    IsLower (Char.ofNat (r.apply n)) := by
  obtain ⟨hsmall, hdotted, hvalid⟩ := caseRanges_forms r hr
  have hform : r.lower ≤ r.apply n ∧ r.apply n ≤ r.top := by
    simp only [CaseRange.contains, Bool.and_eq_true, decide_eq_true_eq, beq_iff_eq] at hn
    simp only [CaseRange.apply, CaseRange.top]
    omega
  generalize happly : r.apply n = m at hform
  have hm : (Char.ofNat m).toNat = m := toNat_ofNat (by simp only [Nat.isValidChar]; omega)
  by_cases hascii : m < 0x80
  · have hall : ∀ n < 0x80, 'a'.toNat ≤ n → IsLower (Char.ofNat n) := by decide +kernel
    exact hall m hascii (Nat.le_trans hsmall hform.1)
  · have hnone : caseRanges.find? (·.contains m) = none := by
      rw [List.find?_eq_none]
      intro q hq
      rw [← happly, CaseRange.contains_apply (caseRanges_apart hr hq) hn]
      exact Bool.false_ne_true
    rw [IsLower, lowerChar, hm, if_neg hascii, if_neg (by omega), hnone]

theorem isLower_of_mem_lowerChar {c d : Char} (h : d ∈ lowerChar c) : IsLower d := by
  rw [lowerChar] at h
  split at h
  · next hascii =>
    rw [List.mem_singleton.mp h]
    exact forall_ascii (P := fun c => IsLower c.toLower) (by decide +kernel) hascii
  · next hascii =>
    split at h
    · have hdotless : IsLower 'i' ∧ IsLower '\u0307' := by decide +kernel
      simp only [List.mem_cons, List.not_mem_nil, or_false] at h
      rcases h with rfl | rfl
      · exact hdotless.1
      · exact hdotless.2
    · next hdotted =>
      split at h
      · next r hfind =>
        rw [List.mem_singleton.mp h]
        have hcontains : r.contains c.toNat = true :=
          List.find?_some (p := fun r : CaseRange => r.contains c.toNat) hfind
        exact isLower_apply (List.mem_of_find?_eq_some hfind) hcontains
      · next hnone =>
        rw [List.mem_singleton.mp h, IsLower, lowerChar, if_neg hascii, if_neg hdotted, hnone]

theorem isUpper_of_isLower {c : Char} (h : IsLower c) (hascii : c.toNat < 0x80) : c.isUpper = false := by
  have hcapital := forall_ascii (P := fun c => IsLower c → c.isUpper = false) (by decide +kernel) hascii
  exact hcapital h

theorem isLower_of_mem_lowercaseFrom {before s : List Char} {d : Char} (h : d ∈ lowercaseFrom before s) :
    IsLower d := by
  induction s generalizing before with
  | nil => exact absurd h List.not_mem_nil
  | cons c rest ih =>
    rw [lowercaseFrom] at h
    rcases List.mem_append.mp h with h | h
    · have hsigma : IsLower 'ς' ∧ IsLower 'σ' := by decide +kernel
      split at h
      · split at h
        · exact List.mem_singleton.mp h ▸ hsigma.1
        · exact List.mem_singleton.mp h ▸ hsigma.2
      · exact isLower_of_mem_lowerChar h
    · exact ih h

theorem lowercaseFrom_of_isLower {s : List Char} (h : ∀ c ∈ s, IsLower c) (before : List Char) :
    lowercaseFrom before s = s := by
  induction s generalizing before with
  | nil => rfl
  | cons c rest ih =>
    obtain ⟨hc, hrest⟩ := List.forall_mem_cons.mp h
    have hsigma : c ≠ 'Σ' := by
      rintro rfl
      exact absurd hc (by decide +kernel)
    rw [lowercaseFrom, if_neg hsigma, hc, ih hrest, List.singleton_append]

theorem lowercaseChars_lowercaseChars (s : List Char) : lowercaseChars (lowercaseChars s) = lowercaseChars s :=
  lowercaseFrom_of_isLower (fun _ hc => isLower_of_mem_lowercaseFrom hc) []

end VolumeSearch.Text
