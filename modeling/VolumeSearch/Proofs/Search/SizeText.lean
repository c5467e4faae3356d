import Mathlib.Tactic.Common
import VolumeSearch.Proofs.Text.Blank
import VolumeSearch.Proofs.Text.Numeral
import VolumeSearch.Search.Plan

/-! Sizes as people write them: a decimal numeral and a unit, with blanks around both. The product of number and unit
saturates. A number that does not fit a word by itself never comes to be multiplied, and the size is zero. -/
namespace VolumeSearch.SizeText
open VolumeSearch.Text

def unitsOrNone : List (List Char × Nat) := ([], 1) :: units

def letters : List Char := ['g', 'm', 'k', 'b']

variable {number unit : List Char} {bytes : Nat}

theorem before?_append (text unit : List Char) : before? (unit.map Char.toLower) (text ++ unit) = some text := by
  simp [before?]

/-- A unit with a letter that the text does not have is not at its end. -/
theorem before?_eq_none {text : List Char} {c : Char} (hc : c ∈ unit) (htext : ∀ d ∈ text, d.toLower ≠ c) : before? unit text = none := by
  refine if_neg fun hsuffix => ?_
  rw [← hsuffix] at hc
  obtain ⟨d, hd, hlower⟩ := List.mem_map.mp hc
  exact htext d (List.mem_of_mem_drop hd) hlower

theorem toLower_mem_letters (hunit : (unit.map Char.toLower, bytes) ∈ unitsOrNone) :
    ∀ c ∈ unit, c.toLower ∈ letters := by
  have hall : ∀ known ∈ unitsOrNone, ∀ c ∈ known.1, c ∈ letters := by simp [unitsOrNone, units, letters]
  exact fun c hc => hall _ hunit _ (List.mem_map_of_mem hc)

theorem toLower_not_mem_letters {c : Char} (h : c.isDigit = true ∨ isBlank c = true) : c.toLower ∉ letters := by
  have hall : letters.all (fun d => !d.isDigit && !isBlank d) = true := by decide
  intro hmem
  rw [toLower_of_digit_or_blank h] at hmem
  have hneither := List.all_eq_true.mp hall c hmem
  rcases h with hdigit | hblank
  · simp [hdigit] at hneither
  · simp [hblank] at hneither

/-- What stands before a unit is told from it when it has no letters of units. -/
theorem splitUnit_append (hnumber : ∀ c ∈ number, c.toLower ∉ letters)
    (hunit : (unit.map Char.toLower, bytes) ∈ unitsOrNone) : splitUnit (number ++ unit) = (number, bytes) := by
  have hfound := before?_append number unit
  have hother {other : List Char} {c : Char} (hc : c ∈ other) (hletter : c ∈ letters)
      (hne : c ∉ unit.map Char.toLower) : before? other (number ++ unit) = none := by
    refine before?_eq_none hc (List.forall_mem_append.mpr ⟨fun d hd heq => hnumber d hd (heq ▸ hletter), ?_⟩)
    exact fun d hd heq => hne (heq ▸ List.mem_map_of_mem hd)
  simp only [unitsOrNone, units, List.mem_cons, List.not_mem_nil, or_false, Prod.mk.injEq] at hunit
  unfold splitUnit units
  -- no text ends in the longer units unless it has their first letters
  rcases hunit with ⟨hname, rfl⟩ | ⟨hname, rfl⟩ | ⟨hname, rfl⟩ | ⟨hname, rfl⟩ | ⟨hname, rfl⟩
  all_goals rw [hname] at hfound hother
  · rw [List.map_eq_nil_iff.mp hname, List.append_nil] at hother ⊢
    have hnone {other : List Char} (hb : 'b' ∈ other) : before? other number = none :=
      hother hb (by decide) List.not_mem_nil
    simp [hnone]
  · simp [hfound]
  · have hgb : before? ['g', 'b'] (number ++ unit) = none := hother (c := 'g') (by decide) (by decide) (by decide)
    simp [hgb, hfound]
  · have hgb : before? ['g', 'b'] (number ++ unit) = none := hother (c := 'g') (by decide) (by decide) (by decide)
    have hmb : before? ['m', 'b'] (number ++ unit) = none := hother (c := 'm') (by decide) (by decide) (by decide)
    simp [hgb, hmb, hfound]
  · have hgb : before? ['g', 'b'] (number ++ unit) = none := hother (c := 'g') (by decide) (by decide) (by decide)
    have hmb : before? ['m', 'b'] (number ++ unit) = none := hother (c := 'm') (by decide) (by decide) (by decide)
    have hkb : before? ['k', 'b'] (number ++ unit) = none := hother (c := 'k') (by decide) (by decide) (by decide)
    simp [hgb, hmb, hkb, hfound]

/-- How a size is written around the digits of its number: blanks, zeros in front, and a unit in any letter case. -/
structure Spelling where
  front : List Char
  zeros : Nat
  middle : List Char
  unit : List Char
  bytes : Nat
  back : List Char
  blank_front : ∀ c ∈ front, isBlank c = true
  blank_middle : ∀ c ∈ middle, isBlank c = true
  known_unit : (unit.map Char.toLower, bytes) ∈ unitsOrNone
  blank_back : ∀ c ∈ back, isBlank c = true

namespace Spelling

variable (s : Spelling) (n : Nat)

def digits : List Char := List.replicate s.zeros '0' ++ Nat.toDigits 10 n

def text : String := String.ofList (s.front ++ s.digits n ++ s.middle ++ s.unit ++ s.back)

theorem isDigit_digits : ∀ c ∈ s.digits n, c.isDigit = true := fun _ hc => Numeral.zeros_toDigits_isDigit hc

theorem digits_ne_nil : s.digits n ≠ [] := List.append_ne_nil_of_right_ne_nil _ Nat.toDigits_ne_nil

theorem one_le_bytes : 1 ≤ s.bytes := by
  have hall : ∀ known ∈ unitsOrNone, 1 ≤ known.2 := by decide
  exact hall _ s.known_unit

theorem isBlank_unit : ∀ c ∈ s.unit, isBlank c = false := by
  intro c hc
  by_contra hblank
  exact toLower_not_mem_letters (.inr (by simpa using hblank)) (toLower_mem_letters s.known_unit c hc)

theorem isBlank_digits : ∀ c ∈ s.digits n, isBlank c = false :=
  fun c hc => isBlank_of_isDigit (s.isDigit_digits n c hc)

theorem number_letterless : ∀ c ∈ s.digits n ++ s.middle, c.toLower ∉ letters :=
  List.forall_mem_append.mpr ⟨fun c hc => toLower_not_mem_letters (.inl (s.isDigit_digits n c hc)),
    fun c hc => toLower_not_mem_letters (.inr (s.blank_middle c hc))⟩

theorem splitUnit_text : ∃ number, splitUnit (trimChars (s.text n).toList) = (number, s.bytes) ∧
    trimChars number = s.digits n := by
  have hhead (rest : List Char) : ∀ c ∈ (s.digits n ++ rest).head?, isBlank c = false := by
    intro c hc
    rw [List.head?_append, List.head?_eq_some_head (s.digits_ne_nil n), Option.some_or] at hc
    exact s.isBlank_digits n c (Option.some.inj hc ▸ List.head_mem _)
  have hfirst : ∀ c ∈ (s.digits n).head?, isBlank c = false :=
    fun c hc => s.isBlank_digits n c (List.mem_of_mem_head? hc)
  have hlast : ∀ c ∈ (s.digits n).getLast?, isBlank c = false :=
    fun c hc => s.isBlank_digits n c (List.mem_of_mem_getLast? hc)
  have hletterless := s.number_letterless n
  rw [text, String.toList_ofList]
  by_cases hunit : s.unit = []
  · -- the blanks behind the number are at the end of the text
    have htrim : trimChars (s.front ++ s.digits n ++ s.middle ++ s.unit ++ s.back) = s.digits n := by
      rw [hunit, List.append_nil, List.append_assoc]
      exact trimChars_between s.blank_front (List.forall_mem_append.mpr ⟨s.blank_middle, s.blank_back⟩)
        hfirst hlast
    have hsplit := splitUnit_append (List.forall_mem_append.mp hletterless).1 s.known_unit
    rw [hunit, List.append_nil] at hsplit
    refine ⟨s.digits n, by rw [htrim, hsplit], trimChars_of_forall (s.isBlank_digits n)⟩
  · have htrim : trimChars (s.front ++ s.digits n ++ s.middle ++ s.unit ++ s.back) =
        s.digits n ++ s.middle ++ s.unit := by
      have hgroup : s.front ++ s.digits n ++ s.middle ++ s.unit ++ s.back =
          s.front ++ (s.digits n ++ s.middle ++ s.unit) ++ s.back := by simp only [List.append_assoc]
      rw [hgroup]
      refine trimChars_between s.blank_front s.blank_back ?_ fun c hc => ?_
      · rw [List.append_assoc]
        exact hhead _
      · rw [List.getLast?_append, List.getLast?_eq_some_getLast hunit, Option.some_or] at hc
        exact s.isBlank_unit c (Option.some.inj hc ▸ List.getLast_mem _)
    refine ⟨s.digits n ++ s.middle, by rw [htrim, splitUnit_append hletterless s.known_unit], ?_⟩
    exact @trimChars_between [] (s.digits n) s.middle (List.forall_mem_nil _) s.blank_middle hfirst hlast

/-- Read is the number times the bytes of the unit, at most the largest word, if the number itself is a word. -/
theorem toNat_read : (read (s.text n)).toNat =
    if n < UInt64.size then min (n * s.bytes) (UInt64.size - 1) else 0 := by
  obtain ⟨number, hsplit, htrim⟩ := s.splitUnit_text n
  have hnumeral : Numeral.unsigned? (s.digits n) = if n < UInt64.size then some n.toUInt64 else none := by
    rw [Numeral.unsigned?, digits, Numeral.natural?_zeros_toDigits, Option.bind_some]
  simp only [read, hsplit, htrim, hnumeral]
  by_cases hfits : n < UInt64.size
  · have hmost : min (n * s.bytes) (UInt64.size - 1) < UInt64.size :=
      lt_of_le_of_lt (Nat.min_le_right _ _) (by decide)
    have hword : n.toUInt64.toNat = n := UInt64.toNat_ofNat_of_lt' hfits
    simp only [if_pos hfits, hword]
    exact UInt64.toNat_ofNat_of_lt' hmost
  · rw [if_neg hfits, if_neg hfits]
    rfl

/-- Sizes saturate just as far as their numbers are words, and so far they grow with them, whatever the blanks, the
zeros in front and the case of the unit. A larger number collapses to zero bytes. -/
theorem read_saturates_iff : (read (s.text n)).toNat =
      (if n < UInt64.size then min (n * s.bytes) (UInt64.size - 1) else 0) ∧
    ((read (s.text n)).toNat = min (n * s.bytes) (UInt64.size - 1) ↔ n < UInt64.size) ∧
    ((∀ m ≤ n, read (s.text m) ≤ read (s.text n)) ↔ n < UInt64.size) := by
  have hvalue := s.toNat_read
  have hbytes := s.one_le_bytes
  have hwords : 1 < UInt64.size := by decide
  refine ⟨hvalue n, ⟨fun hsaturated => ?_, fun hfits => ?_⟩, fun hmono => ?_, fun hfits m hm => ?_⟩
  · by_contra hlarge
    have hproduct : n ≤ n * s.bytes := Nat.le_mul_of_pos_right n hbytes
    rw [hvalue, if_neg hlarge, Nat.min_eq_right (by omega)] at hsaturated
    omega
  · rw [hvalue, if_pos hfits]
  · by_contra hlarge
    -- one unit is more than nothing
    have hone := UInt64.le_iff_toNat_le.mp (hmono 1 (by omega))
    rw [hvalue, hvalue, if_neg hlarge, if_pos hwords] at hone
    omega
  · rw [UInt64.le_iff_toNat_le, hvalue, hvalue, if_pos hfits, if_pos (lt_of_le_of_lt hm hfits)]
    have hproducts : m * s.bytes ≤ n * s.bytes := Nat.mul_le_mul_right _ hm
    omega

end Spelling

def spelledKilobytes : Spelling where
  front := [' ']
  zeros := 2
  middle := ['\t']
  unit := ['k', 'B']
  bytes := 1024
  back := ['\n']
  blank_front := List.forall_mem_singleton.mpr rfl
  blank_middle := List.forall_mem_singleton.mpr rfl
  known_unit := by decide
  blank_back := List.forall_mem_singleton.mpr rfl

theorem read_spelledKilobytes : spelledKilobytes.text 7 = " 007\tkB\n" ∧ read (spelledKilobytes.text 7) = 7168 ∧
    read (spelledKilobytes.text 6) ≤ read (spelledKilobytes.text 7) := by
  obtain ⟨hvalue, -, hmono⟩ := spelledKilobytes.read_saturates_iff 7
  refine ⟨by decide +kernel, UInt64.toNat_inj.mp (hvalue.trans (by decide)), ?_⟩
  exact hmono.mpr (by decide) 6 (by decide)

/-- One size in two units: as many bytes it is none, as gigabytes it is the largest word. -/
theorem read_collapses : 18446744073709551616 = 17179869184 * 1073741824 ∧
    read "18446744073709551616" = 0 ∧ read "17179869184GB" = 18446744073709551615 ∧
    read "18446744073709551615" = 18446744073709551615 := by
  decide +kernel

end VolumeSearch.SizeText
