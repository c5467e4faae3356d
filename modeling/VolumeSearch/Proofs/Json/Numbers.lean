import Mathlib.Tactic.Common
import VolumeSearch.Json
import VolumeSearch.Proofs.Bytes

namespace VolumeSearch.Json
open String (utf8EncodeChar)

def digits (n : Nat) : Bytes := Bytes.ofText (toString n)

private theorem ofText_digitChar : ∀ n < 10, utf8EncodeChar (Nat.digitChar n) = [(0x30 + n).toUInt8] := by
  decide

private theorem digits_of_lt {n : Nat} (h : n < 10) : digits n = [(0x30 + n).toUInt8] := by
  rw [digits, Nat.toString_eq_ofList_toDigits, Bytes.ofText_ofList, Nat.toDigits_of_lt_base h,
    List.flatMap_cons, ofText_digitChar n h]
  rfl

private theorem digits_of_le {n : Nat} (h : 10 ≤ n) :
    digits n = digits (n / 10) ++ [(0x30 + n % 10).toUInt8] := by
  rw [digits, digits, Nat.toString_eq_ofList_toDigits, Nat.toString_eq_ofList_toDigits,
    Bytes.ofText_ofList, Bytes.ofText_ofList, Nat.toDigits_of_base_le (by decide) h,
    List.flatMap_append, List.flatMap_cons, ofText_digitChar _ (Nat.mod_lt n (by decide))]
  rfl

private theorem toNat_digit {n : Nat} (h : n < 10) : (0x30 + n).toUInt8.toNat = 0x30 + n := by
  simp only [Nat.toUInt8_eq, UInt8.toNat_ofNat']
  omega

private theorem isDigit_digit {n : Nat} (h : n < 10) : isDigit (0x30 + n).toUInt8 = true := by
  have hall : ∀ n < 10, isDigit (0x30 + n).toUInt8 = true := by decide
  exact hall n h

theorem isDigit_of_mem_digits (n : Nat) : ∀ b ∈ digits n, isDigit b = true := by
  induction n using Nat.strongRecOn with
  | ind n ih =>
    by_cases hn : n < 10
    · rw [digits_of_lt hn]
      simpa using isDigit_digit hn
    · rw [digits_of_le (by omega)]
      intro b hb
      rcases List.mem_append.mp hb with hb | hb
      · exact ih (n / 10) (by omega) b hb
      · rw [List.mem_singleton.mp hb]
        exact isDigit_digit (Nat.mod_lt n (by decide))

theorem digitsValue_digits (n : Nat) : digitsValue (digits n) = n := by
  induction n using Nat.strongRecOn with
  | ind n ih =>
    by_cases hn : n < 10
    · rw [digits_of_lt hn]
      simp only [digitsValue, List.foldl_cons, List.foldl_nil, toNat_digit hn]
      omega
    · have hprefix := ih (n / 10) (by omega)
      rw [digitsValue] at hprefix
      rw [digits_of_le (by omega), digitsValue, List.foldl_append, hprefix]
      simp only [List.foldl_cons, List.foldl_nil, toNat_digit (Nat.mod_lt n (by decide))]
      omega

/-- A decimal form has at least one digit, and no zero in front of another digit. -/
theorem digits_eq_cons (n : Nat) :
    ∃ b rest, digits n = b :: rest ∧ (rest ≠ [] → b ≠ 0x30) ∧ (0 < n → b ≠ 0x30) := by
  induction n using Nat.strongRecOn with
  | ind n ih =>
    by_cases hn : n < 10
    · refine ⟨_, _, digits_of_lt hn, by simp, fun hpos he => ?_⟩
      have h := congrArg UInt8.toNat he
      rw [toNat_digit hn] at h
      exact absurd h (by simp; omega)
    · obtain ⟨b, rest, he, _, hpos⟩ := ih (n / 10) (by omega)
      have hb := hpos (by omega)
      exact ⟨b, rest ++ [(0x30 + n % 10).toUInt8], by rw [digits_of_le (by omega), he]; rfl,
        fun _ => hb, fun _ => hb⟩

/-- What cannot continue a number. -/
def EndsNumber (rest : Bytes) : Prop :=
  ∀ b ∈ rest.head?, isDigit b = false ∧ b ≠ 0x2e ∧ b ≠ 0x65 ∧ b ≠ 0x45

private theorem readDigits_digits (n : Nat) (rest : Bytes) (h : EndsNumber rest) :
    readDigits (digits n ++ rest) = some (digits n, rest) := by
  have hall := isDigit_of_mem_digits n
  have hstop : rest.takeWhile isDigit = [] ∧ rest.dropWhile isDigit = rest := by
    cases rest with
    | nil => simp
    | cons b rest =>
      have hb := (h b (by simp)).1
      simp [hb]
  have htake : (digits n ++ rest).takeWhile isDigit = digits n := by
    rw [List.takeWhile_append_of_pos hall, hstop.1, List.append_nil]
  have hdrop : (digits n ++ rest).dropWhile isDigit = rest := by
    rw [List.dropWhile_append_of_pos hall, hstop.2]
  obtain ⟨b, tail, he, -, -⟩ := digits_eq_cons n
  rw [readDigits, htake, hdrop, he]
  rfl

private theorem readFraction_of_ends (rest : Bytes) (h : EndsNumber rest) :
    readFraction rest = some (false, rest) := by
  unfold readFraction
  split
  · exact absurd rfl (h 0x2e (by simp)).2.1
  · rfl

private theorem readExponent_of_ends (rest : Bytes) (h : EndsNumber rest) :
    readExponent rest = some (false, rest) := by
  unfold readExponent
  split
  · next e more =>
    have he := h e (by simp)
    rw [if_neg (by simp [he.2.2.1, he.2.2.2])]
  · rfl

theorem readMagnitude_digits (negative : Bool) (n : Nat) (rest : Bytes) (h : EndsNumber rest) :
    readMagnitude negative (digits n ++ rest) = some (.integer negative n, rest) := by
  obtain ⟨b, tail, he, hlead, -⟩ := digits_eq_cons n
  have hzero : ¬ ((digits n).head? = some 0x30 ∧ 1 < (digits n).length) := by
    rw [he]
    rintro ⟨hb, hlen⟩
    exact hlead (by rintro rfl; simp at hlen) (by simpa using hb)
  simp only [readMagnitude, readDigits_digits n rest h, readFraction_of_ends rest h,
    readExponent_of_ends rest h, digitsValue_digits, Option.bind_eq_bind, Option.bind_some]
  rw [if_neg hzero]
  rfl

end VolumeSearch.Json
