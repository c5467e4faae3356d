import Mathlib.Tactic.Common
import VolumeSearch.Text.Basic

namespace VolumeSearch.Text.Numeral

private theorem digitsFrom_append (value : Nat) (xs ys : List Char) :
    digitsFrom value (xs ++ ys) = (digitsFrom value xs).bind fun v => digitsFrom v ys := by
  induction xs generalizing value with
  | nil => rfl
  | cons c rest ih =>
    rw [List.cons_append, digitsFrom, digitsFrom]
    split
    · exact ih _
    · rfl

private theorem digitsFrom_digitChar (value n : Nat) (h : n < 10) :
    digitsFrom value [Nat.digitChar n] = some (10 * value + n) := by
  have hrange : '0' ≤ Nat.digitChar n ∧ Nat.digitChar n ≤ '9' := by
    have hall : ∀ n < 10, '0' ≤ Nat.digitChar n ∧ Nat.digitChar n ≤ '9' := by decide
    exact hall n h
  have hvalue : (Nat.digitChar n).toNat - '0'.toNat = n := Nat.toNat_digitChar_sub_48_of_lt_ten h
  rw [digitsFrom, if_pos hrange, hvalue, digitsFrom]

theorem digitsFrom_toDigits (n : Nat) : digitsFrom 0 (Nat.toDigits 10 n) = some n := by
  induction n using Nat.strongRecOn with
  | ind n ih =>
    by_cases hn : n < 10
    · rw [Nat.toDigits_of_lt_base hn, digitsFrom_digitChar 0 n hn, Nat.mul_zero, Nat.zero_add]
    · rw [Nat.toDigits_of_base_le (by decide) (by omega), digitsFrom_append, ih (n / 10) (by omega),
        Option.bind_some, digitsFrom_digitChar _ _ (Nat.mod_lt n (by decide)), Nat.div_add_mod]

/-- The decimal form of a number starts with a digit, which is neither a sign nor a blank. -/
theorem toDigits_isDigit {n : Nat} {c : Char} (h : c ∈ Nat.toDigits 10 n) : c.isDigit = true :=
  Nat.isDigit_of_mem_toDigits (by decide) (by decide) h

theorem natural?_of_isDigit {s : List Char} (hne : s ≠ []) (h : ∀ c ∈ s, c.isDigit = true) :
    natural? s = digitsFrom 0 s := by
  have hdigits : natural? s = digits? s := by
    unfold natural?
    split
    · exact absurd (h '+' List.mem_cons_self) (by decide)
    · rfl
  rw [hdigits, digits?, if_neg fun hempty => hne (List.isEmpty_iff.mp hempty)]

theorem natural?_toDigits (n : Nat) : natural? (Nat.toDigits 10 n) = some n := by
  rw [natural?_of_isDigit Nat.toDigits_ne_nil fun c hc => toDigits_isDigit hc, digitsFrom_toDigits]

theorem zeros_toDigits_isDigit {zeros n : Nat} {c : Char} (h : c ∈ List.replicate zeros '0' ++ Nat.toDigits 10 n) :
    c.isDigit = true := by
  rcases List.mem_append.mp h with hzero | hdigit
  · rw [List.eq_of_mem_replicate hzero]
    decide
  · exact toDigits_isDigit hdigit

/-- Zeros in front of a number's digits do not count. -/
theorem natural?_zeros_toDigits (zeros n : Nat) :
    natural? (List.replicate zeros '0' ++ Nat.toDigits 10 n) = some n := by
  have hvalue : digitsFrom 0 (List.replicate zeros '0' ++ Nat.toDigits 10 n) = some n := by
    induction zeros with
    | zero => exact digitsFrom_toDigits n
    | succ zeros ih =>
      rw [List.replicate_succ, List.cons_append, digitsFrom, if_pos (by decide)]
      exact ih
  have hne : List.replicate zeros '0' ++ Nat.toDigits 10 n ≠ [] :=
    List.append_ne_nil_of_right_ne_nil _ Nat.toDigits_ne_nil
  rw [natural?_of_isDigit hne fun c hc => zeros_toDigits_isDigit hc, hvalue]

theorem unsigned?_toDigits (w : UInt64) : unsigned? (Nat.toDigits 10 w.toNat) = some w := by
  rw [unsigned?, natural?_toDigits, Option.bind_some, if_pos w.toNat_lt]
  simp

theorem signed?_toDigits {n : Nat} (h : n < UInt64.size / 2) :
    signed? (Nat.toDigits 10 n) = some (Int64.ofInt n) := by
  unfold signed?
  split
  · next rest he =>
    have hminus := toDigits_isDigit (n := n) (c := '-') (by rw [he]; simp)
    exact absurd hminus (by decide)
  · rw [natural?_toDigits, Option.bind_some, if_pos h]

end VolumeSearch.Text.Numeral
