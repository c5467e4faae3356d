import Mathlib.Tactic.Common
import VolumeSearch.Postings

namespace VolumeSearch.Postings.Varint

theorem encodeWithin_ne_nil (room value : Nat) (h : 0 < room) : encodeWithin room value ≠ [] := by
  cases room with
  | zero => omega
  | succ room =>
    rw [encodeWithin]
    split <;> simp

theorem encode_ne_nil (value : UInt64) : encode value ≠ [] :=
  encodeWithin_ne_nil maxLength value.toNat (by decide)

theorem length_encodeWithin_le (room value : Nat) : (encodeWithin room value).length ≤ room := by
  induction room generalizing value with
  | zero => exact Nat.le_refl 0
  | succ room ih =>
    rw [encodeWithin]
    split
    · simp
    · rw [List.length_cons]
      exact Nat.succ_le_succ (ih _)

theorem length_encode_le (value : UInt64) : (encode value).length ≤ maxLength :=
  length_encodeWithin_le maxLength value.toNat

private theorem toNat_toUInt8 {n : Nat} (h : n < 256) : n.toUInt8.toNat = n := by
  simp [Nat.mod_eq_of_lt h]

/-- A value in its place is its low seven bits in that place and the others in the next. -/
private theorem shiftLeft_split (value place : Nat) :
    (value % 0x80) <<< place + (value / 0x80) <<< (place + 7) = value <<< place := by
  have hnext : (value / 0x80) <<< (place + 7) = (0x80 * (value / 0x80)) <<< place := by
    rw [Nat.add_comm, Nat.shiftLeft_add]
    congr 1
    omega
  rw [hnext, Nat.shiftLeft_eq, Nat.shiftLeft_eq, Nat.shiftLeft_eq, ← Nat.add_mul, Nat.mod_add_div]

/-- After `index` bytes there is room for the rest of a word, which has `64 - 7 * index` bits. -/
theorem decodeFrom_encodeWithin (room index before value : Nat) (rest : Bytes)
    (hroom : index + room = maxLength) (hpos : 0 < room) (hv : value < 1 <<< (64 - 7 * index)) :
    decodeFrom index before (encodeWithin room value ++ rest) =
      some (before + value <<< (7 * index), index + (encodeWithin room value).length) := by
  induction room generalizing index before value with
  | zero => omega
  | succ room ih =>
    have hm : maxLength = 10 := rfl
    rw [encodeWithin]
    by_cases hs : value < 0x80
    · have hb := toNat_toUInt8 (show value < 256 by omega)
      have hlast : ¬ (index = maxLength - 1 ∧ 1 < value.toUInt8) := by
        rintro ⟨hi, h1⟩
        rw [UInt8.lt_iff_toNat_lt, hb] at h1
        have hexp : 64 - 7 * index = 1 := by omega
        rw [hexp] at hv
        have h1' : 1 < value := h1
        omega
      have hend : value.toUInt8 < 0x80 := by
        rw [UInt8.lt_iff_toNat_lt, hb]
        exact hs
      simp [hs, decodeFrom, hlast, hend, Nat.mod_eq_of_lt (show value < 256 by omega),
        Nat.mod_eq_of_lt hs]
    · have hb := toNat_toUInt8 (show value % 0x80 + 0x80 < 256 by omega)
      -- the tenth byte holds one bit, so a longer word ends before it
      have hi : index ≤ 8 := by
        by_contra h
        have he : 64 - 7 * index = 1 := by omega
        rw [he] at hv
        omega
      have hmore : ¬ (value % 0x80 + 0x80).toUInt8 < 0x80 := by
        rw [UInt8.lt_iff_toNat_lt, hb]
        simp
      have hv' : value / 0x80 < 1 <<< (64 - 7 * (index + 1)) := by
        have hp : 1 <<< (64 - 7 * index) = 0x80 * 1 <<< (64 - 7 * (index + 1)) := by
          rw [show 64 - 7 * index = 64 - 7 * (index + 1) + 7 by omega, Nat.shiftLeft_add]
          omega
        omega
      simp only [hs, if_false, List.cons_append, decodeFrom, hb, hmore]
      rw [if_neg (by omega), if_neg (by omega), ih (index + 1) _ _ (by omega) (by omega) hv']
      simp only [List.length_cons, Option.some.injEq, Prod.mk.injEq]
      refine ⟨?_, by omega⟩
      rw [show (value % 0x80 + 0x80) % 0x80 = value % 0x80 by omega, Nat.mul_succ, Nat.add_assoc,
        shiftLeft_split]

/-- A word is read back from its bytes, and exactly these are used. -/
theorem decode_encode_append (value : UInt64) (rest : Bytes) :
    decode (encode value ++ rest) = some (value, (encode value).length) := by
  have h := decodeFrom_encodeWithin maxLength 0 0 value.toNat rest rfl (by decide) value.toNat_lt
  rw [Nat.mul_zero, Nat.shiftLeft_zero, Nat.zero_add, Nat.zero_add] at h
  simp only [decode, encode, h, Option.map_some]
  simp

/-- The bytes of a word tell where they end, so they are told apart from what follows them. -/
theorem encode_append_inj {a b : UInt64} {r s : Bytes} (h : encode a ++ r = encode b ++ s) :
    a = b ∧ r = s := by
  have hread := decode_encode_append a r
  rw [h, decode_encode_append b s] at hread
  obtain ⟨rfl, -⟩ := Prod.mk.inj (Option.some.inj hread)
  exact ⟨rfl, List.append_cancel_left h⟩

theorem lt_of_decodeFrom {index before value used : Nat} {bytes : Bytes}
    (h : decodeFrom index before bytes = some (value, used)) : index < used := by
  induction bytes generalizing index before with
  | nil => cases h
  | cons b rest ih =>
    simp only [decodeFrom] at h
    split at h
    · cases h
    · split at h
      · obtain ⟨-, rfl⟩ := Prod.mk.inj (Option.some.inj h)
        exact Nat.lt_succ_self index
      · split at h
        · cases h
        · exact Nat.lt_trans (Nat.lt_succ_self index) (ih h)

theorem decode_used_pos {bytes : Bytes} {value : UInt64} {used : Nat}
    (h : decode bytes = some (value, used)) : 0 < used := by
  obtain ⟨⟨n, used'⟩, hfrom, hpair⟩ := Option.map_eq_some_iff.mp h
  obtain ⟨-, rfl⟩ := Prod.mk.inj hpair
  exact lt_of_decodeFrom hfrom

theorem ne_nil_of_decode {bytes : Bytes} {found : UInt64 × Nat} (h : decode bytes = some found) :
    bytes ≠ [] := by
  rintro rfl
  cases h

/-- Only a byte without its high bit ends an integer. -/
private theorem decodeFrom_eq_none (index before : Nat) {bytes : Bytes} (h : ∀ b ∈ bytes, ¬ b < 0x80) :
    decodeFrom index before bytes = none := by
  induction bytes generalizing index before with
  | nil => rfl
  | cons b rest ih =>
    have hrest := fun before => ih (index + 1) before fun c hc => h c (List.mem_cons_of_mem b hc)
    simp only [decodeFrom, if_neg (h b List.mem_cons_self), hrest]
    split_ifs <;> rfl

/-- All bytes of an integer but its last have the high bit. -/
private theorem high_of_cut {room value : Nat} {cut : Bytes} (hcut : cut <+: encodeWithin room value)
    (hne : cut ≠ encodeWithin room value) : ∀ b ∈ cut, ¬ b < 0x80 := by
  induction room generalizing value cut with
  | zero => exact absurd (List.prefix_nil.mp hcut) hne
  | succ room ih =>
    cases cut with
    | nil => exact fun b hb => absurd hb List.not_mem_nil
    | cons b cut =>
      rw [encodeWithin] at hcut hne
      split at hcut
      · next hlast =>
        rw [if_pos hlast] at hne
        obtain ⟨rfl, hnil⟩ := List.cons_prefix_cons.mp hcut
        exact absurd (congrArg _ (List.prefix_nil.mp hnil)) hne
      · next hmore =>
        rw [if_neg hmore] at hne
        obtain ⟨rfl, hrest⟩ := List.cons_prefix_cons.mp hcut
        have hb := toNat_toUInt8 (show value % 0x80 + 0x80 < 256 by omega)
        refine List.forall_mem_cons.mpr ⟨?_, ih hrest fun he => hne (congrArg _ he)⟩
        rw [UInt8.lt_iff_toNat_lt, hb]
        simp

/-- The bytes of an integer that are cut short hold no integer. -/
theorem decode_eq_none_of_cut {value : UInt64} {cut : Bytes} (hcut : cut <+: encode value)
    (hne : cut ≠ encode value) : decode cut = none := by
  rw [decode, decodeFrom_eq_none 0 0 (high_of_cut hcut hne)]
  rfl

end VolumeSearch.Postings.Varint
