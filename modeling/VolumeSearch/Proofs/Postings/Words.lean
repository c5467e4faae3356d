import Mathlib.Algebra.BigOperators.Ring.Finset
import Mathlib.Tactic.Ring
import VolumeSearch.Proofs.Postings.Varint

/-! The bytes that are read as a word: at most ten, of which the last one alone lacks the high bit, and worth less
than `2 ^ 64`. They may be more than need be, since zeros at the end are worth nothing; what is written is the
shortest form. -/
namespace VolumeSearch.Postings.Varint

/-- What the first `used` bytes are worth: seven bits each, in a byte 128 times as much as in the one before. -/
def worth (bytes : Bytes) (used : Nat) : Nat :=
  ∑ k ∈ Finset.range used, (bytes.getD k 0).toNat % 128 * 128 ^ k

/-- The first `used` bytes are those of an integer: the last of them lacks the high bit, the others have it. -/
structure Ends (bytes : Bytes) (used : Nat) : Prop where
  pos : 1 ≤ used
  le_length : used ≤ bytes.length
  high : ∀ k, k + 1 < used → 0x80 ≤ bytes.getD k 0
  low : bytes.getD (used - 1) 0 < 0x80

theorem worth_cons (b : UInt8) (rest : Bytes) (used : Nat) :
    worth (b :: rest) (used + 1) = b.toNat % 128 + 128 * worth rest used := by
  rw [worth, Finset.sum_range_succ', worth, Finset.mul_sum, Nat.add_comm]
  congr 1
  · simp
  · apply Finset.sum_congr rfl
    intro k _
    rw [List.getD_cons_succ, pow_succ]
    ring

theorem worth_succ (bytes : Bytes) (used : Nat) :
    worth bytes (used + 1) = worth bytes used + (bytes.getD used 0).toNat % 128 * 128 ^ used :=
  Finset.sum_range_succ _ used

theorem worth_lt (bytes : Bytes) (used : Nat) : worth bytes used < 128 ^ used := by
  induction used with
  | zero => simp [worth]
  | succ used ih =>
    have hdigit : (bytes.getD used 0).toNat % 128 * 128 ^ used ≤ 127 * 128 ^ used :=
      Nat.mul_le_mul_right _ (by omega)
    rw [worth_succ, pow_succ]
    omega

/-- Ten bytes fit in a word if the last one has no more than the one bit that is left. -/
theorem worth_maxLength_lt {bytes : Bytes} (hlow : bytes.getD (maxLength - 1) 0 < 0x80) :
    worth bytes maxLength < 2 ^ 64 ↔ bytes.getD (maxLength - 1) 0 ≤ 1 := by
  have hbefore := worth_lt bytes 9
  have hall : worth bytes maxLength = worth bytes 9 + (bytes.getD 9 0).toNat % 128 * 128 ^ 9 := worth_succ bytes 9
  have hlast : bytes.getD (maxLength - 1) 0 = bytes.getD 9 0 := rfl
  rw [hlast, UInt8.lt_iff_toNat_lt] at hlow
  rw [hall, hlast, UInt8.le_iff_toNat_le]
  simp only [UInt8.reduceToNat] at hlow ⊢
  omega

theorem worth_lt_of_lt_maxLength (bytes : Bytes) {used : Nat} (h : used < maxLength) :
    worth bytes used < 2 ^ 64 := by
  have hpow : 128 ^ used ≤ 128 ^ 9 := Nat.pow_le_pow_right (by decide) (Nat.le_of_lt_succ h)
  have hworth := worth_lt bytes used
  omega

theorem ends_one (b : UInt8) (rest : Bytes) : Ends (b :: rest) 1 ↔ b < 0x80 := by
  constructor
  · exact fun h => h.low
  · exact fun h => ⟨Nat.le_refl 1, by simp, fun k hk => by omega, h⟩

theorem ends_cons {b : UInt8} {rest : Bytes} {used : Nat} (hused : 1 ≤ used) :
    Ends (b :: rest) (used + 1) ↔ 0x80 ≤ b ∧ Ends rest used := by
  obtain ⟨used, rfl⟩ := Nat.exists_eq_add_of_le' hused
  constructor
  · intro h
    refine ⟨h.high 0 (by omega), hused, Nat.le_of_succ_le_succ h.le_length, fun k hk => ?_, h.low⟩
    exact h.high (k + 1) (by omega)
  · rintro ⟨hb, h⟩
    refine ⟨by omega, Nat.succ_le_succ h.le_length, fun k hk => ?_, h.low⟩
    cases k with
    | zero => exact hb
    | succ k => exact h.high k (by omega)

private theorem shiftLeft_place (digit index : Nat) : digit <<< (7 * index) = digit * 128 ^ index := by
  rw [Nat.shiftLeft_eq, Nat.pow_mul]

/-- A byte ends an integer of which `index` bytes were read. -/
private theorem decodeFrom_cons_eq_last {index before value : Nat} {b : UInt8} {rest : Bytes}
    (hindex : index < maxLength) :
    decodeFrom index before (b :: rest) = some (value, index + 1) ↔
      b < 0x80 ∧ (index + 1 = maxLength → b ≤ 1) ∧ before + b.toNat % 128 * 128 ^ index = value := by
  rw [decodeFrom, shiftLeft_place]
  split
  · next hover =>
    have htenth : index + 1 = maxLength := by omega
    refine iff_of_false (fun h => Option.some_ne_none _ h.symm) fun h => ?_
    exact absurd hover.2 (UInt8.not_lt.mpr (h.2.1 htenth))
  · next hfits =>
    dsimp only
    split
    · next hb =>
      have htenth (h : index + 1 = maxLength) : b ≤ 1 := UInt8.not_lt.mp fun hgt => hfits ⟨by omega, hgt⟩
      rw [Option.some_inj, Prod.mk.injEq, and_iff_left rfl]
      exact ⟨fun h => ⟨hb, htenth, h⟩, fun h => h.2.2⟩
    · next hb =>
      refine iff_of_false (fun h => ?_) fun h => hb h.1
      split at h
      · cases h
      · exact absurd (lt_of_decodeFrom h) (Nat.lt_irrefl _)

/-- A byte that does not end the integer is before the tenth, and the others are read on from the next place. -/
private theorem decodeFrom_cons_eq_more {index before value used : Nat} {b : UInt8} {rest : Bytes}
    (hused : 1 ≤ used) :
    decodeFrom index before (b :: rest) = some (value, index + (used + 1)) ↔
      0x80 ≤ b ∧ index + 1 < maxLength ∧
        decodeFrom (index + 1) (before + b.toNat % 128 * 128 ^ index) rest = some (value, index + 1 + used) := by
  have hshift : index + (used + 1) = index + 1 + used := by omega
  rw [decodeFrom, shiftLeft_place, hshift]
  split
  · next hover =>
    refine iff_of_false (fun h => Option.some_ne_none _ h.symm) fun h => ?_
    omega
  · next hfits =>
    dsimp only
    split
    · next hb =>
      refine iff_of_false (fun h => ?_) fun h => absurd hb (UInt8.not_lt.mpr h.1)
      have := (Prod.mk.inj (Option.some.inj h)).2
      omega
    · next hb =>
      have hge : 0x80 ≤ b := UInt8.not_lt.mp hb
      split
      · next hroom =>
        refine iff_of_false (fun h => Option.some_ne_none _ h.symm) fun h => ?_
        exact absurd h.2.1 (Nat.not_lt.mpr hroom)
      · next hroom => exact ⟨fun h => ⟨hge, Nat.not_le.mp hroom, h⟩, fun h => h.2.2⟩

/-- Reading on after `index` bytes. Of the tenth byte the value is looked at as well. -/
theorem decodeFrom_eq_some_iff {index before value used : Nat} {bytes : Bytes} (hindex : index < maxLength) :
    decodeFrom index before bytes = some (value, index + used) ↔
      Ends bytes used ∧ index + used ≤ maxLength ∧
        (index + used = maxLength → bytes.getD (used - 1) 0 ≤ 1) ∧
        before + worth bytes used * 128 ^ index = value := by
  induction bytes generalizing index before used with
  | nil =>
    refine iff_of_false (fun h => Option.some_ne_none _ h.symm) fun h => ?_
    exact absurd (Nat.le_trans h.1.pos h.1.le_length) (Nat.not_succ_le_zero 0)
  | cons b rest ih =>
    -- one byte is the last one; of more the first has others after it, and those are read by induction
    match used with
    | 0 =>
      refine iff_of_false (fun h => ?_) fun h => absurd h.1.pos (Nat.not_succ_le_zero 0)
      exact absurd (lt_of_decodeFrom h) (Nat.lt_irrefl _)
    | 1 =>
      have hworth : worth (b :: rest) 1 = b.toNat % 128 := worth_cons b rest 0
      rw [decodeFrom_cons_eq_last hindex, ends_one, hworth, and_iff_right (Nat.succ_le_of_lt hindex)]
      rfl
    | used + 2 =>
      have hworth : before + b.toNat % 128 * 128 ^ index + worth rest (used + 1) * 128 ^ (index + 1) =
          before + worth (b :: rest) (used + 2) * 128 ^ index := by
        rw [worth_cons, pow_succ]
        ring
      have hshift : index + (used + 2) = index + 1 + (used + 1) := by omega
      rw [decodeFrom_cons_eq_more (Nat.succ_pos used), ends_cons (Nat.succ_pos used), and_assoc, ← hworth,
        hshift]
      refine and_congr_right fun _ => ?_
      constructor
      · rintro ⟨hnext, h⟩
        exact (ih hnext).mp h
      · intro h
        have hnext : index + 1 < maxLength := by omega
        exact ⟨hnext, (ih hnext).mpr h⟩

/-- A word has room for every integer of fewer than ten bytes, and for one of ten whose last byte has only the bit
that is left. -/
theorem Ends.worth_lt_iff {bytes : Bytes} {used : Nat} (h : Ends bytes used) (hle : used ≤ maxLength) :
    worth bytes used < 2 ^ 64 ↔ (used = maxLength → bytes.getD (used - 1) 0 ≤ 1) := by
  rcases Nat.lt_or_eq_of_le hle with hlt | rfl
  · exact iff_of_true (worth_lt_of_lt_maxLength bytes hlt) fun he => absurd he (Nat.ne_of_lt hlt)
  · exact (worth_maxLength_lt h.low).trans ⟨fun hb _ => hb, fun hb => hb rfl⟩

theorem decode_eq_some_iff {bytes : Bytes} {value : UInt64} {used : Nat} :
    decode bytes = some (value, used) ↔
      Ends bytes used ∧ used ≤ maxLength ∧ worth bytes used < 2 ^ 64 ∧ worth bytes used = value.toNat := by
  have hread (n : Nat) : decodeFrom 0 0 bytes = some (n, used) ↔ Ends bytes used ∧ used ≤ maxLength ∧
      (used = maxLength → bytes.getD (used - 1) 0 ≤ 1) ∧ worth bytes used = n := by
    have h := @decodeFrom_eq_some_iff 0 0 n used bytes (by decide)
    rwa [Nat.zero_add, Nat.zero_add, Nat.pow_zero, Nat.mul_one] at h
  constructor
  · intro h
    obtain ⟨⟨n, used'⟩, hfrom, hpair⟩ := Option.map_eq_some_iff.mp h
    obtain ⟨rfl, rfl⟩ := Prod.mk.inj hpair
    obtain ⟨hends, hle, htenth, rfl⟩ := (hread n).mp hfrom
    have hlt := (hends.worth_lt_iff hle).mpr htenth
    exact ⟨hends, hle, hlt, (UInt64.toNat_ofNat_of_lt' hlt).symm⟩
  · rintro ⟨hends, hle, hlt, hvalue⟩
    have hfrom := (hread _).mpr ⟨hends, hle, (hends.worth_lt_iff hle).mp hlt, hvalue⟩
    rw [decode, hfrom, Option.map_some]
    exact congrArg (fun word => some (word, used)) value.ofNat_toNat

private theorem encodeWithin_of_lt (room : Nat) {value : Nat} (h : value < 0x80) :
    encodeWithin (room + 1) value = [value.toUInt8] := if_pos h

private theorem encodeWithin_of_not_lt (room : Nat) {value : Nat} (h : ¬ value < 0x80) :
    encodeWithin (room + 1) value = (value % 0x80 + 0x80).toUInt8 :: encodeWithin room (value / 0x80) := if_neg h

/-- Room for a byte more makes no difference to a value that fits. -/
private theorem encodeWithin_succ {room value : Nat} (hpos : 0 < room) (h : value < 128 ^ room) :
    encodeWithin (room + 1) value = encodeWithin room value := by
  induction room generalizing value with
  | zero => omega
  | succ room ih =>
    by_cases hlast : value < 0x80
    · rw [encodeWithin_of_lt _ hlast, encodeWithin_of_lt _ hlast]
    · have hroom : 0 < room := by
        rcases Nat.eq_zero_or_pos room with rfl | hroom
        · exact absurd h hlast
        · exact hroom
      have hrest : value / 0x80 < 128 ^ room := by
        rw [pow_succ] at h
        omega
      rw [encodeWithin_of_not_lt _ hlast, encodeWithin_of_not_lt _ hlast, ih hroom hrest]

private theorem toNat_or_high (b : UInt8) : (b ||| 0x80).toNat = b.toNat % 0x80 + 0x80 := by
  have hall : ∀ n < 256, n ||| 0x80 = n % 0x80 + 0x80 := by decide +kernel
  exact hall b.toNat b.toNat_lt

theorem toNat_shiftRight_seven (value : UInt64) : (value >>> 7).toNat = value.toNat / 0x80 := by
  rw [UInt64.toNat_shiftRight]
  exact Nat.shiftRight_eq_div_pow value.toNat 7

/-- The bytes of a word are its low seven bits with the high bit on, then those of the other bits, until one byte
is enough. So the room that `encode` gives never runs out. -/
theorem encode_eq (value : UInt64) : encode value =
    if value < 0x80 then [value.toUInt8] else (value.toUInt8 ||| 0x80) :: encode (value >>> 7) := by
  by_cases hlast : value.toNat < 0x80
  · rw [if_pos (UInt64.lt_iff_toNat_lt.mpr hlast)]
    exact encodeWithin_of_lt _ hlast
  · have hbyte : (value.toNat % 0x80 + 0x80).toUInt8 = value.toUInt8 ||| 0x80 := by
      rw [← UInt8.toNat_inj, toNat_or_high, UInt64.toNat_toUInt8]
      simp only [Nat.toUInt8, UInt8.toNat_ofNat']
      omega
    have hrest : value.toNat / 0x80 < 128 ^ 9 := by
      have := value.toNat_lt
      omega
    have hroom : encodeWithin maxLength (value.toNat / 0x80) = encodeWithin 9 (value.toNat / 0x80) :=
      encodeWithin_succ (by decide) hrest
    rw [if_neg fun h => hlast (UInt64.lt_iff_toNat_lt.mp h), encode, encode, toNat_shiftRight_seven, hroom, ← hbyte]
    exact encodeWithin_of_not_lt 9 hlast

theorem length_encode_le_of_lt {value : UInt64} {used : Nat} (hpos : 1 ≤ used)
    (h : value.toNat < 128 ^ used) : (encode value).length ≤ used := by
  induction used, hpos using Nat.le_induction generalizing value with
  | base =>
    have hlast : value < 0x80 := UInt64.lt_iff_toNat_lt.mpr h
    rw [encode_eq, if_pos hlast]
    exact Nat.le_refl 1
  | succ used hpos ih =>
    rw [encode_eq]
    split
    · exact Nat.succ_le_succ (Nat.zero_le used)
    · have hrest : (value >>> 7).toNat < 128 ^ used := by
        rw [toNat_shiftRight_seven]
        rw [pow_succ] at h
        omega
      exact Nat.succ_le_succ (ih hrest)

/-- Reads on after `index` bytes, whose bits are in the word: the low seven bits of a byte are shifted to their
place and put in. -/
def decodeWordFrom (index : Nat) (word : UInt64) : Bytes → Option (UInt64 × Nat)
  | [] => none
  | b :: rest =>
    if index = maxLength - 1 ∧ 1 < b then none
    else
      let word := word ||| (b &&& 0x7f).toUInt64 <<< (7 * index).toUInt64
      if b &&& 0x80 = 0 then some (word, index + 1)
      else if maxLength ≤ index + 1 then none
      else decodeWordFrom (index + 1) word rest

/-- The high bit tells whether a byte is the last one. -/
private theorem and_high_eq_zero (b : UInt8) : b &&& 0x80 = 0 ↔ b < 0x80 := by
  have hall : ∀ n < 256, n &&& 0x80 = 0 ↔ n < 0x80 := by decide +kernel
  rw [← UInt8.toNat_inj, UInt8.lt_iff_toNat_lt]
  exact hall b.toNat b.toNat_lt

/-- Bits that are put in above all others are added, and none of them is lost. -/
theorem toNat_or_shiftLeft {index : Nat} {word : UInt64} {b : UInt8} (hindex : index < maxLength)
    (hword : word.toNat < 2 ^ (7 * index)) (hfits : ¬ (index = maxLength - 1 ∧ 1 < b)) :
    (word ||| (b &&& 0x7f).toUInt64 <<< (7 * index).toUInt64).toNat =
      word.toNat + (b.toNat % 0x80) <<< (7 * index) := by
  have hmax : maxLength = 10 := rfl
  have hplace : (7 * index).toUInt64.toNat % 64 = 7 * index := by
    have hlt : 7 * index < 2 ^ 64 := by omega
    rw [Nat.toUInt64, UInt64.toNat_ofNat_of_lt' hlt]
    omega
  have hlow : (b &&& 0x7f).toNat = b.toNat % 0x80 := by
    rw [UInt8.toNat_and]
    exact Nat.and_two_pow_sub_one_eq_mod b.toNat 7
  have hroom : b.toNat % 0x80 * 2 ^ (7 * index) < 2 ^ 64 := by
    by_cases htenth : index = maxLength - 1
    · have hb : b.toNat ≤ 1 := UInt8.le_iff_toNat_le.mp (UInt8.not_lt.mp fun hgt => hfits ⟨htenth, hgt⟩)
      rw [htenth]
      simp only [hmax, Nat.reduceSub, Nat.reduceMul, Nat.reducePow]
      omega
    · have hpow : 2 ^ (7 * index) ≤ 2 ^ (7 * 8) := Nat.pow_le_pow_right (by decide) (by omega)
      have hdigit : b.toNat % 0x80 * 2 ^ (7 * index) ≤ 127 * 2 ^ (7 * 8) :=
        Nat.mul_le_mul (by omega) hpow
      omega
  rw [UInt64.toNat_or, UInt64.toNat_shiftLeft, UInt8.toNat_toUInt64, hlow, hplace, Nat.shiftLeft_eq,
    Nat.mod_eq_of_lt hroom, Nat.or_comm, Nat.mul_comm, ← Nat.two_pow_add_eq_or_of_lt hword, Nat.add_comm]

/-- The word holds exactly the sum of what the bytes are worth. -/
theorem decodeWordFrom_eq {index : Nat} {word : UInt64} {bytes : Bytes} (hindex : index < maxLength)
    (hword : word.toNat < 2 ^ (7 * index)) :
    decodeWordFrom index word bytes =
      (decodeFrom index word.toNat bytes).map fun (value, used) => (value.toUInt64, used) := by
  induction bytes generalizing index word with
  | nil => rfl
  | cons b rest ih =>
    rw [decodeWordFrom, decodeFrom]
    split
    · rfl
    · next hfits =>
      have hput := toNat_or_shiftLeft hindex hword hfits
      rw [← hput]
      generalize word ||| (b &&& 0x7f).toUInt64 <<< (7 * index).toUInt64 = next at hput
      simp only [and_high_eq_zero]
      split
      · exact congrArg (fun word => some (word, index + 1)) next.ofNat_toNat.symm
      · split
        · rfl
        · next hroom =>
          apply ih (Nat.not_le.mp hroom)
          have hdigit : (b.toNat % 0x80) * 2 ^ (7 * index) ≤ 127 * 2 ^ (7 * index) :=
            Nat.mul_le_mul_right _ (by omega)
          rw [hput, Nat.shiftLeft_eq, Nat.mul_succ, Nat.pow_add]
          omega

theorem decodeWordFrom_zero (bytes : Bytes) : decodeWordFrom 0 0 bytes = decode bytes :=
  decodeWordFrom_eq (by decide) (by decide)

/-- Of the bytes in front, reading takes just those that are at most ten, end an integer, and are worth less than
`2 ^ 64`; it gives what they are worth, also in a machine word that takes them in one by one. What is written for a
word is read back whatever follows it, and nothing shorter is read as that word. -/
theorem decode_accepts_words :
    (∀ (bytes : Bytes) (value : UInt64) (used : Nat), decode bytes = some (value, used) ↔
      (1 ≤ used ∧ used ≤ 10) ∧ used ≤ bytes.length ∧
        ((∀ k, k + 1 < used → 0x80 ≤ bytes.getD k 0) ∧ bytes.getD (used - 1) 0 < 0x80) ∧
        worth bytes used < 2 ^ 64 ∧ worth bytes used = value.toNat) ∧
    (∀ bytes : Bytes, decodeWordFrom 0 0 bytes = decode bytes) ∧
    (∀ (value : UInt64) (rest : Bytes),
      decode (encode value ++ rest) = some (value, (encode value).length)) ∧
    (∀ (value : UInt64) (bytes : Bytes) (used : Nat),
      decode bytes = some (value, used) → (encode value).length ≤ used) := by
  refine ⟨fun bytes value used => ?_, decodeWordFrom_zero, decode_encode_append, fun value bytes used h => ?_⟩
  · rw [decode_eq_some_iff]
    constructor
    · exact fun ⟨hends, hle, hworth⟩ =>
        ⟨⟨hends.pos, hle⟩, hends.le_length, ⟨hends.high, hends.low⟩, hworth⟩
    · exact fun ⟨⟨hpos, hle⟩, hlength, ⟨hhigh, hlow⟩, hworth⟩ =>
        ⟨⟨hpos, hlength, hhigh, hlow⟩, hle, hworth⟩
  · obtain ⟨hends, -, -, hvalue⟩ := decode_eq_some_iff.mp h
    exact length_encode_le_of_lt hends.pos (hvalue ▸ worth_lt bytes used)

/-- Ten bytes that are all needed, and three of which one would do. -/
theorem decode_largest_and_padded :
    decode [0xff, 0xff, 0xff, 0xff, 0xff, 0xff, 0xff, 0xff, 0xff, 0x01] = some (0xffffffffffffffff, 10) ∧
      (encode 0xffffffffffffffff).length ≤ 10 ∧
      decode [0x85, 0x80, 0x00, 0x07] = some (5, 3) ∧ (encode 5).length ≤ 3 := by
  have hlargest : decode [0xff, 0xff, 0xff, 0xff, 0xff, 0xff, 0xff, 0xff, 0xff, 0x01] =
      some (0xffffffffffffffff, 10) := by decide
  have hpadded : decode [0x85, 0x80, 0x00, 0x07] = some (5, 3) := by decide
  obtain ⟨-, -, -, hshortest⟩ := decode_accepts_words
  exact ⟨hlargest, hshortest _ _ _ hlargest, hpadded, hshortest _ _ _ hpadded⟩

end VolumeSearch.Postings.Varint
