import Mathlib.Tactic.Common
import VolumeSearch.Postings
import VolumeSearch.Proofs.Postings.Varint

/-! What there is to read in the gaps of a record, whatever its bytes are. The count and the cap only say
how far a reading goes, so every reading of the same bytes is a part of one scan. -/
namespace VolumeSearch.Postings

/-- A scan of gaps up to where it has to stop: the ids that come out, and the fault that stops it unless
the bytes end after an id. -/
inductive Scan : FileId → Bytes → List FileId → Option DecodeError → Prop where
  | ended {previous : FileId} : Scan previous [] [] none
  | badGap {previous : FileId} {bytes : Bytes} (hne : bytes ≠ []) (hgap : Varint.decode bytes = none) :
      Scan previous bytes [] (some .badGap)
  | overflow {previous gap : FileId} {bytes : Bytes} {used : Nat}
      (hgap : Varint.decode bytes = some (gap, used)) (hsum : UInt64.size ≤ previous.toNat + gap.toNat) :
      Scan previous bytes [] (some .gapOverflow)
  | step {previous gap : FileId} {bytes : Bytes} {used : Nat} {ids : List FileId} {fault : Option DecodeError}
      (hgap : Varint.decode bytes = some (gap, used)) (hsum : previous.toNat + gap.toNat < UInt64.size)
      (hrest : Scan (previous + gap) (bytes.drop used) ids fault) :
      Scan previous bytes ((previous + gap) :: ids) fault

/-- Every gap takes a byte, so a scan comes to its end. -/
theorem exists_scan (previous : FileId) (bytes : Bytes) : ∃ ids fault, Scan previous bytes ids fault := by
  induction hlen : bytes.length using Nat.strongRecOn generalizing previous bytes with
  | ind n ih =>
    by_cases hne : bytes = []
    · exact ⟨[], none, hne ▸ .ended⟩
    cases hgap : Varint.decode bytes with
    | none => exact ⟨[], some .badGap, .badGap hne hgap⟩
    | some found =>
      obtain ⟨gap, used⟩ := found
      by_cases hsum : UInt64.size ≤ previous.toNat + gap.toNat
      · exact ⟨[], some .gapOverflow, .overflow hgap hsum⟩
      · have hused := Varint.decode_used_pos hgap
        have hpos := List.length_pos_iff.mpr hne
        have hshorter : (bytes.drop used).length < n := by
          rw [List.length_drop]
          omega
        obtain ⟨ids, fault, hrest⟩ := ih _ hshorter (previous + gap) (bytes.drop used) rfl
        exact ⟨(previous + gap) :: ids, fault, .step hgap (Nat.not_le.mp hsum) hrest⟩

/-- At most `limit` of the ids that a scan has; its fault only shows to a reading that goes beyond them. -/
def upTo (limit : Nat) (ids : List FileId) (fault : Option DecodeError) : Except DecodeError (List FileId) :=
  if limit ≤ ids.length then .ok (ids.take limit) else fault.elim (.ok ids) .error

theorem upTo_eq_ok_iff {limit : Nat} {ids out : List FileId} {fault : Option DecodeError} :
    upTo limit ids fault = .ok out ↔
      limit ≤ ids.length ∧ out = ids.take limit ∨ ids.length < limit ∧ fault = none ∧ out = ids := by
  unfold upTo
  split
  · next h => simp [h, Nat.not_lt.mpr h, eq_comm]
  · next h => cases fault <;> simp [h, Nat.not_le.mp h, eq_comm]

theorem upTo_eq_error_iff {limit : Nat} {ids : List FileId} {fault : Option DecodeError} {e : DecodeError} :
    upTo limit ids fault = .error e ↔ ids.length < limit ∧ fault = some e := by
  unfold upTo
  split
  · next h => simp [Nat.not_lt.mpr h]
  · next h => cases fault <;> simp [Nat.not_le.mp h]

section
variable {limit c : Nat} {ids out : List FileId} {fault : Option DecodeError} {e : DecodeError}

theorem length_le_of_upTo (h : upTo limit ids fault = .ok out) : out.length ≤ limit := by
  obtain ⟨-, rfl⟩ | ⟨hfew, -, rfl⟩ := upTo_eq_ok_iff.mp h
  · exact List.length_take_le _ _
  · exact Nat.le_of_lt hfew

/-- A tighter limit leaves the first ids. -/
theorem upTo_min_of_ok (h : upTo limit ids fault = .ok out) (c : Nat) :
    upTo (min limit c) ids fault = .ok (out.take c) := by
  rw [upTo_eq_ok_iff]
  obtain ⟨hall, rfl⟩ | ⟨hfew, hend, rfl⟩ := upTo_eq_ok_iff.mp h
  · exact .inl ⟨Nat.le_trans (Nat.min_le_left _ _) hall, by rw [List.take_take, Nat.min_comm]⟩
  · by_cases hcap : c ≤ out.length
    · have hmin : min limit c = c := Nat.min_eq_right (Nat.le_trans hcap (Nat.le_of_lt hfew))
      exact .inl ⟨by rwa [hmin], by rw [hmin]⟩
    · exact .inr ⟨by omega, hend, List.take_of_length_le (by omega)⟩

theorem upTo_of_min_error (h : upTo (min limit c) ids fault = .error e) : upTo limit ids fault = .error e := by
  obtain ⟨hfew, hfault⟩ := upTo_eq_error_iff.mp h
  exact upTo_eq_error_iff.mpr ⟨Nat.lt_of_lt_of_le hfew (Nat.min_le_left _ _), hfault⟩

/-- Where a tighter limit is not reached, it makes no difference. -/
theorem upTo_of_min_ok (h : upTo (min limit c) ids fault = .ok out) (hless : out.length < c) :
    upTo limit ids fault = .ok out := by
  rw [upTo_eq_ok_iff]
  obtain ⟨hall, rfl⟩ | ⟨hfew, hend, rfl⟩ := upTo_eq_ok_iff.mp h
  · rw [List.length_take, Nat.min_eq_left hall] at hless
    have hlimit : min limit c = limit := by omega
    exact .inl ⟨by rwa [hlimit] at hall, by rw [hlimit]⟩
  · exact .inr ⟨by omega, hend, rfl⟩

end

private theorem decodeGaps_step (limit : Nat) (previous : FileId) (bytes : Bytes)
    (h : bytes ≠ []) :
    decodeGaps (limit + 1) previous bytes =
      match Varint.decode bytes with
      | none => .error .badGap
      | some (gap, used) =>
        if UInt64.size ≤ previous.toNat + gap.toNat then .error .gapOverflow
        else (decodeGaps limit (previous + gap) (bytes.drop used)).map ((previous + gap) :: ·) := by
  cases bytes with
  | nil => exact absurd rfl h
  | cons b rest =>
    rw [decodeGaps]
    · cases Varint.decode (b :: rest) with
      | none => rfl
      | some found =>
        obtain ⟨gap, used⟩ := found
        simp only
        split
        · rfl
        · cases decodeGaps limit (previous + gap) (List.drop used (b :: rest)) <;> rfl
    · exact fun he => h he

variable {previous : FileId} {bytes : Bytes} {ids : List FileId} {fault : Option DecodeError}

/-- A reading of gaps is the part of their scan that its limit leaves. -/
theorem Scan.decodeGaps_eq (h : Scan previous bytes ids fault) (limit : Nat) :
    decodeGaps limit previous bytes = upTo limit ids fault := by
  -- a limit of zero stops before any fault, so each case asks for the limit first
  induction h generalizing limit with
  | ended => cases limit <;> rfl
  | badGap hne hgap =>
    cases limit with
    | zero => simp [decodeGaps, upTo]
    | succ limit =>
      rw [decodeGaps_step _ _ _ hne, hgap]
      rfl
  | overflow hgap hsum =>
    cases limit with
    | zero => simp [decodeGaps, upTo]
    | succ limit =>
      rw [decodeGaps_step _ _ _ (Varint.ne_nil_of_decode hgap), hgap]
      simp only [if_pos hsum]
      rfl
  | @step previous gap bytes used ids fault hgap hsum hrest ih =>
    cases limit with
    | zero => simp [decodeGaps, upTo]
    | succ limit =>
      rw [decodeGaps_step _ _ _ (Varint.ne_nil_of_decode hgap), hgap]
      simp only [if_neg (Nat.not_le.mpr hsum), ih]
      unfold upTo
      simp only [List.length_cons, Nat.add_le_add_iff_right, List.take_succ_cons]
      split
      · rfl
      · cases fault <;> rfl

/-- Each id is its predecessor with a gap added, so the ids do not descend. -/
theorem Scan.ascending (h : Scan previous bytes ids fault) : (previous :: ids).Pairwise (· ≤ ·) := by
  induction h with
  | ended | badGap | overflow => exact List.pairwise_singleton _ _
  | @step previous gap bytes used ids fault hgap hsum hrest ih =>
    have hstep : previous ≤ previous + gap := by
      rw [UInt64.le_iff_toNat_le, UInt64.toNat_add, Nat.mod_eq_of_lt hsum]
      exact Nat.le_add_right _ _
    refine List.pairwise_cons.mpr ⟨fun id hid => ?_, ih⟩
    rcases List.mem_cons.mp hid with rfl | hid
    · exact hstep
    · exact UInt64.le_trans hstep ((List.pairwise_cons.mp ih).1 id hid)

/-- The gaps of an ascending list are scanned as that list, and then what follows them. -/
theorem scan_encodeGaps_append {tail : Bytes} {more : List FileId}
    (hasc : (previous :: ids).Pairwise (· ≤ ·)) (h : Scan (ids.getLastD previous) tail more fault) :
    Scan previous (encodeGaps previous ids ++ tail) (ids ++ more) fault := by
  induction ids generalizing previous with
  | nil => exact h
  | cons id ids ih =>
    obtain ⟨hle, hasc⟩ := List.pairwise_cons.mp hasc
    have hid : previous.toNat ≤ id.toNat := UInt64.le_iff_toNat_le.mp (hle id (by simp))
    have hgap : (id - previous).toNat = id.toNat - previous.toNat :=
      UInt64.toNat_sub_of_le _ _ (hle id (by simp))
    have hback : previous + (id - previous) = id := by
      apply UInt64.toNat_inj.mp
      rw [UInt64.toNat_add, hgap, Nat.add_sub_cancel' hid, Nat.mod_eq_of_lt id.toNat_lt]
    have hsum : previous.toNat + (id - previous).toNat < UInt64.size := by
      rw [hgap, Nat.add_sub_cancel' hid]
      exact id.toNat_lt
    have hread := Varint.decode_encode_append (id - previous) (encodeGaps id ids ++ tail)
    have hrest : Scan (previous + (id - previous))
        ((Varint.encode (id - previous) ++ (encodeGaps id ids ++ tail)).drop (Varint.encode (id - previous)).length)
        (ids ++ more) fault := by
      rw [List.drop_left, hback]
      exact ih hasc (by rwa [List.getLastD_cons] at h)
    have hscan := Scan.step hread hsum hrest
    rwa [hback, ← List.append_assoc] at hscan

theorem capped_le (count : Nat) (cap : Option Nat) : capped count cap ≤ count := by
  unfold capped
  split
  · exact Nat.le_refl _
  · exact Nat.le_refl _
  · exact Nat.min_le_left _ _

theorem zero_pairwise_le (hasc : ids.Pairwise (· ≤ ·)) : ((0 : FileId) :: ids).Pairwise (· ≤ ·) :=
  List.pairwise_cons.mpr ⟨fun _ _ => UInt64.le_iff_toNat_le.mpr (Nat.zero_le _), hasc⟩

/-- The count and the cap limit the reading of a record, and the rest is a scan. -/
theorem decode_of_scan {count : UInt64} {used : Nat} (hcount : Varint.decode bytes = some (count, used))
    (h : Scan 0 (bytes.drop used) ids fault) (cap : Option Nat) :
    decode bytes cap = upTo (capped count.toNat cap) ids fault := by
  simp only [decode, hcount]
  exact h.decodeGaps_eq _

/-- A record that counts so many ids, whatever there is to read after the count. -/
theorem decode_of_count {n : Nat} (hn : n < UInt64.size) (h : Scan 0 bytes ids fault) (cap : Option Nat) :
    decode (Varint.encode n.toUInt64 ++ bytes) cap = upTo (capped n cap) ids fault := by
  have hword : n.toUInt64.toNat = n := UInt64.toNat_ofNat_of_lt' hn
  have hscan : Scan 0 ((Varint.encode n.toUInt64 ++ bytes).drop (Varint.encode n.toUInt64).length) ids fault := by
    rwa [List.drop_left]
  rw [decode_of_scan (Varint.decode_encode_append n.toUInt64 bytes) hscan, hword]

end VolumeSearch.Postings
