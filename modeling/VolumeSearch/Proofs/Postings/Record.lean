import Mathlib.Tactic.Common
import VolumeSearch.Postings
import VolumeSearch.Proofs.Postings.Scan

namespace VolumeSearch.Postings

theorem encodeGaps_length (previous : FileId) (ids : List FileId) :
    ids.length ≤ (encodeGaps previous ids).length := by
  induction ids generalizing previous with
  | nil => simp
  | cons id rest ih =>
    have hid := List.length_pos_iff.mpr (Varint.encode_ne_nil (id - previous))
    have hrest := ih id
    simp only [encodeGaps, List.length_cons, List.length_append]
    omega

theorem encode_length (ids : List FileId) : ids.length < (encode ids).length := by
  have hcount := List.length_pos_iff.mpr (Varint.encode_ne_nil ids.length.toUInt64)
  have hgaps := encodeGaps_length 0 ids
  simp only [encode, List.length_append]
  omega

theorem encodeGaps_length_le (previous : FileId) (ids : List FileId) :
    (encodeGaps previous ids).length ≤ Varint.maxLength * ids.length := by
  induction ids generalizing previous with
  | nil => exact Nat.le_refl 0
  | cons id rest ih =>
    have hid := Varint.length_encode_le (id - previous)
    have hrest := ih id
    rw [encodeGaps, List.length_append, List.length_cons, Nat.mul_succ]
    omega

theorem encode_length_le (ids : List FileId) :
    (encode ids).length ≤ Varint.maxLength * (ids.length + 1) := by
  have hcount := Varint.length_encode_le ids.length.toUInt64
  have hgaps := encodeGaps_length_le 0 ids
  rw [encode, List.length_append, Nat.mul_succ]
  omega

/-- A record gives back the list it was made from, cut off at a positive cap. -/
theorem decode_encode (ids : List FileId) (cap : Option Nat) (hlen : ids.length < UInt64.size)
    (hasc : ids.Pairwise (· ≤ ·)) :
    decode (encode ids) cap = .ok (ids.take (capped ids.length cap)) := by
  have hgaps := scan_encodeGaps_append (zero_pairwise_le hasc) .ended
  rw [List.append_nil, List.append_nil] at hgaps
  rw [encode, decode_of_count hlen hgaps]
  exact upTo_eq_ok_iff.mpr (.inl ⟨capped_le _ _, rfl⟩)

/-- As many gaps as are known to be there tell where they end. -/
theorem encodeGaps_append_inj {previous : FileId} {ids ids' : List FileId} {r s : Bytes}
    (hlen : ids.length = ids'.length)
    (h : encodeGaps previous ids ++ r = encodeGaps previous ids' ++ s) : ids = ids' ∧ r = s := by
  induction ids generalizing previous ids' with
  | nil =>
    obtain rfl := List.length_eq_zero_iff.mp hlen.symm
    exact ⟨rfl, h⟩
  | cons id rest ih =>
    cases ids' with
    | nil => cases hlen
    | cons id' rest' =>
      rw [encodeGaps, encodeGaps, List.append_assoc, List.append_assoc] at h
      obtain ⟨hgap, hrest⟩ := Varint.encode_append_inj h
      obtain rfl : id = id' := by simpa using hgap
      obtain ⟨rfl, hend⟩ := ih (Nat.succ.inj hlen) hrest
      exact ⟨rfl, hend⟩

/-- A record begins with the number of its ids, so it tells where it ends. -/
theorem encode_append_inj {ids ids' : List FileId} {r s : Bytes} (hids : ids.length < UInt64.size)
    (hids' : ids'.length < UInt64.size) (h : encode ids ++ r = encode ids' ++ s) : ids = ids' ∧ r = s := by
  rw [encode, encode, List.append_assoc, List.append_assoc] at h
  obtain ⟨hcount, hgaps⟩ := Varint.encode_append_inj h
  have hlen : ids.length = ids'.length := by
    calc ids.length
      _ = ids.length.toUInt64.toNat := (UInt64.toNat_ofNat_of_lt' hids).symm
      _ = ids'.length.toUInt64.toNat := congrArg UInt64.toNat hcount
      _ = ids'.length := UInt64.toNat_ofNat_of_lt' hids'
  exact encodeGaps_append_inj hlen hgaps

/-- Records that lie one after the other are told apart, so the bytes of all of them determine each. -/
theorem flatten_map_encode_inj {lists lists' : List (List FileId)}
    (hsize : ∀ ids ∈ lists, ids.length < UInt64.size) (hsize' : ∀ ids ∈ lists', ids.length < UInt64.size)
    (h : (lists.map encode).flatten = (lists'.map encode).flatten) : lists = lists' := by
  have hsome (ids : List FileId) : encode ids ≠ [] :=
    List.ne_nil_of_length_pos (Nat.zero_lt_of_lt (encode_length ids))
  induction lists generalizing lists' with
  | nil =>
    cases lists' with
    | nil => rfl
    | cons ids' rest' => exact absurd (List.append_eq_nil_iff.mp h.symm).1 (hsome ids')
  | cons ids rest ih =>
    cases lists' with
    | nil => exact absurd (List.append_eq_nil_iff.mp h).1 (hsome ids)
    | cons ids' rest' =>
      rw [List.forall_mem_cons] at hsize hsize'
      rw [List.map_cons, List.flatten_cons, List.map_cons, List.flatten_cons] at h
      obtain ⟨rfl, hrest⟩ := encode_append_inj hsize.1 hsize'.1 h
      rw [ih hsize.2 hsize'.2 hrest]

end VolumeSearch.Postings

namespace VolumeSearch.Postings.Span

@[simp] theorem length_encode (s : Span) : s.encode.length = width := by
  simp [encode, width]

theorem length_flatMap_encode (ss : List Span) :
    (ss.flatMap encode).length = ss.length * width := by
  induction ss with
  | nil => simp
  | cons s rest ih =>
    rw [List.flatMap_cons, List.length_append, length_encode, ih, List.length_cons, Nat.succ_mul,
      Nat.add_comm]

theorem decode?_encode_append (s : Span) (rest : Bytes) : decode? (s.encode ++ rest) = some s := by
  have hoffset := Bytes.toNat_ofNat 8 s.offset.toNat s.offset.toNat_lt
  have hlength := Bytes.toNat_ofNat 4 s.length.toNat s.length.toNat_lt
  have htake : (s.encode ++ rest).take 8 = Bytes.ofNat 8 s.offset.toNat := by
    rw [encode, List.append_assoc, List.take_append_of_le_length (by simp), List.take_of_length_le (by simp)]
  have hdrop : ((s.encode ++ rest).drop 8).take 4 = Bytes.ofNat 4 s.length.toNat := by
    rw [encode, List.append_assoc, List.drop_left' (by simp),
      List.take_append_of_le_length (by simp), List.take_of_length_le (by simp)]
  have hwhole : ((s.encode ++ rest).take width).length = width := by simp
  simp only [decode?, hwhole, if_true, htake, hdrop, hoffset, hlength]
  simp

theorem decode?_drop (ss : List Span) (place : Nat) :
    decode? ((ss.flatMap encode).drop (place * width)) = ss[place]? := by
  induction ss generalizing place with
  | nil => simp [decode?, width]
  | cons s rest ih =>
    cases place with
    | zero => simp [decode?_encode_append]
    | succ place =>
      have hskip : (place + 1) * width = s.encode.length + place * width := by
        rw [length_encode, Nat.succ_mul, Nat.add_comm]
      rw [List.flatMap_cons, hskip, ← List.drop_drop, List.drop_left, List.getElem?_cons_succ, ih place]

/-- Ids count the records from one. -/
theorem find?_flatMap_encode (ss : List Span) (id : UInt32) :
    find? (ss.flatMap encode) id = if id = 0 then none else ss[id.toNat - 1]? := by
  rw [find?, decode?_drop]

end VolumeSearch.Postings.Span
