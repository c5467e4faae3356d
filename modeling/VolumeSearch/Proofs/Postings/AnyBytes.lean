import Mathlib.Tactic.Common
import VolumeSearch.Proofs.Postings.Record

/-! Records of any bytes. Readings with different caps agree, since each is a part of one scan. A record that
is cut short is refused unless it is cut after an id: then it is read as a record of the ids before the cut. -/
namespace VolumeSearch.Postings

/-- Either there is no count, or every reading is a part of one ascending list. -/
private theorem decode_cases (bytes : Bytes) :
    (∀ cap, decode bytes cap = .error .badCount) ∨
    ∃ (count : Nat) (ids : List FileId) (fault : Option DecodeError), ids.Pairwise (· ≤ ·) ∧
      ∀ cap, decode bytes cap = upTo (capped count cap) ids fault := by
  cases hcount : Varint.decode bytes with
  | none => exact .inl fun cap => by simp only [decode, hcount]
  | some found =>
    obtain ⟨count, used⟩ := found
    obtain ⟨ids, fault, hscan⟩ := exists_scan 0 (bytes.drop used)
    exact .inr ⟨count.toNat, ids, fault, (List.pairwise_cons.mp hscan.ascending).2,
      decode_of_scan hcount hscan⟩

theorem decode_ascending (bytes : Bytes) (cap : Option Nat) (ids : List FileId)
    (h : decode bytes cap = .ok ids) : ids.Pairwise (· ≤ ·) := by
  obtain hbad | ⟨count, all, fault, hasc, hread⟩ := decode_cases bytes
  · rw [hbad] at h
    cases h
  · rw [hread, upTo_eq_ok_iff] at h
    obtain ⟨-, rfl⟩ | ⟨-, -, rfl⟩ := h
    · exact hasc.sublist (List.take_sublist _ _)
    · exact hasc

theorem capped_some {c : Nat} (hc : 0 < c) (count : Nat) : capped count (some c) = min count c := by
  obtain ⟨c, rfl⟩ := Nat.exists_eq_add_of_lt hc
  rfl

/-- However damaged the bytes are, what is read does not descend and has no more ids than the cap. A reading
with a cap gives the first ids of the reading without one. It fails only if that fails, and for the same reason,
and where it gives fewer ids than the cap both give the same. -/
theorem decode_caps_agree (bytes : Bytes) :
    (∀ cap ids, decode bytes cap = .ok ids →
      ids.Pairwise (· ≤ ·) ∧ ∀ c, 0 < c → cap = some c → ids.length ≤ c) ∧
    (∀ ids, decode bytes none = .ok ids →
      (∀ c, 0 < c → decode bytes (some c) = .ok (ids.take c)) ∧ decode bytes (some 0) = .ok ids) ∧
    (∀ c e, 0 < c → decode bytes (some c) = .error e → decode bytes none = .error e) ∧
    ∀ c ids, 0 < c → decode bytes (some c) = .ok ids → ids.length < c → decode bytes none = .ok ids := by
  obtain hbad | ⟨count, all, fault, hasc, hread⟩ := decode_cases bytes
  · simp [hbad]
  have hnone : decode bytes none = upTo count all fault := hread none
  have hcapped (c : Nat) (hc : 0 < c) : decode bytes (some c) = upTo (min count c) all fault := by
    rw [hread, capped_some hc]
  refine ⟨fun cap ids h => ⟨decode_ascending bytes cap ids h, ?_⟩, fun ids h => ⟨fun c hc => ?_, ?_⟩,
    fun c e hc h => ?_, fun c ids hc h hfew => ?_⟩
  · rintro c hc rfl
    rw [hcapped c hc] at h
    exact Nat.le_trans (length_le_of_upTo h) (Nat.min_le_right _ _)
  · rw [hnone] at h
    rw [hcapped c hc]
    exact upTo_min_of_ok h c
  · -- a cap of zero is no cap
    exact (hread (some 0)).trans (hnone.symm.trans h)
  · rw [hcapped c hc] at h
    rw [hnone]
    exact upTo_of_min_error h
  · rw [hcapped c hc] at h
    rw [hnone]
    exact upTo_of_min_ok h hfew

/-- Two records that count three ids: one ends within the third, the other after the second. -/
theorem decode_caps_of_damaged :
    decode [3, 5, 0, 0x80] none = .error .badGap ∧
    decode [3, 5, 0] none = .ok [5, 5] ∧ decode [3, 5, 0] (some 1) = .ok [5] := by
  have htorn : decode [3, 5, 0, 0x80] (some 3) = .error .badGap := by rfl
  have hshort : decode [3, 5, 0] (some 4) = .ok [5, 5] := by rfl
  have hnone := (decode_caps_agree [3, 5, 0]).2.2.2 4 [5, 5] (by decide) hshort (by decide)
  refine ⟨(decode_caps_agree [3, 5, 0, 0x80]).2.2.1 3 .badGap (by decide) htorn, hnone, ?_⟩
  exact ((decode_caps_agree [3, 5, 0]).2.1 [5, 5] hnone).1 1 (by decide)

private theorem prefix_append_cases {cut front back : Bytes} (h : cut <+: front ++ back) :
    (cut <+: front ∧ cut ≠ front) ∨ ∃ rest, rest <+: back ∧ cut = front ++ rest := by
  by_cases hfront : front <+: cut
  · obtain ⟨rest, rfl⟩ := hfront
    exact .inr ⟨rest, (List.prefix_append_right_inj front).mp h, rfl⟩
  · have hcut := (List.prefix_or_prefix_of_prefix h (List.prefix_append _ _)).resolve_right hfront
    exact .inl ⟨hcut, fun he => hfront (he ▸ List.prefix_rfl)⟩

variable {ids : List FileId} {cut : Bytes}

/-- Gaps that are cut short are those of the ids before the cut, and then nothing or bytes of no integer. -/
private theorem exists_of_prefix_encodeGaps {previous : FileId} (h : cut <+: encodeGaps previous ids) :
    ∃ k ≤ ids.length, ∃ tail, cut = encodeGaps previous (ids.take k) ++ tail ∧
      (tail = [] ∨ k < ids.length ∧ tail ≠ [] ∧ Varint.decode tail = none) := by
  induction ids generalizing previous cut with
  | nil => exact ⟨0, Nat.le_refl 0, [], List.prefix_nil.mp h, .inl rfl⟩
  | cons id rest ih =>
    rw [encodeGaps] at h
    obtain ⟨hcut, hne⟩ | ⟨cut, hcut, rfl⟩ := prefix_append_cases h
    · refine ⟨0, Nat.zero_le _, cut, rfl, ?_⟩
      by_cases hempty : cut = []
      · exact .inl hempty
      · exact .inr ⟨Nat.succ_pos _, hempty, Varint.decode_eq_none_of_cut hcut hne⟩
    · obtain ⟨k, hk, tail, rfl, htail⟩ := ih hcut
      refine ⟨k + 1, Nat.succ_le_succ hk, tail, ?_, ?_⟩
      · rw [List.take_succ_cons, encodeGaps, List.append_assoc]
      · simpa using htail

/-- Bytes are read just if they have as many ids as are counted and asked for, or end after fewer. -/
private theorem decode_eq_ok_iff (bytes : Bytes) (cap : Option Nat) (ids : List FileId) :
    decode bytes cap = .ok ids ↔ ∃ count used more fault,
      Varint.decode bytes = some (count, used) ∧ Scan 0 (bytes.drop used) (ids ++ more) fault ∧
      (ids.length = capped count.toNat cap ∨
        ids.length < capped count.toNat cap ∧ more = [] ∧ fault = none) := by
  constructor
  · intro h
    cases hcount : Varint.decode bytes with
    | none =>
      simp only [decode, hcount] at h
      cases h
    | some found =>
      obtain ⟨count, used⟩ := found
      obtain ⟨all, fault, hscan⟩ := exists_scan 0 (bytes.drop used)
      rw [decode_of_scan hcount hscan, upTo_eq_ok_iff] at h
      obtain ⟨hall, rfl⟩ | ⟨hfew, hend, rfl⟩ := h
      · refine ⟨count, used, all.drop (capped count.toNat cap), fault, rfl, ?_, .inl ?_⟩
        · rwa [List.take_append_drop]
        · exact List.length_take_of_le hall
      · exact ⟨count, used, [], fault, rfl, by rwa [List.append_nil], .inr ⟨hfew, rfl, hend⟩⟩
  · rintro ⟨count, used, more, fault, hcount, hscan, hlength⟩
    rw [decode_of_scan hcount hscan, upTo_eq_ok_iff]
    obtain hall | ⟨hfew, rfl, hend⟩ := hlength
    · exact .inl ⟨by simp [← hall], by rw [← hall, List.take_left]⟩
    · exact .inr ⟨by simpa using hfew, hend, (List.append_nil ids).symm⟩

/-- The record of a list, cut off after `k` of its ids. -/
def cutAfter (k : Nat) (ids : List FileId) : Bytes :=
  Varint.encode ids.length.toUInt64 ++ encodeGaps 0 (ids.take k)

theorem cutAfter_length (ids : List FileId) : cutAfter ids.length ids = encode ids := by
  rw [cutAfter, List.take_length]
  rfl

private theorem decode_cutAfter_append (hlen : ids.length < UInt64.size) (hasc : ids.Pairwise (· < ·)) (k : Nat)
    {tail : Bytes} {fault : Option DecodeError} (htail : ∀ last, Scan last tail [] fault) :
    decode (cutAfter k ids ++ tail) none = upTo ids.length (ids.take k) fault := by
  have hbefore : (ids.take k).Pairwise (· ≤ ·) := (hasc.imp UInt64.le_of_lt).sublist (List.take_sublist _ _)
  have hgaps := scan_encodeGaps_append (zero_pairwise_le hbefore) (htail _)
  rw [List.append_nil] at hgaps
  rw [cutAfter, List.append_assoc, decode_of_count hlen hgaps]
  rfl

/-- After an id nothing shows that the record went on. -/
private theorem decode_cutAfter (hlen : ids.length < UInt64.size) (hasc : ids.Pairwise (· < ·)) (k : Nat) :
    decode (cutAfter k ids) none = .ok (ids.take k) := by
  have hread : decode (cutAfter k ids ++ []) none = upTo ids.length (ids.take k) none :=
    decode_cutAfter_append hlen hasc k fun _ => .ended
  rw [List.append_nil] at hread
  rw [hread, upTo_eq_ok_iff, List.length_take]
  by_cases hk : ids.length ≤ k
  · exact .inl ⟨by omega, by rw [List.take_of_length_le hk, List.take_length]⟩
  · exact .inr ⟨by omega, rfl, rfl⟩

/-- A cut that is read is one after an id. -/
private theorem exists_cutAfter_of_ok (hlen : ids.length < UInt64.size) (hasc : ids.Pairwise (· < ·))
    (hcut : cut <+: encode ids) (hne : cut ≠ encode ids) {out : List FileId} (h : decode cut none = .ok out) :
    ∃ k < ids.length, cut = cutAfter k ids ∧ out = ids.take k := by
  obtain ⟨hcount, hpart⟩ | ⟨rest, hrest, rfl⟩ := prefix_append_cases hcut
  · simp only [decode, Varint.decode_eq_none_of_cut hcount hpart] at h
    cases h
  · obtain ⟨k, hk, tail, rfl, htail⟩ := exists_of_prefix_encodeGaps hrest
    rw [← List.append_assoc, ← cutAfter] at h hne ⊢
    obtain rfl | ⟨hless, hsome, hbad⟩ := htail
    · rw [List.append_nil] at h hne ⊢
      rw [decode_cutAfter hlen hasc] at h
      refine ⟨k, Nat.lt_of_le_of_ne hk ?_, rfl, (Except.ok.inj h).symm⟩
      rintro rfl
      exact hne (cutAfter_length ids)
    · -- the bytes after the cut's last id are still asked for, and hold no gap
      have hasked : (ids.take k).length < ids.length := by
        rw [List.length_take]
        omega
      rw [decode_cutAfter_append hlen hasc k fun _ => .badGap hsome hbad,
        upTo_eq_error_iff.mpr ⟨hasked, rfl⟩] at h
      cases h

/-- Bytes are read as a record just if they have as many ids as are counted and asked for, or end after one
before. So of a record that is cut short every cut after an id is read, as the ids before it, and all other cuts
are refused. -/
theorem decode_cut_short (bytes : Bytes) (cap : Option Nat) :
    (∀ ids, decode bytes cap = .ok ids ↔ ∃ count used more fault,
      Varint.decode bytes = some (count, used) ∧ Scan 0 (bytes.drop used) (ids ++ more) fault ∧
      (ids.length = capped count.toNat cap ∨
        ids.length < capped count.toNat cap ∧ more = [] ∧ fault = none)) ∧
    ∀ ids : List FileId, ids.length < UInt64.size → ids.Pairwise (· < ·) →
      bytes <+: encode ids → bytes ≠ encode ids →
        ∀ out, decode bytes none = .ok out ↔ ∃ k < ids.length, bytes = cutAfter k ids ∧ out = ids.take k := by
  refine ⟨decode_eq_ok_iff bytes cap, fun ids hlen hasc hcut hne out => ⟨?_, ?_⟩⟩
  · exact exists_cutAfter_of_ok hlen hasc hcut hne
  · rintro ⟨k, -, rfl, rfl⟩
    exact decode_cutAfter hlen hasc k

/-- Of a record of three ids two cuts: one after the second id, and one within the third. -/
theorem decode_cut_of_three :
    decode [3, 3, 2] none = .ok [3, 5] ∧ ∀ out, decode [3, 3, 2, 0xA7] none ≠ .ok out := by
  have hlen : [3, 5, 300].length < UInt64.size := by decide
  have hasc : ([3, 5, 300] : List FileId).Pairwise (· < ·) := by decide
  have hcuts (cut : Bytes) := (decode_cut_short cut none).2 [3, 5, 300] hlen hasc
  have hbytes : encode [3, 5, 300] = [3, 3, 2, 0xA7, 2] := by decide
  rw [hbytes] at hcuts
  refine ⟨(hcuts [3, 3, 2] (by decide) (by decide) [3, 5]).mpr ⟨2, by decide, by decide, rfl⟩, ?_⟩
  intro out h
  obtain ⟨k, hk, hcut, -⟩ := (hcuts [3, 3, 2, 0xA7] (by decide) (by decide) out).mp h
  have hnowhere : ∀ k < 3, ([3, 3, 2, 0xA7] : Bytes) ≠ cutAfter k [3, 5, 300] := by decide
  exact hnowhere k hk hcut

/-- A record of two ids, cut off after the first, is read as the list of that one, though two are counted. -/
theorem decode_of_cut_record :
    (¬ ∀ bytes cap ids, decode bytes cap = .ok ids → ∃ count used,
      Varint.decode bytes = some (count, used) ∧ ids.length = capped count.toNat cap) ∧
    ¬ ∀ ids : List FileId, ids.Pairwise (· < ·) → ∀ cut, cut <+: encode ids → cut ≠ encode ids →
      ∃ e, decode cut none = .error e := by
  have hread : decode [2, 5] none = .ok [5] := by rfl
  have hcount : Varint.decode [2, 5] = some (2, 1) := by rfl
  constructor
  · intro h
    obtain ⟨count, used, hfound, hlength⟩ := h [2, 5] none [5] hread
    obtain ⟨rfl, -⟩ := Prod.mk.inj (Option.some.inj (hcount.symm.trans hfound))
    exact absurd hlength (by decide)
  · intro h
    obtain ⟨e, he⟩ := h [5, 6] (by decide) [2, 5] (by decide) (by decide)
    cases hread.symm.trans he

end VolumeSearch.Postings
