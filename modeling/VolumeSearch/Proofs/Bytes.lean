import Mathlib.Tactic.Common
import VolumeSearch.Bytes

namespace VolumeSearch.Bytes
open String (utf8EncodeChar)

private theorem toList_loop (b : ByteArray) (i : Nat) (r : List UInt8) :
    ByteArray.toList.loop b i r = r.reverse ++ b.data.toList.drop i := by
  fun_induction ByteArray.toList.loop b i r with
  | case1 i r hi ih =>
    have hi' : i < b.data.toList.length := hi
    have hget : b.get! i = b.data.toList[i] := by
      rw [ByteArray.get!, getElem!_pos b.data i hi, Array.getElem_toList]
    rw [ih, List.drop_eq_getElem_cons hi', hget]
    simp
  | case2 i r hi =>
    have hend : b.data.toList.drop i = [] := List.drop_eq_nil_iff.mpr (Nat.le_of_not_lt hi)
    rw [hend, List.append_nil]

private theorem toList_eq_data (b : ByteArray) : b.toList = b.data.toList := by
  rw [ByteArray.toList, toList_loop]
  rfl

theorem ofText_eq (s : String) : ofText s = s.toList.flatMap utf8EncodeChar := by
  rw [ofText, toList_eq_data, String.toUTF8_eq_toByteArray, ← String.utf8Encode_toList,
    List.utf8Encode, List.toList_data_toByteArray]

theorem ofText_ofList (cs : List Char) : ofText (String.ofList cs) = cs.flatMap utf8EncodeChar := by
  rw [ofText_eq, String.toList_ofList]

@[simp] theorem ofText_append (s t : String) : ofText (s ++ t) = ofText s ++ ofText t := by
  rw [ofText_eq, String.toList_append, List.flatMap_append, ofText_eq, ofText_eq]

theorem text?_ofText (s : String) : text? (ofText s) = some s := by
  have hbytes : (⟨(ofText s).toArray⟩ : ByteArray) = s.toByteArray := by
    rw [ofText, toList_eq_data, String.toUTF8_eq_toByteArray, Array.toArray_toList]
  have hvalid : s.toByteArray.IsValidUTF8 := s.isValidUTF8
  rw [text?, hbytes, String.fromUTF8?, dif_pos hvalid]
  rfl

/-- Where the sequences first differ, the first one has the lower byte. -/
private def FirstBelow (xs ys : Bytes) : Prop :=
  ∃ before low lows high highs, xs = before ++ low :: lows ∧ ys = before ++ high :: highs ∧ low < high

private theorem firstBelow_head {m n : Nat} (h : m < n) (hn : n < 256) (xs ys : Bytes) :
    FirstBelow (UInt8.ofNat m :: xs) (UInt8.ofNat n :: ys) := by
  refine ⟨[], _, xs, _, ys, rfl, rfl, ?_⟩
  rw [UInt8.lt_iff_toNat_lt, UInt8.toNat_ofNat', UInt8.toNat_ofNat']
  omega

private theorem FirstBelow.cons {m n : Nat} (h : m = n) {xs ys : Bytes} (hxs : FirstBelow xs ys) :
    FirstBelow (UInt8.ofNat m :: xs) (UInt8.ofNat n :: ys) := by
  obtain ⟨before, low, lows, high, highs, rfl, rfl, hlt⟩ := hxs
  exact ⟨UInt8.ofNat m :: before, low, lows, high, highs, rfl, by rw [h]; rfl, hlt⟩

/-- The lead byte grows with the length of a form, and within one length the bytes are the digits of
the character's number to the base 64. -/
private theorem utf8EncodeChar_firstBelow {c d : Char} (h : c < d) :
    FirstBelow (utf8EncodeChar c) (utf8EncodeChar d) := by
  have hlt : c.val.toNat < d.val.toNat := h
  have hmax : d.val.toNat < 0x110000 := by
    rcases d.valid with hd | ⟨_, hd⟩
    · exact Nat.lt_trans hd (by decide)
    · exact hd
  unfold utf8EncodeChar
  generalize c.val.toNat = v at hlt ⊢
  generalize d.val.toNat = w at hlt hmax ⊢
  simp only
  -- by the length of the first form: the other one is no shorter, and a longer one has a higher lead byte
  by_cases hv1 : v ≤ 0x7f
  · rw [if_pos hv1]
    split_ifs <;> exact firstBelow_head (by omega) (by omega) _ _
  · rw [if_neg hv1, if_neg (show ¬ w ≤ 0x7f by omega)]
    by_cases hv2 : v ≤ 0x7ff
    · rw [if_pos hv2]
      split_ifs
      · by_cases hlead : v / 64 = w / 64
        · exact .cons (by omega) (firstBelow_head (by omega) (by omega) _ _)
        · exact firstBelow_head (by omega) (by omega) _ _
      · exact firstBelow_head (by omega) (by omega) _ _
      · exact firstBelow_head (by omega) (by omega) _ _
    · rw [if_neg hv2, if_neg (show ¬ w ≤ 0x7ff by omega)]
      by_cases hv3 : v ≤ 0xffff
      · rw [if_pos hv3]
        split_ifs
        · by_cases hlead : v / 4096 = w / 4096
          · by_cases hnext : v / 64 = w / 64
            · exact .cons (by omega) (.cons (by omega) (firstBelow_head (by omega) (by omega) _ _))
            · exact .cons (by omega) (firstBelow_head (by omega) (by omega) _ _)
          · exact firstBelow_head (by omega) (by omega) _ _
        · exact firstBelow_head (by omega) (by omega) _ _
      · rw [if_neg hv3, if_neg (show ¬ w ≤ 0xffff by omega)]
        by_cases hlead : v / 262144 = w / 262144
        · by_cases hnext : v / 4096 = w / 4096
          · by_cases hlast : v / 64 = w / 64
            · exact .cons (by omega) (.cons (by omega) (.cons (by omega)
                (firstBelow_head (by omega) (by omega) _ _)))
            · exact .cons (by omega) (.cons (by omega) (firstBelow_head (by omega) (by omega) _ _))
          · exact .cons (by omega) (firstBelow_head (by omega) (by omega) _ _)
        · exact firstBelow_head (by omega) (by omega) _ _

private theorem append_lt_append {xs ys : Bytes} (h : xs < ys) (before : Bytes) :
    before ++ xs < before ++ ys := by
  induction before with
  | nil => exact h
  | cons b rest ih => exact .cons ih

private theorem flatMap_utf8EncodeChar_lt {cs ds : List Char} (h : cs < ds) :
    cs.flatMap utf8EncodeChar < ds.flatMap utf8EncodeChar := by
  induction h with
  | @nil d ds =>
    rw [List.flatMap_nil, List.flatMap_cons]
    cases hd : utf8EncodeChar d with
    | nil => exact absurd hd String.utf8EncodeChar_ne_nil
    | cons b rest => exact .nil
  | @cons c cs ds _ ih =>
    rw [List.flatMap_cons, List.flatMap_cons]
    exact append_lt_append ih _
  | @rel c cs d ds hcd =>
    obtain ⟨before, low, lows, high, highs, hc, hd, hlt⟩ := utf8EncodeChar_firstBelow hcd
    rw [List.flatMap_cons, List.flatMap_cons, hc, hd, List.append_assoc, List.append_assoc]
    exact append_lt_append (.rel hlt) before

/-- Texts in order have UTF-8 forms in the order of their bytes. -/
theorem ofText_lt {s t : String} (h : s < t) : ofText s < ofText t := by
  rw [ofText_eq, ofText_eq]
  exact flatMap_utf8EncodeChar_lt h

end VolumeSearch.Bytes
