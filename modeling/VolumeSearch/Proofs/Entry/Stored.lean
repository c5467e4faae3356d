import Mathlib
import VolumeSearch.Entry
import VolumeSearch.Proofs.Json.Objects

namespace VolumeSearch.Entry
open Json (Member ReadsAs quote)

private theorem readsAs_int64 (w : Int64) :
    ∃ v : Json.Value, v.signed? = some w ∧ ReadsAs (Bytes.ofText (toString w.toInt)) v := by
  have hlow := w.le_toInt
  have hhigh := w.toInt_lt
  have hsize : UInt64.size = 18446744073709551616 := rfl
  rw [Int.toString_eq_repr, Int.repr_eq_if]
  split
  · next hw =>
    refine ⟨_, ?_, Json.readsAs_natural w.toInt.toNat⟩
    rw [Json.Value.signed?, if_pos (by omega), Int.toNat_of_nonneg hw, Int64.ofInt_toInt]
  · next hw =>
    refine ⟨.number (.integer true (-w.toInt).toNat), ?_, ?_⟩
    · rw [Json.Value.signed?, if_pos (by omega), Int.toNat_of_nonneg (by omega), Int.neg_neg,
        Int64.ofInt_toInt]
    · have hminus : Bytes.ofText "-" = [0x2d] := by cbv
      rw [Bytes.ofText_append, hminus]
      exact Json.readsAs_negative (-w.toInt).toNat

private theorem readsAs_bool (b : Bool) : ReadsAs (Bytes.ofText (boolText b)) (.bool b) := by
  cases b with
  | true =>
    have htrue : Bytes.ofText (boolText true) = [0x74, 0x72, 0x75, 0x65] := by cbv
    rw [htrue]
    exact Json.readsAs_true
  | false =>
    have hfalse : Bytes.ofText (boolText false) = [0x66, 0x61, 0x6c, 0x73, 0x65] := by cbv
    rw [hfalse]
    exact Json.readsAs_false

/-- The members of a stored entry, where the values are what the texts of the fields are read as. -/
private def members (e : Entry) (path name ext : List Json.Piece) (mtime : Json.Value) : List Member := [
  ⟨"fileId", Json.digits e.id.toNat, .number (.integer false e.id.toNat)⟩,
  ⟨"path", Bytes.ofText (quote e.path), .string path⟩,
  ⟨"name", Bytes.ofText (quote e.name), .string name⟩,
  ⟨"ext", Bytes.ofText (quote e.ext), .string ext⟩,
  ⟨"size", Json.digits e.size.toNat, .number (.integer false e.size.toNat)⟩,
  ⟨"mtime", Bytes.ofText (toString e.mtime.toInt), mtime⟩,
  ⟨"isDir", Bytes.ofText (boolText e.isDir), .bool e.isDir⟩,
  ⟨"contentIndexed", Bytes.ofText (boolText e.contentIndexed), .bool e.contentIndexed⟩]

private theorem ofText_foldl (first : String) (rest : List String) :
    Bytes.ofText (rest.foldl (· ++ ·) first) = Bytes.ofText first ++ rest.flatMap Bytes.ofText := by
  induction rest generalizing first with
  | nil => simp
  | cons s rest ih =>
    rw [List.foldl_cons, ih, Bytes.ofText_append, List.flatMap_cons, List.append_assoc]

private theorem toBytes_eq_object (e : Entry) (path name ext : List Json.Piece) (mtime : Json.Value) :
    e.toBytes = Member.object (members e path name ext mtime) := by
  have hid : Bytes.ofText "\x7b\"fileId\":" = 0x7b :: (Bytes.ofText (quote "fileId") ++ [0x3a]) := by
    cbv
  have hpath : Bytes.ofText ",\"path\":" = 0x2c :: (Bytes.ofText (quote "path") ++ [0x3a]) := by
    cbv
  have hname : Bytes.ofText ",\"name\":" = 0x2c :: (Bytes.ofText (quote "name") ++ [0x3a]) := by
    cbv
  have hext : Bytes.ofText ",\"ext\":" = 0x2c :: (Bytes.ofText (quote "ext") ++ [0x3a]) := by
    cbv
  have hsize : Bytes.ofText ",\"size\":" = 0x2c :: (Bytes.ofText (quote "size") ++ [0x3a]) := by
    cbv
  have hmtime : Bytes.ofText ",\"mtime\":" = 0x2c :: (Bytes.ofText (quote "mtime") ++ [0x3a]) := by
    cbv
  have hdir : Bytes.ofText ",\"isDir\":" = 0x2c :: (Bytes.ofText (quote "isDir") ++ [0x3a]) := by
    cbv
  have hindexed : Bytes.ofText ",\"contentIndexed\":" =
      0x2c :: (Bytes.ofText (quote "contentIndexed") ++ [0x3a]) := by
    cbv
  have hclose : Bytes.ofText "\x7d" = [0x7d] := by cbv
  have hparts : e.toJson = [toString e.id.toNat, ",\"path\":", quote e.path, ",\"name\":", quote e.name,
      ",\"ext\":", quote e.ext, ",\"size\":", toString e.size.toNat, ",\"mtime\":",
      toString e.mtime.toInt, ",\"isDir\":", boolText e.isDir, ",\"contentIndexed\":",
      boolText e.contentIndexed, "\x7d"].foldl (· ++ ·) "\x7b\"fileId\":" := rfl
  rw [toBytes, hparts, ofText_foldl]
  simp only [List.flatMap_cons, List.flatMap_nil, hid, hpath, hname, hext, hsize, hmtime, hdir,
    hindexed, hclose, members, Member.object, Member.join, Member.bytes, Json.digits, List.cons_append,
    List.append_assoc, List.nil_append, List.append_nil]

theorem ofBytes?_toBytes (e : Entry) : ofBytes? e.toBytes = some e := by
  obtain ⟨path, hpath, hpathText⟩ := Json.readsAs_string e.path
  obtain ⟨name, hname, hnameText⟩ := Json.readsAs_string e.name
  obtain ⟨ext, hext, hextText⟩ := Json.readsAs_string e.ext
  obtain ⟨mtime, hmtime, hmtimeText⟩ := readsAs_int64 e.mtime
  have hread : ∀ m ∈ members e path name ext mtime, ReadsAs m.text m.value := by
    intro m hm
    simp only [members, List.mem_cons, List.not_mem_nil, or_false] at hm
    rcases hm with rfl | rfl | rfl | rfl | rfl | rfl | rfl | rfl
    · exact Json.readsAs_natural _
    · exact hpathText
    · exact hnameText
    · exact hextText
    · exact Json.readsAs_natural _
    · exact hmtimeText
    · exact readsAs_bool _
    · exact readsAs_bool _
  obtain ⟨found, hfound, hkeyed⟩ := Json.read?_object _ hread
  have hfields : (Json.Value.object found).fields? fieldNames =
      some ((members e path name ext mtime).map fun m => some m.value) := by
    simp only [Json.Value.fields?, hkeyed, Option.bind_eq_bind, Option.bind_some, members, fieldNames]
    simp
  have hid : e.id.toNat < UInt64.size := e.id.toNat_lt
  have hsize : e.size.toNat < UInt64.size := e.size.toNat_lt
  rw [ofBytes?, toBytes_eq_object e path name ext mtime, hfound]
  simp only [Option.bind_eq_bind, Option.bind_some, hfields]
  simp only [members, List.map_cons, List.map_nil, ofFields?, Json.Value.natural?, hid, hsize, if_true,
    Json.Value.text?, hpath, hname, hext, hmtime, Json.Value.bool?, Option.bind_eq_bind, Option.bind_some]
  simp

end VolumeSearch.Entry
