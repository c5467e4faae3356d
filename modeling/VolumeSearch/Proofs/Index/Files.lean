import Mathlib.Tactic.Common
import VolumeSearch.Proofs.IdSet
import VolumeSearch.Proofs.Index.Dictionary
import VolumeSearch.Proofs.Postings.Record
import VolumeSearch.Proofs.TermMap

/-! The three files of a family and a reader that opens them. What holds of the spans is one fact:
the span of a term starts where the records of the terms before it end. -/
namespace VolumeSearch

namespace Contents

@[simp] theorem toBytes_ofBytes (data : Bytes) : (ofBytes data).toBytes = data := by
  simp [ofBytes, toBytes]

@[simp] theorem size_ofBytes (data : Bytes) : (ofBytes data).size = data.length := rfl

@[simp] theorem plain?_ofBytes (data : Bytes) : (ofBytes data).plain? = some data := rfl

theorem slice_ofBytes (data : Bytes) (start length : Nat) :
    (ofBytes data).slice start length = (data.drop start).take length := by
  have hzeros : min (length - ((data.drop start).take length).length)
      ((ofBytes data).size - start - ((data.drop start).take length).length) = 0 := by
    rw [size_ofBytes, List.length_take, List.length_drop]
    omega
  simp only [slice, ofBytes] at hzeros ⊢
  rw [hzeros, List.replicate_zero, List.append_nil]

end Contents

def TermMap.idsOf (m : TermMap) (term : String) : List FileId := IdSet.ofList (m.get term)

@[simp] theorem TermMap.mem_idsOf (m : TermMap) (term : String) (id : FileId) :
    id ∈ m.idsOf term ↔ id ∈ m.get term :=
  Ascending.mem_ofList id (m.get term)

theorem TermMap.idsOf_pairwise_lt (m : TermMap) (term : String) :
    (m.idsOf term).Pairwise (· < ·) :=
  Ascending.ofList_pairwise_lt (m.get term)

theorem TermMap.idsOf_pairwise_le (m : TermMap) (term : String) :
    (m.idsOf term).Pairwise (· ≤ ·) :=
  (m.idsOf_pairwise_lt term).imp UInt64.le_of_lt

namespace Index
open VolumeSearch.Postings

def record (m : TermMap) (term : String) : Bytes := Postings.encode (m.idsOf term)

/-- The files can express the map: the number of its terms is a 32-bit word, and so is that of the
bytes of each record. -/
def Fits (m : TermMap) : Prop :=
  m.size < wordLimit ∧ ∀ term ∈ m.terms, (record m term).length < wordLimit

/-- A map fits when its terms are few and so are the ids of each, whatever the ids are. -/
theorem fits_of_lengths {m : TermMap} (hterms : m.size < wordLimit)
    (hids : ∀ term ∈ m.terms, Varint.maxLength * ((m.get term).length + 1) < wordLimit) : Fits m := by
  refine ⟨hterms, fun term hterm => ?_⟩
  calc
    (record m term).length ≤ Varint.maxLength * ((m.idsOf term).length + 1) := encode_length_le _
    _ ≤ Varint.maxLength * ((m.get term).length + 1) :=
      Nat.mul_le_mul_left _ (Nat.succ_le_succ (Ascending.length_ofList_le _))
    _ < wordLimit := hids term hterm

def blobs (m : TermMap) : List Bytes := m.terms.map (record m)

@[simp] theorem length_blobs (m : TermMap) : (blobs m).length = m.size := by
  rw [blobs, List.length_map, TermMap.length_terms]

theorem records_eq (m : TermMap) : records m = m.terms.map fun term => (term, record m term) := by
  rw [records, TermMap.terms, List.map_map]
  refine List.map_congr_left fun p hp => ?_
  have hids := (TermMap.mem_toList_iff m p.1 p.2).mp hp
  simp [record, TermMap.idsOf, TermMap.get_eq, hids]

def filesOf (m : TermMap) : FamilyFiles where
  dict := Bytes.ofText (dictText m.terms)
  postings := (blobs m).flatten
  offsets := (spans 0 (blobs m)).flatMap Span.encode

theorem familyFiles_of_fits (f : Family) {m : TermMap} (h : Fits m) :
    familyFiles f m = .ok (filesOf m) := by
  have hfind : (records m).find? (fun r => wordLimit ≤ r.2.length) = none := by
    rw [records_eq, List.find?_eq_none]
    intro r hr
    obtain ⟨term, hterm, rfl⟩ := List.mem_map.mp hr
    simpa using h.2 term hterm
  have hlen : ¬ wordLimit ≤ (records m).length := by
    rw [records_eq, List.length_map, TermMap.length_terms]
    exact Nat.not_le.mpr h.1
  have hterms : (records m).map (·.1) = m.terms := by
    rw [records_eq, List.map_map]
    exact List.map_id' m.terms
  have hblobs : (records m).map (·.2) = blobs m := by
    rw [records_eq, List.map_map]
    rfl
  simp only [familyFiles, hfind, if_neg hlen, hterms, hblobs]
  rfl

/-- Only a map that fits has files. -/
theorem fits_of_familyFiles {f : Family} {m : TermMap} {files : FamilyFiles}
    (h : familyFiles f m = .ok files) : Fits m := by
  unfold familyFiles at h
  dsimp only at h
  split at h
  · cases h
  · next hfind =>
    split at h
    · cases h
    · next hlen =>
      rw [records_eq, List.length_map, TermMap.length_terms] at hlen
      refine ⟨Nat.not_le.mp hlen, fun term hterm => ?_⟩
      rw [records_eq] at hfind
      have hrecord := List.find?_eq_none.mp hfind _ (List.mem_map_of_mem hterm)
      simpa using hrecord

theorem length_spans (offset : Nat) (rs : List Bytes) : (spans offset rs).length = rs.length := by
  induction rs generalizing offset with
  | nil => rfl
  | cons r rest ih => rw [spans, List.length_cons, ih, List.length_cons]

/-- The span of a record starts where those before it end. -/
theorem getElem?_spans (offset : Nat) (rs : List Bytes) (i : Nat) :
    (spans offset rs)[i]? =
      rs[i]?.map fun r => ⟨(offset + (rs.take i).flatten.length).toUInt64, r.length.toUInt32⟩ := by
  induction rs generalizing offset i with
  | nil => rfl
  | cons r rest ih =>
    cases i with
    | zero => simp [spans]
    | succ i =>
      rw [spans, List.getElem?_cons_succ, List.getElem?_cons_succ, ih, List.take_succ_cons,
        List.flatten_cons, List.length_append, Nat.add_assoc]

private theorem flatten_split (rs : List Bytes) (i : Nat) (hi : i < rs.length) :
    rs.flatten = (rs.take i).flatten ++ (rs[i] ++ (rs.drop (i + 1)).flatten) := by
  rw [← List.flatten_cons, List.getElem_cons_drop, ← List.flatten_append, List.take_append_drop]

private theorem length_flatten_le (rs : List Bytes) (h : ∀ r ∈ rs, r.length < wordLimit) :
    rs.flatten.length ≤ rs.length * (wordLimit - 1) := by
  induction rs with
  | nil => simp
  | cons r rest ih =>
    have hr := h r (by simp)
    have hrest := ih fun s hs => h s (by simp [hs])
    rw [List.flatten_cons, List.length_append, List.length_cons, Nat.succ_mul]
    omega

variable {m : TermMap}

private theorem length_record_lt (h : Fits m) : ∀ r ∈ blobs m, r.length < wordLimit := by
  intro r hr
  obtain ⟨term, hterm, rfl⟩ := List.mem_map.mp hr
  exact h.2 term hterm

/-- All records together end where a 64-bit offset can still tell it. -/
private theorem length_postings_lt (h : Fits m) : (blobs m).flatten.length < UInt64.size - 1 := by
  have hle := length_flatten_le (blobs m) (length_record_lt h)
  have hsize : (blobs m).length ≤ wordLimit - 1 := by
    rw [length_blobs]
    exact Nat.le_sub_one_of_lt h.1
  calc
    (blobs m).flatten.length ≤ (blobs m).length * (wordLimit - 1) := hle
    _ ≤ (wordLimit - 1) * (wordLimit - 1) := Nat.mul_le_mul_right _ hsize
    _ < UInt64.size - 1 := by decide

structure Holds (d : IndexDir) (f : Family) (files : FamilyFiles) : Prop where
  dict : d.read f.dictFile = .ok (.ofBytes files.dict)
  postings : d.read f.postingsFile = .ok (.ofBytes files.postings)
  offsets : d.read f.offsetsFile = .ok (.ofBytes files.offsets)

private theorem read_congr {d d' : IndexDir} {n : String} (h : d'.item? n = d.item? n) :
    d'.read n = d.read n := by
  rw [IndexDir.read, IndexDir.read, h]

/-- Only what the names of the family show matters. -/
theorem Holds.congr {d d' : IndexDir} {f : Family} {files : FamilyFiles}
    (h : Holds d f files) (hsame : ∀ n ∈ f.files, d'.item? n = d.item? n) : Holds d' f files := by
  refine ⟨?_, ?_, ?_⟩
  · rw [read_congr (hsame f.dictFile (by simp [Family.files]))]
    exact h.dict
  · rw [read_congr (hsame f.postingsFile (by simp [Family.files]))]
    exact h.postings
  · rw [read_congr (hsame f.offsetsFile (by simp [Family.files]))]
    exact h.offsets

/-- What opens is seen from the files of the family alone. -/
theorem openIn_congr {d d' : IndexDir} {f : Family} (hsame : ∀ n ∈ f.files, d'.item? n = d.item? n) :
    Reader.openIn d' f = Reader.openIn d f := by
  rw [Reader.openIn, Reader.openIn, read_congr (hsame f.dictFile (by simp [Family.files])),
    read_congr (hsame f.postingsFile (by simp [Family.files])),
    read_congr (hsame f.offsetsFile (by simp [Family.files]))]

theorem Holds.unique {d : IndexDir} {f : Family} {files files' : FamilyFiles} (h : Holds d f files)
    (h' : Holds d f files') : files = files' := by
  have hbytes {n : String} {a b : Bytes} (ha : d.read n = .ok (.ofBytes a)) (hb : d.read n = .ok (.ofBytes b)) :
      a = b := congrArg Contents.data (Except.ok.inj (ha.symm.trans hb))
  obtain ⟨dict, postings, offsets⟩ := files
  obtain ⟨dict', postings', offsets'⟩ := files'
  obtain rfl : dict = dict' := hbytes h.dict h'.dict
  obtain rfl : postings = postings' := hbytes h.postings h'.postings
  obtain rfl : offsets = offsets' := hbytes h.offsets h'.offsets
  rfl

/-- The reader answers every question about the family as the map does. -/
structure Reads (r : Reader) (m : TermMap) : Prop where
  termCount : r.termCount = m.size
  termId : ∀ i (hi : i < m.terms.length), r.termId m.terms[i] = (i + 1).toUInt32
  termId_absent : ∀ term, term ∉ m.terms → r.termId term = 0
  posting : ∀ term cap, r.posting (r.termId term) cap =
    .ok ((m.idsOf term).take (capped (m.idsOf term).length cap))

private theorem take_capped (ids : List FileId) (cap : Nat) :
    ids.take (capped ids.length (some cap)) = if cap = 0 then ids else ids.take cap := by
  cases cap with
  | zero => exact List.take_length
  | succ cap =>
    have hcapped : capped ids.length (some (cap + 1)) = min ids.length (cap + 1) := rfl
    rw [if_neg (Nat.succ_ne_zero cap), hcapped, Nat.min_comm, ← List.take_take, List.take_length]

namespace Reads
variable {r : Reader}

theorem termPosting (h : Reads r m) (term : String) : r.termPosting term = .ok (m.idsOf term) := by
  rw [Reader.termPosting, h.posting term none, capped, List.take_length]

theorem cappedPosting (h : Reads r m) (term : String) (cap : Nat) :
    r.posting (r.termId term) (some cap) =
      .ok (if cap = 0 then m.idsOf term else (m.idsOf term).take cap) := by
  rw [h.posting term (some cap), take_capped]

end Reads

theorem toNat_termId {i n : Nat} (hi : i < n) (hn : n < wordLimit) :
    (i + 1).toUInt32.toNat = i + 1 := by
  have hword : i + 1 < UInt32.size := Nat.lt_of_le_of_lt hi hn
  rw [Nat.toUInt32_eq, UInt32.toNat_ofNat', Nat.mod_eq_of_lt hword]

/-- The record of the term at a place is found under the id of the place. -/
private theorem find?_offsets (h : Fits m) (i : Nat) (hi : i < (blobs m).length) :
    Span.find? (filesOf m).offsets (i + 1).toUInt32 =
      some ⟨((blobs m).take i).flatten.length.toUInt64, (blobs m)[i].length.toUInt32⟩ := by
  have hid := toNat_termId hi (by rw [length_blobs]; exact h.1)
  have hne : (i + 1).toUInt32 ≠ 0 := fun he => by simp [he] at hid
  rw [filesOf, Span.find?_flatMap_encode, if_neg hne, hid, Nat.add_sub_cancel, getElem?_spans,
    List.getElem?_eq_getElem hi, Option.map_some, Nat.zero_add]

private theorem span_toNat (h : Fits m) (i : Nat) (hi : i < (blobs m).length) :
    ((blobs m).take i).flatten.length.toUInt64.toNat = ((blobs m).take i).flatten.length ∧
      (blobs m)[i].length.toUInt32.toNat = (blobs m)[i].length := by
  have hall := length_postings_lt h
  have hsplit := congrArg List.length (flatten_split (blobs m) i hi)
  have hrecord : (blobs m)[i].length < UInt32.size := length_record_lt h _ (List.getElem_mem hi)
  have hstart : ((blobs m).take i).flatten.length < UInt64.size := by
    simp only [List.length_append] at hsplit
    omega
  rw [Nat.toUInt64_eq, UInt64.toNat_ofNat', Nat.toUInt32_eq, UInt32.toNat_ofNat']
  exact ⟨Nat.mod_eq_of_lt hstart, Nat.mod_eq_of_lt hrecord⟩

theorem length_idsOf_lt (h : Fits m) {t : String} (ht : t ∈ m.terms) :
    (m.idsOf t).length < UInt64.size :=
  calc
    (m.idsOf t).length < (record m t).length := encode_length _
    _ < wordLimit := h.2 t ht
    _ < UInt64.size := by decide

theorem posting_of_files (h : Fits m) (r : Reader) (hpostings : r.postings = .ofBytes (filesOf m).postings)
    (hoffsets : r.offsets = .ofBytes (filesOf m).offsets) (i : Nat) (hi : i < m.terms.length)
    (cap : Option Nat) :
    r.posting (i + 1).toUInt32 cap =
      .ok ((m.idsOf m.terms[i]).take (capped (m.idsOf m.terms[i]).length cap)) := by
  have hi' : i < (blobs m).length := by rwa [length_blobs, ← TermMap.length_terms]
  have hblob : (blobs m)[i] = record m m.terms[i] := List.getElem_map _
  have hsplit := flatten_split (blobs m) i hi'
  obtain ⟨hstart, hlength⟩ := span_toNat h i hi'
  have hsize : ¬ r.postings.size < ((blobs m).take i).flatten.length + (blobs m)[i].length := by
    rw [hpostings, Contents.size_ofBytes, filesOf, hsplit]
    simp only [List.length_append]
    omega
  have hslice : r.postings.slice ((blobs m).take i).flatten.length (blobs m)[i].length =
      record m m.terms[i] := by
    rw [hpostings, Contents.slice_ofBytes, filesOf, hsplit, List.drop_left, List.take_left, hblob]
  have hlen := length_idsOf_lt h (List.getElem_mem hi)
  rw [Reader.posting, hoffsets, Contents.toBytes_ofBytes, find?_offsets h i hi']
  simp only [hstart, hlength, if_neg hsize, hslice, record]
  rw [decode_encode _ cap hlen (m.idsOf_pairwise_le _)]

/-- The last span of an offset table ends where the postings that were written with it end. -/
theorem lastEnd_of_files (h : Fits m) (r : Reader) (hcount : r.termCount = m.size)
    (hoffsets : r.offsets = .ofBytes (filesOf m).offsets) :
    r.lastEnd = (filesOf m).postings.length := by
  rw [Reader.lastEnd, hoffsets, Contents.toBytes_ofBytes, hcount]
  cases hn : m.size with
  | zero =>
    have hempty : blobs m = [] := by rw [← List.length_eq_zero_iff, length_blobs, hn]
    simp [Span.find?, filesOf, hempty]
  | succ i =>
    have hi : i < (blobs m).length := by
      rw [length_blobs, hn]
      exact Nat.lt_succ_self i
    have hall := length_postings_lt h
    have hsplit := congrArg List.length (flatten_split (blobs m) i hi)
    have hend : (blobs m).drop (i + 1) = [] := by
      rw [List.drop_eq_nil_iff, length_blobs, hn]
    obtain ⟨hstart, hlength⟩ := span_toNat h i hi
    rw [hend, List.flatten_nil, List.append_nil, List.length_append] at hsplit
    rw [find?_offsets h i hi]
    simp only [Reader.spanEnd, hstart, hlength, filesOf]
    omega

theorem length_offsets (m : TermMap) : (filesOf m).offsets.length = m.size * Span.width := by
  rw [filesOf, Span.length_flatMap_encode, length_spans, length_blobs]

/-- With as many terms as a map that fits, a reader is refused only for the size of its table or the
end of its postings. -/
theorem checked_of_fits (h : Fits m) {r : Reader} (hcount : r.termCount = m.size) :
    r.checked = if r.offsets.size = m.size * Span.width then
        if r.lastEnd = r.postings.size then .ok r
        else .error (.inconsistent (.blobSize r.family r.lastEnd r.postings.size))
      else .error (.inconsistent (.tableSize r.family r.offsets.size m.size)) := by
  have hwords : ¬ UInt32.size ≤ r.termCount := by
    rw [hcount]
    exact Nat.not_le.mpr h.1
  rw [Reader.checked, if_neg hwords, ite_not, ite_not, hcount]

structure Numbers (dict : Std.TreeMap String UInt32) (m : TermMap) : Prop where
  size : dict.size = m.size
  termId : ∀ i (hi : i < m.terms.length), dict.getD m.terms[i] 0 = (i + 1).toUInt32
  absent : ∀ term, term ∉ m.terms → dict.getD term 0 = 0

/-- With the dictionary of a map, only the sizes of the other two files are left to look at. -/
theorem openIn_of_dict {d : IndexDir} {f : Family} {postings offsets : Contents} (h : Fits m)
    (hdict : d.read f.dictFile = .ok (.ofBytes (filesOf m).dict))
    (hpostings : d.read f.postingsFile = .ok postings)
    (hoffsets : d.read f.offsetsFile = .ok offsets) :
    ∃ dict, Numbers dict m ∧ Reader.openIn d f = Reader.checked ⟨f, dict, postings, offsets⟩ := by
  obtain ⟨dict, hread, hsize, hids, habsent⟩ := readDict?_dictText m.terms m.terms_nodup
    (by rw [TermMap.length_terms]; exact h.1)
  have hplain : ((Contents.ofBytes (filesOf m).dict).plain?).bind readDict? = some dict := by
    rw [Contents.plain?_ofBytes, Option.bind_some]
    exact hread
  refine ⟨dict, ⟨?_, ?_, ?_⟩, ?_⟩
  · rw [hsize, TermMap.length_terms]
  · intro i hi
    rw [Std.TreeMap.getD_eq_getD_getElem?, hids i hi, Option.getD_some]
  · intro term hterm
    rw [Std.TreeMap.getD_eq_getD_getElem?, habsent term hterm, Option.getD_none]
  · simp only [Reader.openIn, hdict, hpostings, hoffsets, bind, Except.bind, hplain]

/-- A family whose files are in the directory opens, and its reader answers as the map does. -/
theorem openIn_of_holds {d : IndexDir} {f : Family} (h : Fits m) (hd : Holds d f (filesOf m)) :
    ∃ r, Reader.openIn d f = .ok r ∧ Reads r m := by
  obtain ⟨dict, hnumbers, hopen⟩ := openIn_of_dict h hd.dict hd.postings hd.offsets
  let r : Reader := ⟨f, dict, .ofBytes (filesOf m).postings, .ofBytes (filesOf m).offsets⟩
  have hcount : r.termCount = m.size := hnumbers.size
  have htable : r.offsets.size = m.size * Span.width := length_offsets m
  have hend : r.lastEnd = r.postings.size := lastEnd_of_files h r hcount rfl
  refine ⟨r, ?_, hcount, hnumbers.termId, hnumbers.absent, ?_⟩
  · rw [hopen, checked_of_fits h hcount, if_pos htable, if_pos hend]
  · intro term cap
    by_cases hmem : term ∈ m.terms
    · obtain ⟨i, hi, rfl⟩ := List.getElem_of_mem hmem
      rw [Reader.termId, hnumbers.termId i hi, posting_of_files h r rfl rfl i hi cap]
    · -- the id zero, which no term has, is that of every text that is no term
      have hnothing : m.get term = [] := by
        rw [TermMap.terms, List.mem_map] at hmem
        cases hids : m.ids[term]? with
        | none => rw [TermMap.get_eq, hids, Option.getD_none]
        | some ids => exact absurd ⟨_, (m.mem_toList_iff term ids).mpr hids, rfl⟩ hmem
      have hids : m.idsOf term = [] := by
        rw [List.eq_nil_iff_forall_not_mem]
        intro id hid
        rw [TermMap.mem_idsOf, hnothing] at hid
        exact List.not_mem_nil hid
      rw [Reader.termId, hnumbers.absent term hmem, hids, Reader.posting, Span.find?, if_pos rfl,
        List.take_nil]

end Index

end VolumeSearch
