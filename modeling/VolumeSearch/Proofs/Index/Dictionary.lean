import Mathlib.Tactic.Common
import VolumeSearch.Index.Reader
import VolumeSearch.Index.Writer
import VolumeSearch.Proofs.Json.Objects

namespace VolumeSearch.Index
open String (utf8EncodeChar)
open Json (Member ReadsAs)

private def dictEntries (next : Nat) : List String → List Member
  | [] => []
  | term :: rest =>
    ⟨term, Json.digits next, .number (.integer false next)⟩ :: dictEntries (next + 1) rest

private theorem flatMap_dictMembers (next : Nat) (terms : List String) :
    (dictMembers next terms).flatMap utf8EncodeChar = Member.join (dictEntries next terms) := by
  induction terms generalizing next with
  | nil => rfl
  | cons term rest ih =>
    have hcolon : utf8EncodeChar ':' = [0x3a] := by decide
    have hcomma : utf8EncodeChar ',' = [0x2c] := by decide
    have hbytes (s : String) : s.toList.flatMap utf8EncodeChar = Bytes.ofText s :=
      (Bytes.ofText_eq s).symm
    cases rest with
    | nil =>
      simp only [dictMembers, List.isEmpty_nil, if_true, List.append_nil, dictEntries, Member.join,
        Member.bytes, Json.digits, List.flatMap_append, List.flatMap_cons, hbytes, hcolon]
      rfl
    | cons second rest =>
      have hrest := ih (next + 1)
      rw [dictMembers, List.isEmpty_cons, if_neg (by decide)]
      simp only [List.flatMap_append, List.flatMap_cons, hrest, hbytes, hcolon, hcomma, dictEntries,
        Member.join, Member.bytes, Json.digits]
      simp

private theorem ofText_dictText (terms : List String) :
    Bytes.ofText (dictText terms) = Member.object (dictEntries 1 terms) := by
  have hopen : utf8EncodeChar '\x7b' = [0x7b] := by decide
  have hclose : utf8EncodeChar '\x7d' = [0x7d] := by decide
  rw [dictText, Bytes.ofText_ofList, List.flatMap_append, List.flatMap_cons, flatMap_dictMembers,
    List.flatMap_cons, List.flatMap_nil, hopen, hclose]
  rfl

private theorem readsAs_dictEntries (next : Nat) (terms : List String) :
    ∀ m ∈ dictEntries next terms, ReadsAs m.text m.value := by
  induction terms generalizing next with
  | nil => simp [dictEntries]
  | cons term rest ih =>
    intro m hm
    rw [dictEntries, List.mem_cons] at hm
    rcases hm with rfl | hm
    · exact Json.readsAs_natural next
    · exact ih (next + 1) m hm

/-- Terms with their ids, where the first one has the id `next`. -/
private def numbered (next : Nat) : List String → List (String × UInt32)
  | [] => []
  | term :: rest => (term, next.toUInt32) :: numbered (next + 1) rest

private theorem mapM_natural?_dictEntries (next : Nat) (terms : List String)
    (h : next + terms.length ≤ UInt32.size) :
    ((dictEntries next terms).map fun m => (m.key, m.value)).mapM
      (fun (term, v) => (v.natural? UInt32.size).map fun n => (term, n.toUInt32)) =
        some (numbered next terms) := by
  induction terms generalizing next with
  | nil => rfl
  | cons term rest ih =>
    rw [List.length_cons] at h
    have hnatural : (Json.Value.number (.integer false next)).natural? UInt32.size = some next := by
      rw [Json.Value.natural?, if_pos (by omega)]
    simp only [dictEntries, List.map_cons, List.mapM_cons, hnatural, ih (next + 1) (by omega), numbered]
    rfl

private def insertAll (m : Std.TreeMap String UInt32) (pairs : List (String × UInt32)) :
    Std.TreeMap String UInt32 :=
  pairs.foldl (fun m (term, id) => m.insert term id) m

private theorem getElem?_insertAll_of_not_mem (m : Std.TreeMap String UInt32) (next : Nat)
    (terms : List String) (t : String) (h : t ∉ terms) :
    (insertAll m (numbered next terms))[t]? = m[t]? := by
  induction terms generalizing m next with
  | nil => rfl
  | cons term rest ih =>
    have hne : compare term t ≠ .eq := fun he => h (by simp [Std.compare_eq_iff_eq.mp he])
    have hrest := ih (m.insert term next.toUInt32) (next + 1) fun hm => h (by simp [hm])
    rw [Std.TreeMap.getElem?_insert, if_neg hne] at hrest
    exact hrest

private theorem getElem?_insertAll (m : Std.TreeMap String UInt32) (next : Nat)
    (terms : List String) (hnodup : terms.Nodup) (i : Nat) (hi : i < terms.length) :
    (insertAll m (numbered next terms))[terms[i]]? = some (next + i).toUInt32 := by
  induction terms generalizing m next i with
  | nil => simp at hi
  | cons term rest ih =>
    obtain ⟨hterm, hnodup⟩ := List.nodup_cons.mp hnodup
    cases i with
    | zero =>
      have hrest := getElem?_insertAll_of_not_mem (m.insert term next.toUInt32) (next + 1) rest term hterm
      rw [Std.TreeMap.getElem?_insert_self] at hrest
      exact hrest
    | succ i =>
      have hrest := ih (m.insert term next.toUInt32) (next + 1) hnodup i (by simpa using hi)
      rw [show next + 1 + i = next + (i + 1) by omega] at hrest
      exact hrest

private theorem size_insertAll (m : Std.TreeMap String UInt32) (next : Nat) (terms : List String)
    (hnodup : terms.Nodup) (hnew : ∀ t ∈ terms, t ∉ m) :
    (insertAll m (numbered next terms)).size = m.size + terms.length := by
  induction terms generalizing m next with
  | nil => rfl
  | cons term rest ih =>
    obtain ⟨hterm, hnodup⟩ := List.nodup_cons.mp hnodup
    have hnew' : ∀ t ∈ rest, t ∉ m.insert term next.toUInt32 := by
      intro t ht hm
      rcases Std.TreeMap.mem_insert.mp hm with he | hm
      · exact hterm (by rwa [Std.compare_eq_iff_eq.mp he])
      · exact hnew t (by simp [ht]) hm
    have hsize : (m.insert term next.toUInt32).size = m.size + 1 := by
      rw [Std.TreeMap.size_insert, if_neg]
      exact fun hc => hnew term (by simp) (Std.TreeMap.contains_iff_mem.mp hc)
    have hrest := ih (m.insert term next.toUInt32) (next + 1) hnodup hnew'
    rw [hsize] at hrest
    rw [List.length_cons, ← Nat.add_assoc, Nat.add_right_comm]
    exact hrest

/-- A dictionary is read back: the ids count its terms from one, and it has no other term. -/
theorem readDict?_dictText (terms : List String) (hnodup : terms.Nodup)
    (hlen : terms.length < UInt32.size) :
    ∃ dict, readDict? (Bytes.ofText (dictText terms)) = some dict ∧ dict.size = terms.length ∧
      (∀ i (hi : i < terms.length), dict[terms[i]]? = some (i + 1).toUInt32) ∧
      ∀ t, t ∉ terms → dict[t]? = none := by
  refine ⟨insertAll ∅ (numbered 1 terms), ?_, ?_, ?_, ?_⟩
  · obtain ⟨found, hfound, hkeyed⟩ := Json.read?_object _ (readsAs_dictEntries 1 terms)
    have hids := mapM_natural?_dictEntries 1 terms (by omega)
    simp only [readDict?, ofText_dictText, hfound, Json.Value.members?, hkeyed, Option.bind_eq_bind,
      Option.bind_some, hids]
    rfl
  · rw [size_insertAll ∅ 1 terms hnodup (by simp)]
    simp
  · intro i hi
    rw [getElem?_insertAll ∅ 1 terms hnodup i hi, Nat.add_comm]
  · intro t ht
    rw [getElem?_insertAll_of_not_mem ∅ 1 terms t ht]
    simp

/-- The bytes of a dictionary tell which terms it has. -/
theorem mem_of_dictText_eq {terms terms' : List String} (hnodup : terms.Nodup) (hnodup' : terms'.Nodup)
    (hlen : terms.length < UInt32.size) (hlen' : terms'.length < UInt32.size)
    (h : Bytes.ofText (dictText terms) = Bytes.ofText (dictText terms')) {t : String} (ht : t ∈ terms) :
    t ∈ terms' := by
  obtain ⟨dict, hread, -, hids, -⟩ := readDict?_dictText terms hnodup hlen
  obtain ⟨dict', hread', -, -, habsent'⟩ := readDict?_dictText terms' hnodup' hlen'
  rw [h] at hread
  obtain rfl := Option.some.inj (hread.symm.trans hread')
  obtain ⟨i, hi, rfl⟩ := List.getElem_of_mem ht
  by_contra hnone
  have hid := hids i hi
  rw [habsent' _ hnone] at hid
  cases hid

end VolumeSearch.Index
