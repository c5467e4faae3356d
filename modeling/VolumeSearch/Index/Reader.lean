import VolumeSearch.Entry
import VolumeSearch.IdSet
import VolumeSearch.Index.Directory
import VolumeSearch.Json
import VolumeSearch.Postings
import VolumeSearch.Text.Basic

/-! Reading an index family. A reader holds the three files as they were when it was opened, so it
stays as it is when the family is written anew. -/
namespace VolumeSearch.Index
open VolumeSearch.Postings VolumeSearch.Text

structure Reader where
  family : Family
  dict : Std.TreeMap String UInt32
  postings : Contents
  offsets : Contents

/-- A dictionary from its bytes: an object of 32-bit ids, where the last of several members with
one key counts. -/
def readDict? (bytes : Bytes) : Option (Std.TreeMap String UInt32) := do
  let members ← (← Json.read? bytes).members?
  let ids ← members.mapM fun (term, v) => (v.natural? UInt32.size).map fun n => (term, n.toUInt32)
  return ids.foldl (fun m (term, id) => m.insert term id) ∅

namespace Reader

def termCount (r : Reader) : Nat := r.dict.size

/-- The end of a span, as far as a 64-bit word can tell it. -/
def spanEnd (s : Span) : Nat := min (s.offset.toNat + s.length.toNat) (UInt64.size - 1)

def lastEnd (r : Reader) : Nat :=
  match Span.find? r.offsets.toBytes r.termCount.toUInt32 with
  | some s => spanEnd s
  | none => 0

/-- Refuses files of different builds where their sizes show it: the table must have one record
for each term, and the last span must end the postings. -/
def checked (r : Reader) : Except Fault Reader :=
  if r.offsets.size ≠ r.termCount * Span.width then
    .error (.inconsistent (.tableSize r.family r.offsets.size r.termCount))
  else if UInt32.size ≤ r.termCount then .error (.inconsistent (.tooManyTerms r.family))
  else if r.lastEnd ≠ r.postings.size then
    .error (.inconsistent (.blobSize r.family r.lastEnd r.postings.size))
  else .ok r

def openIn (d : IndexDir) (f : Family) : Except Fault Reader := do
  let dictFile ← d.read f.dictFile
  let dict ← match dictFile.plain?.bind readDict? with
    | some dict => .ok dict
    | none => .error .json
  let postings ← d.read f.postingsFile
  let offsets ← d.read f.offsetsFile
  checked ⟨f, dict, postings, offsets⟩

/-- The id of a term, zero when the family does not have it. -/
def termId (r : Reader) (term : String) : UInt32 := r.dict.getD term 0

def termsFrom (r : Reader) (stem : String) : List (String × UInt32) :=
  r.dict.toList.filter fun (term, _) => stem.toList.isPrefixOf term.toList

/-- The ids of a term, ascending, at most `cap` of them when a positive cap is given. An id that
names no term has none. -/
def posting (r : Reader) (id : UInt32) (cap : Option Nat) : Except Fault (List FileId) :=
  match Span.find? r.offsets.toBytes id with
  | none => .ok []
  | some s =>
    if r.postings.size < s.offset.toNat + s.length.toNat then .error (.postings id .pastEnd)
    else
      match decode (r.postings.slice s.offset.toNat s.length.toNat) cap with
      | .ok ids => .ok ids
      | .error cause => .error (.postings id (.malformed cause))

def termPosting (r : Reader) (term : String) : Except Fault (List FileId) :=
  r.posting (r.termId term) none

end Reader

namespace Filter

def idsOfAll (r : Reader) (terms : List UInt32) : Except Fault (List FileId) := do
  let lists ← terms.mapM fun id => r.posting id none
  return IdSet.ofList lists.flatten

/-- The entries in a bucket that may hold a size comparing this way with `bytes`. -/
def sizeIds (r : Reader) (op : Comparison) (bytes : UInt64) : Except Fault (List FileId) :=
  idsOfAll r ((SizeBucket.admitted op bytes).map fun b => r.termId b.term)

/-- The entries with an extension, in either case and with or without its dot. -/
def extIds (r : Reader) (ext : String) : Except Fault (List FileId) :=
  idsOfAll r [r.termId (extTerm (String.ofList (ext.toList.dropWhile (· = '.'))))]

def monthOfTerm? (term : String) : Option Int :=
  (Numeral.signed? (term.toList.drop monthStem.length)).map Int64.toInt

def mtimeIds (r : Reader) (op : Comparison) (time : Int64) : Except Fault (List FileId) :=
  idsOfAll r ((r.termsFrom monthStem).filterMap fun (term, id) =>
    match monthOfTerm? term with
    | some month => if op.admits month (monthOf time) then some id else none
    | none => none)

end Filter

/-- The entries of the size buckets a comparison admits; none when the filter family cannot be
read. -/
def sizeFilterIds (d : IndexDir) (op : Comparison) (bytes : UInt64) : List FileId :=
  match Reader.openIn d .filter with
  | .ok r =>
    match Filter.sizeIds r op bytes with
    | .ok ids => ids
    | .error _ => []
  | .error _ => []

/-- All files of the text families are there. The filter family does not count, since every pass
rebuilds it. -/
def isComplete (d : IndexDir) : Bool := Family.text.all fun f => f.files.all d.has

structure FamilyStats where
  family : Family
  terms : Option Nat
  bytes : Nat

def fileSize (d : IndexDir) (name : String) : Nat :=
  match d.item? name with
  | some item => item.size
  | none => 0

def stats (d : IndexDir) : List FamilyStats :=
  Family.all.map fun f => {
    family := f
    terms := (Reader.openIn d f).toOption.map Reader.termCount
    bytes := (f.files.map (fileSize d)).foldl (· + ·) 0 }

end VolumeSearch.Index
