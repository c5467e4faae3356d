import VolumeSearch.IdSet
import VolumeSearch.Index.Directory
import VolumeSearch.Json
import VolumeSearch.Postings
import VolumeSearch.Terms

/-! Writing an index family. Term ids count from one in the order of the terms, so the same sets of
ids always give the same bytes. Each file is written beside its place and then renamed into it,
the dictionary last. -/
namespace VolumeSearch.Index
open VolumeSearch.Postings

structure FamilyFiles where
  dict : Bytes
  postings : Bytes
  offsets : Bytes
  deriving DecidableEq

def dictMembers (next : Nat) : List String → List Char
  | [] => []
  | term :: rest =>
    (Json.quote term).toList ++ ':' :: (toString next).toList ++
      (if rest.isEmpty then [] else ',' :: dictMembers (next + 1) rest)

def dictText (terms : List String) : String :=
  String.ofList ('\x7b' :: dictMembers 1 terms ++ ['\x7d'])

def records (m : TermMap) : List (String × Bytes) :=
  m.toList.map fun (term, ids) => (term, Postings.encode (IdSet.ofList ids))

/-- The spans of records that lie one after the other from `offset` on. -/
def spans (offset : Nat) : List Bytes → List Span
  | [] => []
  | r :: rest => ⟨offset.toUInt64, r.length.toUInt32⟩ :: spans (offset + r.length) rest

/-- The most terms and the longest record that the files can express. -/
def wordLimit : Nat := UInt32.size

/-- The files of a family, unless there are more terms or longer records than they can express. -/
def familyFiles (f : Family) (m : TermMap) : Except Fault FamilyFiles :=
  let rs := records m
  match rs.find? fun r => wordLimit ≤ r.2.length with
  | some r => .error (.inconsistent (.postingsTooLong r.1))
  | none =>
    if wordLimit ≤ rs.length then .error (.inconsistent (.tooManyTerms f))
    else
      let blobs := rs.map (·.2)
      .ok {
        dict := Bytes.ofText (dictText (rs.map (·.1)))
        postings := blobs.flatten
        offsets := (spans 0 blobs).flatMap Span.encode }

def unfinished (name : String) : String := name ++ ".tmp"

/-- Before anything is known of the contents, the directory is there and two files are begun. -/
def openingSteps (f : Family) : List FileStep :=
  [.makeDir, .create (unfinished f.postingsFile), .create (unfinished f.offsetsFile)]

def stagingSteps (f : Family) (files : FamilyFiles) : List FileStep :=
  [.fill (unfinished f.postingsFile) files.postings,
    .fill (unfinished f.offsetsFile) files.offsets,
    .create (unfinished f.dictFile), .fill (unfinished f.dictFile) files.dict]

def swapOrder (f : Family) : List String := [f.postingsFile, f.offsetsFile, f.dictFile]

def swapSteps (f : Family) : List FileStep :=
  (swapOrder f).map fun name => .rename (unfinished name) name

/-- The place with the family written anew from a term map, and the number of terms. The first
failure ends the writing. -/
def writeFamily {σ : Type} [Shelf σ] (s : σ) (f : Family) (m : TermMap) : σ × Except Fault Nat :=
  match performAll s (openingSteps f) with
  | (s, .error fault) => (s, .error fault)
  | (s, .ok ()) =>
    match familyFiles f m with
    | .error fault => (s, .error fault)
    | .ok files =>
      let (s, r) := performAll s (stagingSteps f files ++ swapSteps f)
      (s, r.map fun _ => m.size)

end VolumeSearch.Index
