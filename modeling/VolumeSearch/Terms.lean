import Std.Data.TreeMap
import VolumeSearch.Entry
import VolumeSearch.Text.Basic
import VolumeSearch.Text.Lowercase

/-! The terms of an entry, family by family, and the ids gathered under each. Tokens are the
lower-case ASCII words between separators; n-grams are pairs of neighbouring characters, which
survive a typing error elsewhere in the word. -/
namespace VolumeSearch.Term
open VolumeSearch.Text

def isSeparator (c : Char) : Bool := c = '/' || c = '.' || c = '_' || c = '-'

def isTokenChar (c : Char) : Bool := c.toNat < 0x80 && !isBlank c && !isSeparator c

/-- The tokens of a text in order, duplicates kept. -/
def tokens (s : String) : List String :=
  (runs isTokenChar (lowercaseChars s.toList)).map String.ofList

/-- Ideographs with their extension A and compatibility forms, kana, and Hangul syllables. -/
def isCJK (c : Char) : Bool :=
  let n := c.toNat
  (0x4e00 ≤ n && n ≤ 0x9fff) || (0x3400 ≤ n && n ≤ 0x4dbf) || (0xf900 ≤ n && n ≤ 0xfaff) ||
  (0x3040 ≤ n && n ≤ 0x309f) || (0x30a0 ≤ n && n ≤ 0x30ff) || (0xac00 ≤ n && n ≤ 0xd7a3)

def pairs : List Char → List (List Char)
  | a :: b :: rest => [a, b] :: pairs (b :: rest)
  | _ => []

def minTokenLength : Nat := 3

/-- The pairs within each long enough token, then those within each run of CJK characters;
duplicates kept. -/
def ngrams (s : String) : List String :=
  let lower := lowercaseChars s.toList
  let words := (runs isTokenChar lower).filter fun w => minTokenLength ≤ w.length
  ((words ++ runs isCJK lower).flatMap pairs).map String.ofList

end VolumeSearch.Term

namespace VolumeSearch

inductive Family where
  | name
  | path
  | nameNgram
  | pathNgram
  /-- The extension and the buckets of size and time. -/
  | filter
  deriving DecidableEq, Repr

namespace Family

def all : List Family := [name, path, nameNgram, pathNgram, filter]

def text : List Family := [name, path, nameNgram, pathNgram]

def stem : Family → String
  | name => "name"
  | path => "path"
  | nameNgram => "name_ngram"
  | pathNgram => "path_ngram"
  | filter => "filter"

/-- The family of whole tokens that answers a query by path, or by name. -/
def exact (byPath : Bool) : Family := if byPath then path else name

def fuzzy (byPath : Bool) : Family := if byPath then pathNgram else nameNgram

/-- The terms an entry contributes, in order and with duplicates. -/
def terms (f : Family) (e : Entry) : List String :=
  match f with
  | name => Term.tokens e.name
  | path => Term.tokens e.path
  | nameNgram => Term.ngrams e.name
  | pathNgram => Term.ngrams e.path
  | filter =>
    (if e.ext = "" then [] else [extTerm e.ext]) ++
      [(SizeBucket.of e.size).term, monthTerm (monthOf e.mtime)]

def dictFile (f : Family) : String := f.stem ++ ".dict.json"

def postingsFile (f : Family) : String := f.stem ++ ".postings.dat"

def offsetsFile (f : Family) : String := f.stem ++ ".postings.idx"

def files (f : Family) : List String := [f.dictFile, f.postingsFile, f.offsetsFile]

end Family

structure TermMap where
  ids : Std.TreeMap String (List FileId) := ∅

namespace TermMap

def empty : TermMap := {}

def get (m : TermMap) (term : String) : List FileId := m.ids.getD term []

/-- Puts further ids behind those a term has; no ids leave no trace. -/
def addAll (m : TermMap) (term : String) (ids : List FileId) : TermMap :=
  if ids.isEmpty then m else ⟨m.ids.insert term (m.get term ++ ids)⟩

def add (m : TermMap) (term : String) (id : FileId) : TermMap := m.addAll term [id]

def size (m : TermMap) : Nat := m.ids.size

def toList (m : TermMap) : List (String × List FileId) := m.ids.toList

/-- Both maps in one; under a term the ids of the second follow those of the first. -/
def merge (m other : TermMap) : TermMap :=
  other.toList.foldl (fun m (term, ids) => m.addAll term ids) m

def addEntry (m : TermMap) (f : Family) (e : Entry) : TermMap :=
  (f.terms e).foldl (fun m term => m.add term e.id) m

end TermMap

structure TextTerms where
  name : TermMap := .empty
  path : TermMap := .empty
  nameNgram : TermMap := .empty
  pathNgram : TermMap := .empty

namespace TextTerms

def empty : TextTerms := {}

def get? (t : TextTerms) : Family → Option TermMap
  | .name => some t.name
  | .path => some t.path
  | .nameNgram => some t.nameNgram
  | .pathNgram => some t.pathNgram
  | .filter => none

def addEntry (t : TextTerms) (e : Entry) : TextTerms where
  name := t.name.addEntry .name e
  path := t.path.addEntry .path e
  nameNgram := t.nameNgram.addEntry .nameNgram e
  pathNgram := t.pathNgram.addEntry .pathNgram e

def merge (t other : TextTerms) : TextTerms where
  name := t.name.merge other.name
  path := t.path.merge other.path
  nameNgram := t.nameNgram.merge other.nameNgram
  pathNgram := t.pathNgram.merge other.pathNgram

end TextTerms

end VolumeSearch
