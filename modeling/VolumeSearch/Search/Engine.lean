import VolumeSearch.Catalog
import VolumeSearch.Index.Reader
import VolumeSearch.Search.Plan
import VolumeSearch.Volume.Resolve

/-! Answering a request: exact matches first, approximate ones while exact ones are few, then scope
and size, and a page of the paths in the order of their ids. A family that is missing or corrupt
costs matches, not the answer; only the metadata store can make a search fail. -/
namespace VolumeSearch.Search

structure Source where
  index : IndexDir
  catalog : Catalog
  volume : Volume

def fuzzyCap : Nat := 20000

/-- Approximate matches are added while exact ones fill fewer pages than this. -/
def fuzzyPages : Nat := 3

/-- The ids under all the terms; none when there is no term. -/
def exactIds (r : Index.Reader) (terms : List String) : Except Fault (List FileId) :=
  (terms.mapM r.termPosting).map IdSet.intersectAll

/-- The ids under all the n-grams that the family has. -/
def fuzzyIds (r : Index.Reader) (grams : List String) : Except Fault (List FileId) :=
  (grams.mapM fun gram => r.posting (r.termId gram) (some fuzzyCap)).map fun sets =>
    IdSet.intersectAll (sets.filter (· ≠ []))

/-- The exact matches, and the approximate ones where they are needed and can be read. -/
def withFuzzy (d : IndexDir) (p : Plan) (exact : List FileId) : List FileId :=
  if p.limit * fuzzyPages ≤ exact.length then exact
  else
    match Index.Reader.openIn d (.fuzzy p.byPath) with
    | .error _ => exact
    | .ok r =>
      match fuzzyIds r (Term.ngrams p.target) with
      | .error _ => exact
      | .ok fuzzy => if Term.ngrams p.target = [] then exact else IdSet.union exact fuzzy

/-- The entry of an id; a record that cannot be read counts as absent. -/
def loadEntry (c : Catalog) (id : FileId) : Except Fault (Option Entry) :=
  match c.load id with
  | .error .json => .ok none
  | other => other

/-- The path of an indexed directory, with a slash at its end. -/
def indexedDirectory (c : Catalog) (path : String) : Except Fault (Option String) :=
  match c.idByPath path with
  | .error (.inconsistent _) | .ok none => .ok none
  | .error fault => .error fault
  | .ok (some id) =>
    (loadEntry c id).map fun
      | some e => if e.isDir then some (SlashPath.asDirectory e.path) else none
      | none => none

/-- An entry passes when it is in scope and its size is right; with a size given, directories do
not pass. -/
def passes (p : Plan) (directory : Option String) (e : Entry) : Bool :=
  (match p.size with
    | some f => !e.isDir && f.accepts e.size
    | none => true) && p.inScope directory e.path

def collect (c : Catalog) (p : Plan) (directory : Option String) (ids : List FileId) :
    Except Fault (List String) := do
  let found ← ids.mapM (loadEntry c)
  return found.filterMap fun
    | some e => if passes p directory e then some e.path else none
    | none => none

/-- The ids that match the words of a plan, narrowed by those of the right size when there are
any. -/
def matching (d : IndexDir) (p : Plan) (exact sizeIds : List FileId) : List FileId :=
  let ids := withFuzzy d p exact
  if sizeIds = [] then ids else IdSet.intersect ids sizeIds

def indexed (s : Source) (p : Plan) (directory : Option String) : Except Fault (List String) :=
  let sizeIds := match p.size with
    | some f => Index.sizeFilterIds s.index f.op f.bytes
    | none => []
  if p.size.isSome && p.text = "" then collect s.catalog p directory sizeIds
  else
    match Index.Reader.openIn s.index (.exact p.byPath) with
    | .error _ => .ok []
    | .ok r =>
      match exactIds r (Term.tokens p.target) with
      | .error _ => .ok []
      | .ok exact => collect s.catalog p directory (matching s.index p exact sizeIds)

/-- All paths that answer a request. What the path of a query leads to on the volume is the answer
where there is something; the index answers otherwise. -/
def results (s : Source) (p : Plan) : Except Fault (List String) := do
  if p.byPath then
    match s.volume.listing? p.target with
    | some paths => return paths
    | none => indexed s p (← indexedDirectory s.catalog p.target)
  else indexed s p none

def search (s : Source) (r : Request) : Except Fault (List String) :=
  (results s r.plan).map r.plan.page

/-- As `search`, with the page cut out in machine words. -/
def searchSliced (s : Source) (r : Request) : Except Fault (List String) :=
  (results s r.plan).map fun paths => slice paths r.plan.offset r.plan.limit

end VolumeSearch.Search
