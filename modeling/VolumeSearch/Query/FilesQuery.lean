import VolumeSearch.Query.Predicate
import VolumeSearch.Search.Plan

namespace VolumeSearch.Query

structure FilesQuery where
  text : String := ""
  rootPath : String := ""
  relativePath : String := ""
  showHidden : Bool := false
  /-- The view of deleted files, which always shows hidden ones. -/
  trash : Bool := false
  fileSize : Option SizeFilter := none
  deriving DecidableEq, Repr

namespace FilesQuery

def appendText (q : FilesQuery) (word : String) : FilesQuery :=
  { q with text := if q.text = "" then word else q.text ++ " " ++ word }

/-- Takes in one predicate. Of several with one name the last counts, and a list of sizes means
nothing. -/
def apply (q : FilesQuery) (p : Predicate) : FilesQuery :=
  if p.name = "show_hidden" then { q with showHidden := p.value = "true" }
  else if p.name = textField then q.appendText p.value
  else if p.name = "root_path" then { q with rootPath := p.value }
  else if p.name = "relative_path" then { q with relativePath := p.value }
  else if p.name = "trash" then { q with trash := p.value = "true" }
  else if p.name = "file_size" then
    { q with fileSize := p.comparison?.map fun op => ⟨op, SizeText.read p.value⟩ }
  else q

def ofPredicates (ps : List Predicate) : FilesQuery :=
  let q := ps.foldl apply {}
  { q with showHidden := q.showHidden || q.trash }

def parse (query : String) : FilesQuery := ofPredicates (Query.parse query)

/-- A path below a root; one slash in front of it is passed over. -/
def joinBase (root relative : String) : String :=
  if relative = "" then root
  else
    SlashPath.join root (match relative.toList with
      | '/' :: rest => String.ofList rest
      | _ => relative)

/-- The directory to search in, empty for the whole index. -/
def baseDirectory (q : FilesQuery) : String :=
  SlashPath.normalizeDirectory (joinBase q.rootPath q.relativePath)

def request (q : FilesQuery) (offset limit : Nat) : Search.Request where
  text := q.text
  parent := q.baseDirectory
  offset := offset
  limit := limit
  size := q.fileSize

end FilesQuery

end VolumeSearch.Query
