import VolumeSearch.Entry
import VolumeSearch.Volume.Resolve

/-! Walking a volume from a root: the root itself, then everything below it that is not ruled out,
parents first. Links below the root are visited and never followed. -/
namespace VolumeSearch

structure Visit where
  path : String
  name : String
  /-- The entry itself, unless there is none to look at. -/
  node : Option Node

namespace Volume

def trashName : String := ".nas-trash"

/-- Directories that hold no files of their own. -/
def pseudoRoots : List String :=
  ["/proc", "/sys", "/dev", "/run", "/tmp", "/var/run", "/var/tmp"]

/-- Two spellings of one path, as far as empty and `.` segments go. -/
def sameSpelling (p q : String) : Bool :=
  SlashPath.isRooted p == SlashPath.isRooted q && SlashPath.components p == SlashPath.components q

/-- The rules for an entry below the root. The first looks at the whole path, so that a root within
the trash gives only itself. -/
def excluded (hidden : Bool) (path name : String) (isDir : Bool) : Bool :=
  (SlashPath.components path).contains trashName ||
  (isDir && pseudoRoots.any (sameSpelling path)) ||
  (!hidden && name.toList.head? = some '.')

mutual
/-- What lies below a node with the given path. -/
def visitsBelow (hidden : Bool) (path : String) : Node → List Visit
  | .dir _ entries => visitsAmong hidden path entries
  | _ => []

/-- Those of the entries of a directory that are not ruled out, each followed by what lies below. -/
def visitsAmong (hidden : Bool) (path : String) : List (String × Node) → List Visit
  | [] => []
  | (name, node) :: rest =>
    let here := SlashPath.child path name
    (if excluded hidden here name node.isDir then []
      else ⟨here, name, some node⟩ :: visitsBelow hidden here node) ++ visitsAmong hidden path rest
end

/-- The root that stands for the standard input, and the path its entry has. -/
def standardInput : String × String := ("-", "<stdin>")

/-- The entries met from a root, which is visited whatever its name and followed if it is a link.
A root that leads nowhere gives nothing. -/
def walk (v : Volume) (hidden : Bool) (root : String) : List Visit :=
  if root = standardInput.1 then
    [⟨standardInput.2, standardInput.2, v.findLink? standardInput.2⟩]
  else
    match v.find? root with
    | none => []
    | some node =>
      ⟨root, SlashPath.fileName root, v.findLink? root⟩ :: visitsBelow hidden root node

end Volume

namespace Visit

/-- Whole seconds, a fraction dropped toward the epoch. -/
def seconds (milliseconds : Int) : Int64 := Int64.ofInt (milliseconds.tdiv 1000)

def entry? (v : Visit) : Option Entry :=
  v.node.map fun node => {
    id := node.stat.origin.fileId
    path := v.path
    name := v.name
    ext := extensionOf v.name
    size := node.size.toUInt64
    mtime := seconds node.stat.modified
    isDir := node.isDir
    contentIndexed := false }

end Visit

end VolumeSearch
