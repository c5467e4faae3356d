import VolumeSearch.Text.Basic

namespace VolumeSearch.SlashPath
open VolumeSearch.Text

/-- The segments between slashes, empty ones included. -/
def segments (p : String) : List String := (splitAt '/' p.toList).map String.ofList

def isRooted (p : String) : Bool := p.toList.head? = some '/'

/-- One segment on top of the cleaned segments before it, the last of these first. A `..` takes
the name before it back; without one it stays in a relative path and is lost at the root. -/
def push (rooted : Bool) (stack : List String) (segment : String) : List String :=
  if segment = "" ∨ segment = "." then stack
  else if segment = ".." then
    match stack with
    | [] => if rooted then [] else [".."]
    | top :: rest => if top = ".." then (if rooted then stack else ".." :: stack) else rest
  else segment :: stack

def cleanSegments (p : String) : List String :=
  ((segments p).foldl (push (isRooted p)) []).reverse

def joinSegments (ss : List String) : String :=
  String.ofList (joinWith '/' (ss.map String.toList))

/-- The shortest equivalent path. -/
def clean (p : String) : String :=
  let joined := joinSegments (cleanSegments p)
  if isRooted p then "/" ++ joined
  else if joined = "" then "."
  else joined

/-- `rel` below `base`, cleaned; an empty part counts for nothing. -/
def join (base rel : String) : String :=
  if base = "" then (if rel = "" then "" else clean rel)
  else if rel = "" then clean base
  else clean (base ++ "/" ++ rel)

def endsInSlash (p : String) : Bool := p.toList.getLast? = some '/'

/-- The path of an entry of a directory. -/
def child (dir name : String) : String :=
  if endsInSlash dir then dir ++ name else dir ++ "/" ++ name

/-- The path of a file named within a directory, where the empty path is the working directory
and an absolute name stands for itself. -/
def within (dir name : String) : String :=
  if dir = "" ∨ isRooted name then name else child dir name

/-- A directory with the slash that separates it from what lies below. -/
def asDirectory (p : String) : String := if p = "" ∨ endsInSlash p then p else p ++ "/"

def slashes (p : String) : String :=
  String.ofList (p.toList.map fun c => if c = '\\' then '/' else c)

/-- A directory as a person writes it: blanks around it dropped, backslashes read as slashes,
cleaned, and empty when it names the working directory. -/
def normalizeDirectory (p : String) : String :=
  let p := trim p
  if p = "" then ""
  else
    let cleaned := clean (slashes p)
    if cleaned = "." then "" else cleaned

/-- The segments that take part in naming an entry: neither empty nor `.`, except that a `.` at
the very start stays. -/
def components (p : String) : List String :=
  match segments p with
  | "." :: rest => "." :: rest.filter fun s => s ≠ "" ∧ s ≠ "."
  | ss => ss.filter fun s => s ≠ "" ∧ s ≠ "."

def spell (rooted : Bool) (cs : List String) : String :=
  if rooted then "/" ++ joinSegments cs else joinSegments cs

/-- The paths of the directories above components, which come last first. A relative path ends
before the working directory, an absolute one with the root. -/
def above (rooted : Bool) : List String → List String
  | _ :: c :: rest => spell rooted (c :: rest).reverse :: above rooted (c :: rest)
  | _ => if rooted then ["/"] else []

def ancestors (p : String) : List String :=
  if p = "" then [] else p :: above (isRooted p) (components p).reverse

/-- The name of the entry a path leads to, which is its last component, or the path as written when
that is no name. -/
def fileName (p : String) : String :=
  match (components p).getLast? with
  | some name => if name = "." ∨ name = ".." then p else name
  | none => p

/-- Where the components of a path start: at the working directory, or at the root, which may be
spelled with exactly two slashes. -/
def origin (here p : String) : String :=
  match p.toList with
  | '/' :: '/' :: '/' :: _ => "/"
  | '/' :: '/' :: _ => "//"
  | '/' :: _ => "/"
  | _ => here

/-- A path made absolute without a look at the volume: `.` and repeated slashes go, `..` and a
slash at the end stay. The empty path has no absolute form. -/
def absolute? (here p : String) : Option String :=
  if p = "" then none
  else
    let joined := ((components p).filter (· ≠ ".")).foldl child (origin here p)
    some (if endsInSlash p then asDirectory joined else joined)

end VolumeSearch.SlashPath
