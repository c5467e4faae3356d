import VolumeSearch.Volume.Tree

namespace VolumeSearch.Volume

inductive PathFault where
  | missing
  | occupied
  | notDirectory
  | isDirectory
  | nameTooLong
  | tooManyLinks
  | zeroByte
  deriving DecidableEq, Repr

def PathFault.message : PathFault → String
  | missing => "No such file or directory (os error 2)"
  | occupied => "File exists (os error 17)"
  | notDirectory => "Not a directory (os error 20)"
  | isDirectory => "Is a directory (os error 21)"
  | nameTooLong => "File name too long (os error 36)"
  | tooManyLinks => "Too many levels of symbolic links (os error 40)"
  | zeroByte => "file name contained an unexpected NUL byte"

/-- What a path may end in. -/
inductive Ending where
  /-- Something that is there, through links. -/
  | target
  /-- Something that is there and may be a link itself. -/
  | entry
  /-- Something that is there, or a free name in a directory, through links. -/
  | place
  deriving DecidableEq, Repr

/-- The steps a path takes; a slash at the end asks for a directory there. -/
def steps (path : String) : List String :=
  (SlashPath.segments path).filter (· ≠ "") ++
    (if SlashPath.endsInSlash path then ["."] else [])

def maxLinks : Nat := 40

def maxName : Nat := 255

def maxPath : Nat := 4095

/-- The chain of names from the root to where the steps lead, from a node whose own chain is `here`
with the last name first. Every step needs a directory to start from. -/
def walkSteps (root : Node) (ending : Ending) :
    Nat → List String → Node → List String → Except PathFault (List String)
  | _, here, _, [] => .ok here.reverse
  | links, here, node, step :: rest =>
    match node with
    | .dir _ entries =>
      if step = "." then walkSteps root ending links here node rest
      else if step = ".." then
        walkSteps root ending links here.tail ((root.at? here.tail.reverse).getD root) rest
      else if maxName < step.utf8ByteSize then .error .nameTooLong
      else match entries.lookup step with
        | none =>
          if rest.isEmpty && ending = .place then .ok (step :: here).reverse else .error .missing
        | some (.link _ target) =>
          if rest.isEmpty && ending = .entry then .ok (step :: here).reverse
          else match links with
            | 0 => .error .tooManyLinks
            | links + 1 =>
              if SlashPath.isRooted target then
                walkSteps root ending links [] root (steps target ++ rest)
              else walkSteps root ending links here node (steps target ++ rest)
        | some child => walkSteps root ending links (step :: here) child rest
    | _ => .error .notDirectory
termination_by links _ _ todo => (links, todo.length)

def walkFrom (v : Volume) (ending : Ending) (path : String) (todo : List String) :
    Except PathFault (List String) :=
  if SlashPath.isRooted path then walkSteps v.root ending maxLinks [] v.root todo
  else
    walkSteps v.root ending maxLinks v.here.reverse ((v.root.at? v.here).getD v.root) todo

def refusal? (path : String) : Option PathFault :=
  if path.toList.contains '\x00' then some .zeroByte
  else if path = "" then some .missing
  else if maxPath < path.utf8ByteSize then some .nameTooLong
  else none

def resolve (v : Volume) (ending : Ending) (path : String) : Except PathFault (List String) :=
  match refusal? path with
  | some fault => .error fault
  | none => v.walkFrom ending path (steps path)

/-- The chain of names to the directory in which a path has its last name, and that name. A path
that ends in no name leads to something that is there. -/
def resolveParent (v : Volume) (path : String) : Except PathFault (List String × String) := do
  if let some fault := refusal? path then throw fault
  let names := (SlashPath.segments path).filter (· ≠ "")
  match names.getLast? with
  | none => .error .occupied
  | some name =>
    let chain ← v.walkFrom .target path names.dropLast
    match v.root.at? chain with
    | some (.dir _ _) =>
      if name = "." ∨ name = ".." then .error .occupied
      else if maxName < name.utf8ByteSize then .error .nameTooLong
      else .ok (chain, name)
    | _ => .error .notDirectory

def find? (v : Volume) (path : String) : Option Node :=
  (v.resolve .target path).toOption.bind v.root.at?

/-- The entry a path names, which may be a link. -/
def findLink? (v : Volume) (path : String) : Option Node :=
  (v.resolve .entry path).toOption.bind v.root.at?

def has (v : Volume) (path : String) : Bool := (v.find? path).isSome

def hasDirectory (v : Volume) (path : String) : Bool :=
  match v.find? path with
  | some (.dir _ _) => true
  | _ => false

/-- What a path leads to, for an absolute path to something that is there: the path of a file, or the
paths of all entries of a directory in the order of their names. -/
def listing? (v : Volume) (path : String) : Option (List String) :=
  if SlashPath.isRooted path then
    (v.find? path).map fun
      | .dir _ entries =>
        ((entries.map (·.1)).mergeSort fun a b => a ≤ b).map (SlashPath.child path)
      | _ => [path]
  else none

end VolumeSearch.Volume
