import VolumeSearch.Bytes
import VolumeSearch.Entry
import VolumeSearch.SlashPath

namespace VolumeSearch

structure Stat where
  origin : Origin
  /-- Milliseconds since the epoch. -/
  modified : Int
  deriving DecidableEq

inductive Node where
  | file (stat : Stat) (contents : Contents)
  | link (stat : Stat) (target : String)
  /-- Something that gives no bytes and keeps none. -/
  | device (stat : Stat)
  | dir (stat : Stat) (entries : List (String × Node))

namespace Node

def stat : Node → Stat
  | file stat _ | link stat _ | device stat | dir stat _ => stat

def isDir : Node → Bool
  | dir _ _ => true
  | _ => false

def dirSize : Nat := 4096

/-- The size of a node itself; a link is as long as its target. -/
def size : Node → Nat
  | file _ contents => contents.size
  | link _ target => target.utf8ByteSize
  | device _ => 0
  | dir _ _ => dirSize

/-- What can be read from a node as from a file. -/
def contents? : Node → Option Contents
  | file _ contents => some contents
  | device _ => some .empty
  | _ => none

def entries : Node → List (String × Node)
  | dir _ entries => entries
  | _ => []

def child? (n : Node) (name : String) : Option Node := n.entries.lookup name

def at? (n : Node) : List String → Option Node
  | [] => some n
  | name :: rest => (n.child? name).bind fun child => child.at? rest

def putEntry (name : String) (node : Node) : List (String × Node) → List (String × Node)
  | [] => [(name, node)]
  | (other, n) :: rest =>
    if other = name then (name, node) :: rest else (other, n) :: putEntry name node rest

/-- The tree with the node at the end of a chain of names replaced; all directories on the way
must be there. -/
def put? (n : Node) : List String → Node → Option Node
  | [], node => some node
  | [name], node =>
    match n with
    | dir stat entries => some (dir stat (putEntry name node entries))
    | _ => none
  | name :: rest, node =>
    match n with
    | dir stat entries =>
      (entries.lookup name).bind fun child =>
        (child.put? rest node).map fun child => dir stat (putEntry name child entries)
    | _ => none

end Node

structure Volume where
  root : Node
  /-- The names that lead from the root to the working directory. -/
  here : List String
  nextInode : UInt64 := 1
  /-- The time of new directories and links, in milliseconds since the epoch. -/
  now : Int := 0

end VolumeSearch
