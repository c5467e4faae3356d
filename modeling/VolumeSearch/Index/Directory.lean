import Std.Data.TreeMap
import VolumeSearch.Bytes
import VolumeSearch.Fault

/-! Changing the files of an index one step at a time. What is written is said once for every kind
of place that can hold an index. -/
namespace VolumeSearch.Index

inductive FileStep where
  /-- The directory is made, with those above it, if it is not there. -/
  | makeDir
  /-- A file holds nothing from now on; it is made if it is not there. -/
  | create (name : String)
  /-- Bytes are written over a file from its start. -/
  | fill (name : String) (data : Bytes)
  | rename (name target : String)
  deriving DecidableEq, Repr

/-- A place for the files of an index. A step that fails may leave a part of its change. -/
class Shelf (σ : Type) where
  perform : σ → FileStep → σ × Except Fault Unit

/-- The place after steps in order, up to the first that fails, and whether one did. -/
def performAll {σ : Type} [Shelf σ] (s : σ) : List FileStep → σ × Except Fault Unit
  | [] => (s, .ok ())
  | step :: rest =>
    match Shelf.perform s step with
    | (s, .ok ()) => performAll s rest
    | (s, .error fault) => (s, .error fault)

theorem performAll_append {σ : Type} [Shelf σ] (s : σ) (first second : List FileStep) :
    performAll s (first ++ second) =
      match performAll s first with
      | (s, .ok ()) => performAll s second
      | (s, .error fault) => (s, .error fault) := by
  induction first generalizing s with
  | nil => rfl
  | cons step rest ih =>
    simp only [List.cons_append, performAll]
    split
    · exact ih _
    · rfl

end VolumeSearch.Index

namespace VolumeSearch

inductive IndexItem where
  | file (contents : Contents)
  /-- Something that cannot be read as a file, such as a directory, and the size it is said to
  have. -/
  | other (size : Nat)
  deriving DecidableEq

def IndexItem.size : IndexItem → Nat
  | file contents => contents.size
  | other size => size

inductive IndexDir where
  | absent
  /-- Something that is no directory stands in its place. -/
  | blocked
  | files (named : Std.TreeMap String IndexItem)

namespace IndexDir

def item? (d : IndexDir) (name : String) : Option IndexItem :=
  match d with
  | files named => named[name]?
  | _ => none

def read (d : IndexDir) (name : String) : Except Fault Contents :=
  match d.item? name with
  | some (.file c) => .ok c
  | _ => .error .io

def has (d : IndexDir) (name : String) : Bool := (d.item? name).isSome

/-- The items of the directory, which is made where nothing stands in its place. -/
def create : IndexDir → Except Fault (Std.TreeMap String IndexItem)
  | absent => .ok ∅
  | blocked => .error .io
  | files named => .ok named

def remove : IndexDir → String → IndexDir
  | files named, name => files (named.erase name)
  | d, _ => d

/-- The directory with the contents of a file changed; a new file is empty before. -/
def write (d : IndexDir) (name : String) (change : Contents → Contents) :
    Except Fault IndexDir :=
  match d, d.item? name with
  | files named, none => .ok (files (named.insert name (.file (change .empty))))
  | files named, some (.file c) => .ok (files (named.insert name (.file (change c))))
  | _, _ => .error .io

/-- The directory after a file takes the place of another, if one was there. Only a file gives
way. -/
def rename (d : IndexDir) (name target : String) : Except Fault IndexDir :=
  match d, d.item? name, d.item? target with
  | files _, _, some (.other _) => .error .io
  | files named, some item, _ => .ok (files ((named.erase name).insert target item))
  | _, _, _ => .error .io

def after (d : IndexDir) : Index.FileStep → Except Fault IndexDir
  | .makeDir => d.create.map files
  | .create name => d.write name fun _ => .empty
  | .fill name data => d.write name (·.overwrite data)
  | .rename name target => d.rename name target

/-- A step that fails leaves the directory as it was. -/
instance : Index.Shelf IndexDir where
  perform d step :=
    match d.after step with
    | .ok d => (d, .ok ())
    | .error fault => (d, .error fault)

end IndexDir

end VolumeSearch
