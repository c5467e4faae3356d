import Std.Data.TreeMap
import VolumeSearch.Entry
import VolumeSearch.Fault
import VolumeSearch.Postings
import VolumeSearch.Text.Basic

/-! The catalog of a volume's entries, kept in an ordered store under two keys each: the entry under
its id, and the id under its path. Entries are overwritten and never removed. -/
namespace VolumeSearch
open VolumeSearch.Text

/-- The operations of a store that fail. -/
structure Outage where
  get : String → Bool := fun _ => false
  set : String → Bool := fun _ => false
  iterate : Bool := false
  flush : Bool := false

structure Store where
  values : Std.TreeMap String Bytes := ∅
  outage : Outage := {}

namespace Store

def empty : Store := {}

def get (s : Store) (key : String) : Except Fault (Option Bytes) :=
  if s.outage.get key then .error .io else .ok s.values[key]?

def set (s : Store) (key : String) (value : Bytes) : Except Fault Store :=
  if s.outage.set key then .error .io else .ok { s with values := s.values.insert key value }

/-- The store after writes in order, up to the first that fails, and whether one did. -/
def setAll (s : Store) : List (String × Bytes) → Store × Except Fault Unit
  | [] => (s, .ok ())
  | (key, value) :: rest =>
    match s.set key value with
    | .ok s => s.setAll rest
    | .error fault => (s, .error fault)

/-- Every pair whose key starts with `stem`, in the order of the keys. -/
def withStem (s : Store) (stem : String) : Except Fault (List (String × Bytes)) :=
  if s.outage.iterate then .error .io
  else .ok (s.values.toList.filter fun (key, _) => stem.toList.isPrefixOf key.toList)

def flush (s : Store) : Except Fault Unit := if s.outage.flush then .error .io else .ok ()

end Store

structure Catalog where
  store : Store

namespace Catalog

def empty : Catalog := ⟨.empty⟩

def entryStem : String := "f:"

def entryKey (id : FileId) : String := entryStem ++ toString id.toNat

def pathKey (path : String) : String := "p:" ++ path

/-- What is written for an entry: itself under its id, then its id under its path. -/
def writesOf (e : Entry) : List (String × Bytes) :=
  [(entryKey e.id, e.toBytes), (pathKey e.path, Bytes.ofText (toString e.id.toNat))]

/-- The catalog after an entry is recorded in place of earlier ones, and what went wrong. When the
second write fails, the first one stays. -/
def persist (c : Catalog) (e : Entry) : Catalog × Except Fault Unit :=
  let (store, result) := c.store.setAll (writesOf e)
  (⟨store⟩, result)

def load (c : Catalog) (id : FileId) : Except Fault (Option Entry) := do
  match ← c.store.get (entryKey id) with
  | none => .ok none
  | some bytes =>
    match Entry.ofBytes? bytes with
    | some e => .ok (some e)
    | none => .error .json

def idOfBytes? (bytes : Bytes) : Option FileId :=
  (Bytes.text? bytes).bind fun s => Numeral.unsigned? (trimChars s.toList)

def idByPath (c : Catalog) (path : String) : Except Fault (Option FileId) := do
  match ← c.store.get (pathKey path) with
  | none => .ok none
  | some bytes =>
    match idOfBytes? bytes with
    | some id => .ok (some id)
    | none => .error (.inconsistent (.pathId path))

/-- Every recorded entry in the order of the keys; values that hold no entry are passed over. -/
def entries (c : Catalog) : Except Fault (List Entry) :=
  (c.store.withStem entryStem).map fun pairs => pairs.filterMap fun (_, bytes) => Entry.ofBytes? bytes

def flush (c : Catalog) : Except Fault Unit := c.store.flush

end Catalog

namespace Store
open VolumeSearch.Postings

def encodeField (b : Bytes) : Bytes := Varint.encode b.length.toUInt64 ++ b

def decodeField? (bytes : Bytes) : Option (Bytes × Bytes) :=
  match Varint.decode bytes with
  | some (length, used) =>
    let rest := bytes.drop used
    if length.toNat ≤ rest.length then some (rest.take length.toNat, rest.drop length.toNat)
    else none
  | none => none

def toBytes (s : Store) : Bytes :=
  s.values.toList.flatMap fun (key, value) => encodeField (Bytes.ofText key) ++ encodeField value

/-- Adds the pairs that the bytes hold; each takes at least two of them, which bounds the steps. -/
def addBytes? (s : Store) : Nat → Bytes → Option Store
  | _, [] => some s
  | 0, _ :: _ => none
  | steps + 1, bytes => do
    let (key, rest) ← decodeField? bytes
    let (value, rest) ← decodeField? rest
    addBytes? { s with values := s.values.insert (← Bytes.text? key) value } steps rest

def ofBytes? (bytes : Bytes) : Option Store := addBytes? .empty bytes.length bytes

end Store

end VolumeSearch
