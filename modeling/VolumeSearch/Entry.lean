import VolumeSearch.Comparison
import VolumeSearch.Digest.Blake3
import VolumeSearch.Json
import VolumeSearch.Postings
import VolumeSearch.Text.Lowercase

namespace VolumeSearch
open VolumeSearch.Text

/-- What tells an entry of a volume from every other: its device, its number there, and when it
last changed in a way that makes it another entry. -/
structure Origin where
  device : UInt64
  inode : UInt64
  changed : Int64
  deriving DecidableEq, Repr

namespace Origin

def text (o : Origin) : String :=
  toString o.device.toNat ++ ":" ++ toString o.inode.toNat ++ ":" ++ toString o.changed.toInt

/-- The first eight bytes of the digest of the parts, least significant first. -/
def fileId (o : Origin) : FileId :=
  (Bytes.toNat ((Digest.Blake3.digest (Bytes.ofText o.text)).take 8)).toUInt64

end Origin

structure Entry where
  id : FileId
  /-- The path with slashes, as the walk that met the entry spells it. -/
  path : String
  name : String
  ext : String
  size : UInt64
  /-- Seconds since the epoch. -/
  mtime : Int64
  isDir : Bool
  /-- The contents were indexed, which is left to other programs. -/
  contentIndexed : Bool
  deriving DecidableEq, Repr

def afterLastDot (name : List Char) : List Char :=
  if name.contains '.' then (name.reverse.takeWhile (· ≠ '.')).reverse else []

def extensionOf (name : String) : String :=
  String.ofList (lowercaseChars (afterLastDot name.toList))

/-- Sizes below 1 KiB, 1 MiB, 10 MiB, 100 MiB, 1 GiB, and the rest. -/
inductive SizeBucket where
  | s0 | s1 | s2 | s3 | s4 | s5
  deriving DecidableEq, Repr

namespace SizeBucket

def all : List SizeBucket := [s0, s1, s2, s3, s4, s5]

def rank : SizeBucket → Nat
  | s0 => 0
  | s1 => 1
  | s2 => 2
  | s3 => 3
  | s4 => 4
  | s5 => 5

def of (size : UInt64) : SizeBucket :=
  let n := size.toNat
  if n < 1 <<< 10 then s0
  else if n < 1 <<< 20 then s1
  else if n < 10 <<< 20 then s2
  else if n < 100 <<< 20 then s3
  else if n < 1 <<< 30 then s4
  else s5

def label (b : SizeBucket) : String := "s" ++ toString b.rank

def term (b : SizeBucket) : String := "size:" ++ b.label

/-- The buckets that may hold a size comparing this way with `bytes`. -/
def admitted (op : Comparison) (bytes : UInt64) : List SizeBucket :=
  all.filter fun b => op.admits b.rank (of bytes).rank

end SizeBucket

/-- Months of thirty days since the epoch; all times before it count as month zero. -/
def monthOf (mtime : Int64) : Int :=
  if mtime.toInt ≤ 0 then 0 else mtime.toInt / (24 * 3600) / 30

def monthStem : String := "mtime:m"

def monthTerm (month : Int) : String := monthStem ++ toString month

def extTerm (ext : String) : String := "ext:" ++ lowercase ext

namespace Entry
open VolumeSearch.Json (quote)

def boolText (b : Bool) : String := if b then "true" else "false"

def toJson (e : Entry) : String :=
  "\x7b\"fileId\":" ++ toString e.id.toNat ++ ",\"path\":" ++ quote e.path ++
  ",\"name\":" ++ quote e.name ++ ",\"ext\":" ++ quote e.ext ++
  ",\"size\":" ++ toString e.size.toNat ++ ",\"mtime\":" ++ toString e.mtime.toInt ++
  ",\"isDir\":" ++ boolText e.isDir ++ ",\"contentIndexed\":" ++ boolText e.contentIndexed ++ "\x7d"

def toBytes (e : Entry) : Bytes := Bytes.ofText e.toJson

def fieldNames : List String :=
  ["fileId", "path", "name", "ext", "size", "mtime", "isDir", "contentIndexed"]

/-- An entry from its fields; only the last may be missing. -/
def ofFields? : List (Option Json.Value) → Option Entry
  | [some id, some path, some name, some ext, some size, some mtime, some isDir, indexed] => do
    let indexed ← match indexed with
      | some v => v.bool?
      | none => some false
    return {
      id := (← id.natural? UInt64.size).toUInt64
      path := ← path.text?
      name := ← name.text?
      ext := ← ext.text?
      size := (← size.natural? UInt64.size).toUInt64
      mtime := ← mtime.signed?
      isDir := ← isDir.bool?
      contentIndexed := indexed }
  | _ => none

def ofBytes? (bytes : Bytes) : Option Entry := do
  let value ← Json.read? bytes
  ofFields? (← value.fields? fieldNames)

end Entry

end VolumeSearch
