import VolumeSearch.Bytes

/-! Variable-length integers: seven bits a byte, least significant first, and a high bit on every
byte but the last. A 64-bit word takes at most ten bytes. -/
namespace VolumeSearch.Postings.Varint

def maxLength : Nat := 10

/-- Seven bits at a time until the rest fits in one byte, in at most `room` bytes. -/
def encodeWithin : Nat → Nat → Bytes
  | 0, _ => []
  | room + 1, value =>
    if value < 0x80 then [value.toUInt8]
    else (value % 0x80 + 0x80).toUInt8 :: encodeWithin room (value / 0x80)

def encode (value : UInt64) : Bytes := encodeWithin maxLength value.toNat

/-- Reads on after `index` bytes worth `value`. The tenth byte may only hold the one bit that is
left of the word. -/
def decodeFrom (index value : Nat) : Bytes → Option (Nat × Nat)
  | [] => none
  | b :: rest =>
    if index = maxLength - 1 ∧ 1 < b then none
    else
      let value := value + (b.toNat % 0x80) <<< (7 * index)
      if b < 0x80 then some (value, index + 1)
      else if maxLength ≤ index + 1 then none
      else decodeFrom (index + 1) value rest

def decode (bytes : Bytes) : Option (UInt64 × Nat) :=
  (decodeFrom 0 0 bytes).map fun (value, used) => (value.toUInt64, used)

end VolumeSearch.Postings.Varint

namespace VolumeSearch

abbrev FileId := UInt64

namespace Postings

/-- Distances between neighbours of an ascending list, the first counted from `previous`. -/
def encodeGaps (previous : FileId) : List FileId → Bytes
  | [] => []
  | id :: rest => Varint.encode (id - previous) ++ encodeGaps id rest

def encode (ids : List FileId) : Bytes :=
  Varint.encode ids.length.toUInt64 ++ encodeGaps 0 ids

inductive DecodeError where
  | badCount
  | badGap
  | gapOverflow
  deriving DecidableEq, Repr

def DecodeError.message : DecodeError → String
  | badCount => "bad doc count"
  | badGap => "bad delta"
  | gapOverflow => "delta overflow"

/-- At most `limit` ids after `previous`; bytes that end between two ids end the list. -/
def decodeGaps : Nat → FileId → Bytes → Except DecodeError (List FileId)
  | 0, _, _ => .ok []
  | _ + 1, _, [] => .ok []
  | limit + 1, previous, bytes =>
    match Varint.decode bytes with
    | none => .error .badGap
    | some (gap, used) =>
      if UInt64.size ≤ previous.toNat + gap.toNat then .error .gapOverflow
      else do
        let rest ← decodeGaps limit (previous + gap) (bytes.drop used)
        return (previous + gap) :: rest

/-- The number of ids to read of `count` stored ones; no cap and a cap of zero set no limit. -/
def capped (count : Nat) : Option Nat → Nat
  | none | some 0 => count
  | some cap => min count cap

/-- The ids of a record, at most `cap` of them when a positive cap is given. -/
def decode (bytes : Bytes) (cap : Option Nat) : Except DecodeError (List FileId) :=
  match Varint.decode bytes with
  | none => .error .badCount
  | some (count, used) => decodeGaps (capped count.toNat cap) 0 (bytes.drop used)

end Postings

end VolumeSearch

namespace VolumeSearch.Postings

structure Span where
  offset : UInt64
  length : UInt32
  deriving DecidableEq, Repr

namespace Span

/-- Bytes of one record: eight for the offset and four for the length. -/
def width : Nat := 12

def encode (s : Span) : Bytes :=
  Bytes.ofNat 8 s.offset.toNat ++ Bytes.ofNat 4 s.length.toNat

def decode? (bytes : Bytes) : Option Span :=
  if (bytes.take width).length = width then
    some ⟨(Bytes.toNat (bytes.take 8)).toUInt64, (Bytes.toNat ((bytes.drop 8).take 4)).toUInt32⟩
  else none

/-- The record of a term id. Id zero names no term, and a record that the table does not hold in
full is not there. -/
def find? (table : Bytes) (id : UInt32) : Option Span :=
  if id = 0 then none else decode? (table.drop ((id.toNat - 1) * width))

end Span

end VolumeSearch.Postings
