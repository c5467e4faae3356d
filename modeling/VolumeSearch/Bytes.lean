namespace VolumeSearch

abbrev Bytes := List UInt8

namespace Bytes

def ofText (s : String) : Bytes := s.toUTF8.toList

def text? (b : Bytes) : Option String := String.fromUTF8? ⟨b.toArray⟩

/-- The `count` low bytes of a number, least significant first. -/
def ofNat : Nat → Nat → Bytes
  | 0, _ => []
  | count + 1, value => value.toUInt8 :: ofNat count (value / 256)

def toNat : Bytes → Nat
  | [] => 0
  | b :: rest => b.toNat + 256 * toNat rest

@[simp] theorem length_ofNat (count value : Nat) : (ofNat count value).length = count := by
  induction count generalizing value with
  | zero => rfl
  | succ count ih => simp [ofNat, ih]

theorem toNat_ofNat (count value : Nat) (h : value < 1 <<< (8 * count)) :
    toNat (ofNat count value) = value := by
  induction count generalizing value with
  | zero =>
    obtain rfl : value = 0 := Nat.lt_one_iff.mp h
    rfl
  | succ count ih =>
    have hd : value / 256 < 1 <<< (8 * count) := by
      rw [Nat.shiftLeft_eq, Nat.mul_succ, Nat.pow_add] at h
      rw [Nat.shiftLeft_eq]
      omega
    simp only [ofNat, toNat, ih _ hd, Nat.toUInt8, UInt8.toNat_ofNat']
    omega

end Bytes

/-- The contents of a file. A run of zero bytes at the end is kept as its length, so that a sparse
file takes no room. -/
structure Contents where
  data : Bytes
  zeros : Nat := 0
  deriving DecidableEq

namespace Contents

def ofBytes (data : Bytes) : Contents := ⟨data, 0⟩

def ofText (s : String) : Contents := ofBytes (Bytes.ofText s)

def empty : Contents := ofBytes []

def size (c : Contents) : Nat := c.data.length + c.zeros

def toBytes (c : Contents) : Bytes := c.data ++ List.replicate c.zeros 0

def slice (c : Contents) (start length : Nat) : Bytes :=
  let data := (c.data.drop start).take length
  data ++ List.replicate (min (length - data.length) (c.size - start - data.length)) 0

/-- The bytes of a text file. None holds a zero byte, so a file that ends in a run of them is
not one. -/
def plain? (c : Contents) : Option Bytes := if c.zeros = 0 then some c.data else none

/-- The contents after bytes are written over them from the start. What lies beyond stays. -/
def overwrite (c : Contents) (data : Bytes) : Contents :=
  ⟨data ++ c.data.drop data.length, c.size - max data.length c.data.length⟩

theorem toBytes_overwrite (c : Contents) (data : Bytes) :
    (c.overwrite data).toBytes = data ++ c.toBytes.drop data.length := by
  simp only [overwrite, toBytes, size, List.append_assoc, List.drop_append, List.drop_replicate]
  congr 3
  omega

theorem overwrite_empty (data : Bytes) : empty.overwrite data = ofBytes data := by
  simp [overwrite, empty, ofBytes, size]

end Contents

end VolumeSearch
