/-! Blank characters and the pieces of a text between them.
A run is maximal, so every piece is non-empty and no two pieces touch. -/
namespace VolumeSearch.Text

/-- A character with the White_Space property. -/
def isBlank (c : Char) : Bool :=
  (0x09 ≤ c.val && c.val ≤ 0x0d) || c.val == 0x20 || c.val == 0x85 || c.val == 0xa0 ||
  c.val == 0x1680 || (0x2000 ≤ c.val && c.val ≤ 0x200a) || c.val == 0x2028 || c.val == 0x2029 ||
  c.val == 0x202f || c.val == 0x205f || c.val == 0x3000

def trimChars (s : List Char) : List Char :=
  ((s.dropWhile isBlank).reverse.dropWhile isBlank).reverse

def trim (s : String) : String := String.ofList (trimChars s.toList)

/-- The run gathered so far, last character first, followed by the runs of what is left. -/
def runsFrom (p : Char → Bool) (run : List Char) : List Char → List (List Char)
  | [] => if run.isEmpty then [] else [run.reverse]
  | c :: rest =>
    if p c then runsFrom p (c :: run) rest
    else if run.isEmpty then runsFrom p [] rest
    else run.reverse :: runsFrom p [] rest

def runs (p : Char → Bool) (s : List Char) : List (List Char) := runsFrom p [] s

/-- The pieces between the occurrences of `sep`; a text without it is one piece. -/
def splitAt (sep : Char) : List Char → List (List Char)
  | [] => [[]]
  | c :: rest =>
    if c = sep then [] :: splitAt sep rest
    else match splitAt sep rest with
      | [] => [[c]]
      | piece :: pieces => (c :: piece) :: pieces

theorem splitAt_ne_nil (sep : Char) (s : List Char) : splitAt sep s ≠ [] := by
  cases s with
  | nil => simp [splitAt]
  | cons c rest =>
    rw [splitAt]
    split
    · simp
    · split <;> simp

def joinWith (sep : Char) : List (List Char) → List Char
  | [] => []
  | [piece] => piece
  | piece :: pieces => piece ++ sep :: joinWith sep pieces

theorem joinWith_splitAt (sep : Char) (s : List Char) : joinWith sep (splitAt sep s) = s := by
  induction s with
  | nil => rfl
  | cons c rest ih =>
    rw [splitAt]
    split
    · next h =>
      cases hs : splitAt sep rest with
      | nil => exact absurd hs (splitAt_ne_nil sep rest)
      | cons p ps => rw [hs] at ih; simp [joinWith, ih, h]
    · cases hs : splitAt sep rest with
      | nil => exact absurd hs (splitAt_ne_nil sep rest)
      | cons p ps =>
        rw [hs] at ih
        cases ps with
        | nil => simpa [joinWith] using ih
        | cons q qs => simpa [joinWith] using ih

namespace Numeral

def digitsFrom (value : Nat) : List Char → Option Nat
  | [] => some value
  | c :: rest =>
    if '0' ≤ c ∧ c ≤ '9' then digitsFrom (10 * value + (c.toNat - '0'.toNat)) rest else none

def digits? (s : List Char) : Option Nat := if s.isEmpty then none else digitsFrom 0 s

/-- Digits that a plus sign may precede. -/
def natural? : List Char → Option Nat
  | '+' :: rest => digits? rest
  | s => digits? s

def unsigned? (s : List Char) : Option UInt64 :=
  (natural? s).bind fun n => if n < UInt64.size then some n.toUInt64 else none

def signed? : List Char → Option Int64
  | '-' :: rest =>
    (digits? rest).bind fun n => if n ≤ UInt64.size / 2 then some (Int64.ofInt (-(n : Int))) else none
  | s => (natural? s).bind fun n => if n < UInt64.size / 2 then some (Int64.ofInt n) else none

end Numeral

end VolumeSearch.Text
