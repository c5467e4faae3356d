import VolumeSearch.Bytes

/-! JSON, written and read. A string that was read keeps its escapes, because the value of one that
nobody asks for need not be a text; a number keeps only what an integer field can accept. -/
namespace VolumeSearch.Json

/-- A character as it stands between the quotes: quotes, backslashes and the characters below the
space are escaped, with one letter where JSON has one. -/
def escapeChar (c : Char) : List Char :=
  if c = '"' then ['\\', '"']
  else if c = '\\' then ['\\', '\\']
  else if c = '\x08' then ['\\', 'b']
  else if c = '\x0c' then ['\\', 'f']
  else if c = '\n' then ['\\', 'n']
  else if c = '\r' then ['\\', 'r']
  else if c = '\t' then ['\\', 't']
  else if c.toNat < 0x10 then ['\\', 'u', '0', '0', '0', Nat.digitChar c.toNat]
  else if c.toNat < 0x20 then ['\\', 'u', '0', '0', '1', Nat.digitChar (c.toNat - 0x10)]
  else [c]

def quote (s : String) : String := String.ofList ('"' :: s.toList.flatMap escapeChar ++ ['"'])

inductive Piece where
  /-- One byte of UTF-8, written as itself or by a one-letter escape. -/
  | byte (b : UInt8)
  /-- A UTF-16 code unit, written by its four hexadecimal digits. -/
  | unit (n : Nat)
  deriving DecidableEq

inductive Number where
  | integer (negative : Bool) (magnitude : Nat)
  | decimal
  deriving DecidableEq

inductive Value where
  | null
  | bool (b : Bool)
  | number (n : Number)
  | string (body : List Piece)
  | list (items : List Value)
  | object (members : List (List Piece × Value))

/-- The UTF-8 bytes of a string body; surrogates must come in pairs. -/
def utf8? : List Piece → Option Bytes
  | [] => some []
  | .byte b :: rest => (utf8? rest).map (b :: ·)
  | .unit high :: rest =>
    if 0xd800 ≤ high ∧ high < 0xdc00 then
      match rest with
      | .unit low :: rest =>
        if 0xdc00 ≤ low ∧ low < 0xe000 then
          (utf8? rest).map (String.utf8EncodeChar
            (Char.ofNat (0x10000 + (high - 0xd800) * 0x400 + (low - 0xdc00))) ++ ·)
        else none
      | _ => none
    else if 0xdc00 ≤ high ∧ high < 0xe000 then none
    else (utf8? rest).map (String.utf8EncodeChar (Char.ofNat high) ++ ·)

def bodyText? (body : List Piece) : Option String := (utf8? body).bind Bytes.text?

namespace Value

def text? : Value → Option String
  | string body => bodyText? body
  | _ => none

def bool? : Value → Option Bool
  | bool b => some b
  | _ => none

/-- An integer below `bound`; a sign makes it none, even that of minus zero. -/
def natural? (bound : Nat) : Value → Option Nat
  | number (.integer false n) => if n < bound then some n else none
  | _ => none

/-- An integer of a signed 64-bit word; minus zero is none. -/
def signed? : Value → Option Int64
  | number (.integer false n) => if n < UInt64.size / 2 then some (Int64.ofInt n) else none
  | number (.integer true n) =>
    if 0 < n ∧ n ≤ UInt64.size / 2 then some (Int64.ofInt (-(n : Int))) else none
  | _ => none

def optionalText? : Value → Option (Option String)
  | null => some none
  | v => v.text?.map some

def texts? : Value → Option (List String)
  | list items => items.mapM text?
  | _ => none

/-- The values of the named fields, each given at most once. An object may hold other members,
which count for nothing; a list gives the fields in order and may stop early. -/
def fields? (names : List String) : Value → Option (List (Option Value))
  | object members => do
    let named ← members.mapM fun (key, v) => (bodyText? key).map (·, v)
    names.mapM fun name =>
      match named.filter fun member => member.1 = name with
      | [] => some none
      | [(_, v)] => some (some v)
      | _ => none
  | list items =>
    if items.length ≤ names.length then
      some (items.map some ++ List.replicate (names.length - items.length) none)
    else none
  | _ => none

def members? : Value → Option (List (String × Value))
  | object members => members.mapM fun (key, v) => (bodyText? key).map (·, v)
  | _ => none

end Value

def isBlank (b : UInt8) : Bool := b == 0x20 || b == 0x09 || b == 0x0a || b == 0x0d

def skipBlanks (bytes : Bytes) : Bytes := bytes.dropWhile isBlank

def isDigit (b : UInt8) : Bool := 0x30 ≤ b && b ≤ 0x39

def hexDigit? (b : UInt8) : Option Nat :=
  if isDigit b then some (b.toNat - 0x30)
  else if 0x61 ≤ b ∧ b ≤ 0x66 then some (b.toNat - 0x61 + 10)
  else if 0x41 ≤ b ∧ b ≤ 0x46 then some (b.toNat - 0x41 + 10)
  else none

def escaped? (b : UInt8) : Option UInt8 :=
  if b = 0x22 ∨ b = 0x5c ∨ b = 0x2f then some b
  else if b = 0x62 then some 0x08
  else if b = 0x66 then some 0x0c
  else if b = 0x6e then some 0x0a
  else if b = 0x72 then some 0x0d
  else if b = 0x74 then some 0x09
  else none

/-- The rest of a string after its opening quote, up to and with the closing one. Control
characters must be escaped. -/
def readBody : Bytes → Option (List Piece × Bytes)
  | 0x22 :: rest => some ([], rest)
  | 0x5c :: 0x75 :: a :: b :: c :: d :: rest => do
    let n := (← hexDigit? a) * 0x1000 + (← hexDigit? b) * 0x100 + (← hexDigit? c) * 0x10 +
      (← hexDigit? d)
    let (body, rest) ← readBody rest
    return (.unit n :: body, rest)
  | 0x5c :: e :: rest => do
    let b ← escaped? e
    let (body, rest) ← readBody rest
    return (.byte b :: body, rest)
  | b :: rest =>
    if b < 0x20 ∨ b = 0x5c then none
    else do
      let (body, rest) ← readBody rest
      return (.byte b :: body, rest)
  | [] => none

def readDigits (bytes : Bytes) : Option (Bytes × Bytes) :=
  let digits := bytes.takeWhile isDigit
  if digits.isEmpty then none else some (digits, bytes.dropWhile isDigit)

def digitsValue (digits : Bytes) : Nat := digits.foldl (fun n b => 10 * n + (b.toNat - 0x30)) 0

def readFraction : Bytes → Option (Bool × Bytes)
  | 0x2e :: rest => (readDigits rest).map fun (_, rest) => (true, rest)
  | bytes => some (false, bytes)

def readExponent (bytes : Bytes) : Option (Bool × Bytes) :=
  match bytes with
  | e :: rest =>
    if e = 0x65 ∨ e = 0x45 then
      let rest := match rest with
        | s :: more => if s = 0x2b ∨ s = 0x2d then more else s :: more
        | [] => []
      (readDigits rest).map fun (_, rest) => (true, rest)
    else some (false, bytes)
  | [] => some (false, [])

/-- An integer part without leading zeros, then a fraction and an exponent, both optional. -/
def readMagnitude (negative : Bool) (bytes : Bytes) : Option (Number × Bytes) := do
  let (digits, rest) ← readDigits bytes
  if digits.head? = some 0x30 ∧ 1 < digits.length then none
  else
    let (fraction, rest) ← readFraction rest
    let (exponent, rest) ← readExponent rest
    if fraction || exponent then return (.decimal, rest)
    else return (.integer negative (digitsValue digits), rest)

def readNumber : Bytes → Option (Number × Bytes)
  | 0x2d :: rest => readMagnitude true rest
  | bytes => readMagnitude false bytes

def readWord : Bytes → Bytes → Option Bytes
  | [], bytes => some bytes
  | _ :: _, [] => none
  | w :: ws, b :: bytes => if w = b then readWord ws bytes else none

mutual
/-- One value. Every nesting level and every item takes some of the fuel, and twice the number of
bytes is enough. -/
def readValue : Nat → Bytes → Option (Value × Bytes)
  | 0, _ => none
  | fuel + 1, bytes =>
    match skipBlanks bytes with
    | 0x7b :: rest =>
      match skipBlanks rest with
      | 0x7d :: rest => some (.object [], rest)
      | rest => (readMembers fuel rest).map fun (members, rest) => (.object members, rest)
    | 0x5b :: rest =>
      match skipBlanks rest with
      | 0x5d :: rest => some (.list [], rest)
      | rest => (readItems fuel rest).map fun (items, rest) => (.list items, rest)
    | 0x22 :: rest => (readBody rest).map fun (body, rest) => (.string body, rest)
    | 0x6e :: rest => (readWord [0x75, 0x6c, 0x6c] rest).map (.null, ·)
    | 0x74 :: rest => (readWord [0x72, 0x75, 0x65] rest).map (.bool true, ·)
    | 0x66 :: rest => (readWord [0x61, 0x6c, 0x73, 0x65] rest).map (.bool false, ·)
    | rest => (readNumber rest).map fun (n, rest) => (.number n, rest)

def readItems : Nat → Bytes → Option (List Value × Bytes)
  | 0, _ => none
  | fuel + 1, bytes => do
    let (item, rest) ← readValue fuel bytes
    match skipBlanks rest with
    | 0x2c :: rest =>
      let (items, rest) ← readItems fuel rest
      return (item :: items, rest)
    | 0x5d :: rest => return ([item], rest)
    | _ => none

def readMembers : Nat → Bytes → Option (List (List Piece × Value) × Bytes)
  | 0, _ => none
  | fuel + 1, bytes => do
    match skipBlanks bytes with
    | 0x22 :: rest =>
      let (key, rest) ← readBody rest
      match skipBlanks rest with
      | 0x3a :: rest =>
        let (value, rest) ← readValue fuel rest
        match skipBlanks rest with
        | 0x2c :: rest =>
          let (members, rest) ← readMembers fuel rest
          return ((key, value) :: members, rest)
        | 0x7d :: rest => return ([(key, value)], rest)
        | _ => none
      | _ => none
    | _ => none
end

/-- The value of a whole text. -/
def read? (bytes : Bytes) : Option Value :=
  match readValue (2 * bytes.length + 1) bytes with
  | some (value, rest) => if (skipBlanks rest).isEmpty then some value else none
  | none => none

end VolumeSearch.Json
