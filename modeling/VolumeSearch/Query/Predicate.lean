import VolumeSearch.Comparison
import VolumeSearch.Json
import VolumeSearch.Text.Basic
import VolumeSearch.Text.Quoted

/-! Queries as lists of predicates. Quotes keep gaps inside a group and stay part of it; a backslash
takes the meaning away from the next character and is dropped. No query is refused. -/
namespace VolumeSearch.Query
open VolumeSearch.Text

inductive Operator where
  | compare (op : Comparison)
  | isIn
  | notIn
  deriving DecidableEq, Repr

structure UnknownOperator where
  symbol : String

def UnknownOperator.message (e : UnknownOperator) : String :=
  "unknown operator: " ++ Quoted.encode e.symbol

namespace Operator

def symbol : Operator → String
  | compare op => op.symbol
  | isIn => "in"
  | notIn => "nin"

def inverse : Operator → Operator
  | compare op => compare op.inverse
  | isIn => notIn
  | notIn => isIn

theorem inverse_inverse (op : Operator) : op.inverse.inverse = op := by
  cases op <;> simp [inverse, Comparison.inverse_inverse]

def isNegative : Operator → Bool
  | compare .ne | notIn => true
  | _ => false

def comparison? : Operator → Option Comparison
  | compare op => some op
  | _ => none

def isList : Operator → Bool
  | compare _ => false
  | _ => true

def comparisonOfText (s : String) : Except UnknownOperator Comparison :=
  match Comparison.ofSymbol? s with
  | some op => .ok op
  | none => .error ⟨s⟩

def ofText (s : String) : Except UnknownOperator Operator :=
  if s = "in" then .ok isIn
  else if s = "nin" then .ok notIn
  else (comparisonOfText s).map compare

end Operator

/-- The groups read so far, the characters of the group being read, last one first, and what the
characters after them depend on. -/
structure Splitter where
  groups : List (List Char) := []
  group : List Char := []
  quote : Option Char := none
  /-- The last character was a backslash that counts. -/
  escaped : Bool := false
  deriving DecidableEq

namespace Splitter

def isGap (c : Char) : Bool := c = ' ' || c = '\t' || c = '\n' || c = '\r'

def isQuote (c : Char) : Bool := c = '"' || c = '\''

def take (s : Splitter) (c : Char) : Splitter := { s with group := c :: s.group }

/-- Ends the group; an empty one is none. -/
def close (s : Splitter) : Splitter :=
  if s.group.isEmpty then s else { s with groups := s.groups ++ [s.group.reverse], group := [] }

def step (s : Splitter) (c : Char) : Splitter :=
  if s.escaped then { s.take c with escaped := false }
  else if c = '\\' then { s with escaped := true }
  else match s.quote with
    | some q => if c = q then { s.take c with quote := none } else s.take c
    | none =>
      if isQuote c then { s.take c with quote := some c }
      else if isGap c then s.close
      else s.take c

def run (s : Splitter) (text : List Char) : Splitter := text.foldl step s

end Splitter

def groups (text : List Char) : List (List Char) := (Splitter.run {} text).close.groups

structure Predicate where
  name : String
  /-- Free text and flags have no operator. -/
  op : Option Operator
  value : String
  deriving DecidableEq, Repr

def textField : String := "text"

namespace Predicate

def comparison? (p : Predicate) : Option Comparison := p.op.bind Operator.comparison?

def isNegative (p : Predicate) : Bool := p.op.any Operator.isNegative

/-- The predicate after `NOT`; without an operator it stays as it is. -/
def inverted (p : Predicate) : Predicate := { p with op := p.op.map Operator.inverse }

end Predicate

/-- A group without the pair of equal quotes around it. -/
def unquote (s : List Char) : List Char :=
  match s with
  | [] => []
  | q :: rest => if Splitter.isQuote q ∧ rest.getLast? = some q then rest.dropLast else s

def listAfter? (opening value : List Char) : Option (List Char) :=
  match Comparison.after? opening value with
  | some rest => if rest.getLast? = some ')' then some rest.dropLast else none
  | none => none

/-- The operator at the start of a value, and the value it leaves. A value without one is compared
for equality. -/
def splitOperator (value : List Char) : Operator × List Char :=
  match listAfter? "nin(".toList value with
  | some list => (.notIn, list)
  | none =>
    match listAfter? "in(".toList value with
    | some list => (.isIn, list)
    | none =>
      match Comparison.strip? value with
      | some (op, rest) => (.compare op, rest)
      | none => (.compare .eq, value)

def splitColon? : List Char → Option (List Char × List Char)
  | [] => none
  | c :: rest =>
    if c = ':' then some ([], rest)
    else (splitColon? rest).map fun (field, value) => (c :: field, value)

/-- The predicate of a group; `NOT` is none. -/
def ofGroup? (group : List Char) : Option Predicate :=
  if group = "NOT".toList then none
  else match splitColon? group with
    | none => some ⟨textField, none, String.ofList (unquote group)⟩
    | some (field, rest) =>
      let field := unquote field
      let rest := unquote rest
      if field = "is".toList then some ⟨String.ofList rest, none, "true"⟩
      else
        let (op, value) := splitOperator rest
        some ⟨String.ofList field, some op, String.ofList value⟩

/-- The predicates of groups; `invert` says that a `NOT` precedes them. -/
def ofGroups (invert : Bool) : List (List Char) → List Predicate
  | [] => []
  | group :: rest =>
    match ofGroup? group with
    | none => ofGroups true rest
    | some p => (if invert then p.inverted else p) :: ofGroups false rest

/-- The predicates of a query, none when it is blank. -/
def parse (query : String) : List Predicate :=
  if query.toList.all isBlank then [] else ofGroups false (groups query.toList)

namespace Predicate

def opJson : Option Operator → String
  | some op => Json.quote op.symbol
  | none => "null"

/-- The lines of one predicate; `more` says that another follows. -/
def lines (more : Bool) (p : Predicate) : List String :=
  ["  \x7b", "    \"name\": " ++ Json.quote p.name ++ ",", "    \"op\": " ++ opJson p.op ++ ",",
    "    \"value\": " ++ Json.quote p.value, if more then "  \x7d," else "  \x7d"]

def linesOfAll : List Predicate → List String
  | [] => []
  | p :: rest => p.lines (!rest.isEmpty) ++ linesOfAll rest

end Predicate

def listed (ps : List Predicate) : List String :=
  if ps.isEmpty then ["[]"] else "[" :: Predicate.linesOfAll ps ++ ["]"]

end VolumeSearch.Query
