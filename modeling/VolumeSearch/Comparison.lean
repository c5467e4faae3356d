namespace VolumeSearch

inductive Comparison where
  | eq | ne | gt | ge | lt | le
  deriving DecidableEq, Repr

namespace Comparison

def symbol : Comparison → String
  | eq => "="
  | ne => "!="
  | gt => ">"
  | ge => ">="
  | lt => "<"
  | le => "<="

def inverse : Comparison → Comparison
  | eq => ne
  | ne => eq
  | gt => le
  | le => gt
  | ge => lt
  | lt => ge

theorem inverse_inverse (op : Comparison) : op.inverse.inverse = op := by cases op <;> rfl

def holds {α : Type} [LT α] [LE α] [DecidableEq α] [DecidableLT α] [DecidableLE α]
    (op : Comparison) (lhs rhs : α) : Bool :=
  match op with
  | eq => lhs == rhs
  | ne => lhs != rhs
  | gt => rhs < lhs
  | ge => rhs ≤ lhs
  | lt => lhs < rhs
  | le => lhs ≤ rhs

/-- Whether a range of values, known by its rank, may hold one that compares this way with a
target of the given rank. The target's own range lies on both sides of it. -/
def admits (op : Comparison) (rank target : Int) : Bool :=
  match op with
  | gt | ge => target ≤ rank
  | lt | le => rank ≤ target
  | eq => rank == target
  | ne => true

def all : List Comparison := [le, ge, ne, eq, gt, lt]

def ofSymbol? (s : String) : Option Comparison := all.find? fun op => op.symbol = s

def after? : List Char → List Char → Option (List Char)
  | [], s => some s
  | _ :: _, [] => none
  | p :: ps, c :: cs => if p = c then after? ps cs else none

/-- The comparison at the start of a text, and what follows. Trying the longer symbols first
keeps `>=` from being read as `>`. -/
def strip? (s : List Char) : Option (Comparison × List Char) :=
  all.findSome? fun op => (after? op.symbol.toList s).map (op, ·)

end Comparison

end VolumeSearch
