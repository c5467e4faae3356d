import VolumeSearch.Comparison
import VolumeSearch.SlashPath
import VolumeSearch.Text.Basic

namespace VolumeSearch
open VolumeSearch.Text

/-- An exact comparison of sizes. -/
structure SizeFilter where
  op : Comparison
  bytes : UInt64
  deriving DecidableEq, Repr

namespace SizeFilter

def accepts (f : SizeFilter) (size : UInt64) : Bool := f.op.holds size f.bytes

end SizeFilter

namespace SizeText

def units : List (List Char × Nat) :=
  [(['g', 'b'], 1 <<< 30), (['m', 'b'], 1 <<< 20), (['k', 'b'], 1 <<< 10), (['b'], 1)]

def before? (unit text : List Char) : Option (List Char) :=
  let kept := text.length - unit.length
  if (text.drop kept).map Char.toLower = unit then some (text.take kept) else none

def splitUnit (text : List Char) : List Char × Nat :=
  match units.findSome? fun (unit, bytes) => (before? unit text).map (·, bytes) with
  | some split => split
  | none => (text, 1)

/-- The bytes a text stands for, at most the largest word. What is no size stands for zero. -/
def read (text : String) : UInt64 :=
  let (number, bytes) := splitUnit (trimChars text.toList)
  match Numeral.unsigned? (trimChars number) with
  | some n => (min (n.toNat * bytes) (UInt64.size - 1)).toUInt64
  | none => 0

end SizeText

namespace Search

structure Request where
  /-- Free text, or a path when it holds a slash. -/
  text : String
  /-- Where to search: what found paths start with, and what a relative path is below. -/
  parent : String
  offset : Nat
  /-- Zero asks for the default. -/
  limit : Nat
  size : Option SizeFilter
  deriving DecidableEq, Repr

def defaultLimit : Nat := 100

def maxLimit : Nat := 500

def page (paths : List String) (offset limit : Nat) : List String := (paths.drop offset).take limit

/-- A `page`, cut with sums that stop at the largest machine word: first what is behind it goes, then
what is before it. -/
def slice (paths : List String) (offset limit : Nat) : List String :=
  if paths.length ≤ offset then []
  else
    let stop := min (offset + limit) (UInt64.size - 1)
    (paths.take (min stop paths.length)).drop offset

structure Plan where
  text : String
  parent : String
  offset : Nat
  limit : Nat
  size : Option SizeFilter
  byPath : Bool
  /-- The cleaned path of a query by path, the text otherwise. -/
  target : String
  deriving DecidableEq, Repr

def pageLimit (limit : Nat) : Nat := if limit = 0 then defaultLimit else min limit maxLimit

/-- The path that a text is about: relative ones are below the parent. -/
def targetPath (parent text : String) : String :=
  SlashPath.clean
    (if parent ≠ "" ∧ ¬ SlashPath.isRooted text then SlashPath.join parent text else text)

def Request.plan (r : Request) : Plan :=
  let text := trim r.text
  let parent := SlashPath.slashes r.parent
  let byPath := text.toList.contains '/'
  { text, parent, byPath
    offset := r.offset
    limit := pageLimit r.limit
    size := r.size
    target := if byPath then targetPath parent text else text }

namespace Plan

def page (p : Plan) (paths : List String) : List String := Search.page paths p.offset p.limit

def onOrBelow (p : Plan) (path : String) : Bool :=
  path = p.target || (p.target ++ "/").toList.isPrefixOf path.toList

/-- The paths a plan may find. A query by path is confined to what lies below its path when that
is an indexed directory, `directory` being that path with a slash, and to the path and what lies
below it otherwise. -/
def inScope (p : Plan) (directory : Option String) (path : String) : Bool :=
  if p.byPath then
    match directory with
    | some dir => if dir = "" then p.onOrBelow path else dir.toList.isPrefixOf path.toList
    | none => p.onOrBelow path
  else p.parent = "" || p.parent.toList.isPrefixOf path.toList

end Plan

end Search

end VolumeSearch
