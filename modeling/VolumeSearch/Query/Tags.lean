import VolumeSearch.IdSet
import VolumeSearch.Query.Predicate

/-! Queries by tag: the predicates on tags are replaced by predicates on the keys of the tagged
entities. A query for tags that nobody carries matches nothing, rather than everything. -/
namespace VolumeSearch.Query
open VolumeSearch.Text

def tagField : String := "tag_id"

def idsField : String := "ids"

/-- A value that no key equals. -/
def noIds : String := "invalid_ids"

namespace Predicate

def isTag (p : Predicate) : Bool := p.name = tagField

/-- The tag ids a predicate names: those of a list, trimmed and without empty ones, or its
whole value. -/
def tags (p : Predicate) : List String :=
  if p.op.any Operator.isList then
    ((splitAt ',' p.value.toList).map fun id => String.ofList (trimChars id)).filter (· ≠ "")
  else [p.value]

end Predicate

def tagSide (negative : Bool) (ps : List Predicate) : List String :=
  Ascending.ofList
    ((ps.filter fun p => p.isTag && p.isNegative == negative).flatMap Predicate.tags)

/-- The lists of tags that have to be looked up, in order: included ones, then excluded ones. -/
def tagLookups (ps : List Predicate) : List (List String) :=
  [tagSide false ps, tagSide true ps].filter (· ≠ [])

def joinKeys (keys : List String) : String :=
  String.ofList (joinWith ',' (keys.map String.toList))

def includedKeys (lookup : List String → List String) (tags : List String) : List Predicate :=
  if tags = [] then []
  else
    let keys := lookup tags
    [⟨idsField, some .isIn, if keys = [] then noIds else joinKeys keys⟩]

def excludedKeys (lookup : List String → List String) (tags : List String) : List Predicate :=
  if tags = [] then []
  else
    let keys := lookup tags
    if keys = [] then [] else [⟨idsField, some .notIn, joinKeys keys⟩]

/-- The predicates with those on tags replaced by at most two on keys, at the end. Where no tag is
named they stay as they are. -/
def resolveTags (lookup : List String → List String) (ps : List Predicate) : List Predicate :=
  if tagLookups ps = [] then ps
  else
    ps.filter (!·.isTag) ++ includedKeys lookup (tagSide false ps) ++
      excludedKeys lookup (tagSide true ps)

def parseWithTags (lookup : List String → List String) (query : String) : List Predicate :=
  resolveTags lookup (parse query)

section Effects
variable {m : Type → Type} [Monad m] (lookup : List String → m (List String))

def keysM (tags : List String) : m (List String) :=
  if tags = [] then pure [] else lookup tags

/-- As `resolveTags`, with a lookup that may have effects: included tags come before excluded ones. -/
def resolveTagsM (ps : List Predicate) : m (List Predicate) :=
  if tagLookups ps = [] then pure ps
  else do
    let included ← keysM lookup (tagSide false ps)
    let excluded ← keysM lookup (tagSide true ps)
    return ps.filter (!·.isTag) ++ includedKeys (fun _ => included) (tagSide false ps) ++
      excludedKeys (fun _ => excluded) (tagSide true ps)

def parseWithTagsM (query : String) : m (List Predicate) := resolveTagsM lookup (parse query)

def logged (tags : List String) : StateT (List (List String)) m (List String) := do
  modify (· ++ [tags])
  lookup tags

end Effects

end VolumeSearch.Query
