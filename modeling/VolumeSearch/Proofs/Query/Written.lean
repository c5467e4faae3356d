import Mathlib.Data.List.Forall2
import Mathlib.Tactic.Common
import VolumeSearch.Proofs.Query.Predicate
import VolumeSearch.Proofs.Text.Blank

/-! Predicates in writing, and how they are read back. Quotes keep everything in a name or a value together but
do not hide a colon: the first one of a group parts the name from the value. -/
namespace VolumeSearch.Query
open VolumeSearch.Text

inductive Phrase where
  | field (name : String) (op : Operator) (value : String)
  | flag (name : String)
  | words (text : String)
  deriving DecidableEq, Repr

namespace Phrase

def text : Phrase → List Char
  | field name op value => quoted name.toList ++ ':' :: quoted (op.applied value.toList)
  | flag name => "is:".toList ++ quoted name.toList
  | words text => quoted text.toList

/-- The group that its text gives, with the quotes and without the backslashes. -/
def group : Phrase → List Char
  | field name op value =>
    ('"' :: name.toList ++ ['"']) ++ ':' :: ('"' :: op.applied value.toList ++ ['"'])
  | flag name => "is:".toList ++ ('"' :: name.toList ++ ['"'])
  | words text => '"' :: text.toList ++ ['"']

def predicate (negated : Bool) : Phrase → Predicate
  | field name op value => ⟨name, some (if negated then op.inverse else op), value⟩
  | flag name => ⟨name, none, "true"⟩
  | words text => ⟨textField, none, text⟩

/-- The text cannot be taken for another phrase: what comes before the colon has none, `is` makes a flag, and a
value that starts with `=` makes `>` and `<` longer. -/
def Legible : Phrase → Prop
  | field name op value => ':' ∉ name.toList ∧ name ≠ "is" ∧
    (op = .compare .gt ∨ op = .compare .lt → value.toList.head? ≠ some '=')
  | flag _ => True
  | words text => ':' ∉ text.toList

instance : DecidablePred Legible
  | field name op value => inferInstanceAs (Decidable (':' ∉ name.toList ∧ name ≠ "is" ∧
    (op = .compare .gt ∨ op = .compare .lt → value.toList.head? ≠ some '=')))
  | flag _ => isTrue trivial
  | words text => inferInstanceAs (Decidable (':' ∉ text.toList))

theorem spells_text (p : Phrase) : Spells p.text p.group := by
  have hcolon : Spells [':'] [':'] := IsBare.spells (by decide)
  cases p with
  | field name op value =>
    exact (spells_quoted name.toList).append (hcolon.append (spells_quoted (op.applied value.toList)))
  | flag name =>
    have his : Spells ['i', 's'] ['i', 's'] := IsBare.spells (by decide)
    exact his.append (hcolon.append (spells_quoted name.toList))
  | words text => exact spells_quoted text.toList

theorem group_ne_nil (p : Phrase) : p.group ≠ [] := by
  cases p <;> exact List.cons_ne_nil _ _

theorem quote_mem_text (p : Phrase) : '"' ∈ p.text := by
  cases p <;> simp [text, quoted]

theorem ofGroup?_group {p : Phrase} (h : p.Legible) : ofGroup? p.group = some (p.predicate false) := by
  have hcolon {s : List Char} (hs : ':' ∉ s) : ':' ∉ '"' :: s ++ ['"'] := by simpa using hs
  cases p with
  | field name op value =>
    obtain ⟨hname, hflag, hvalue⟩ := h
    have hfield : name.toList ≠ "is".toList := fun his => hflag (String.toList_inj.mp his)
    rw [group, ofGroup?_colon (hcolon hname)]
    simp only [unquote_quotes, if_neg hfield, splitOperator_applied op hvalue, String.ofList_toList]
    rfl
  | flag name =>
    have hsplit : group (flag name) = "is".toList ++ ':' :: ('"' :: name.toList ++ ['"']) := rfl
    have his : unquote "is".toList = "is".toList := by decide
    rw [hsplit, ofGroup?_colon (by decide), if_pos his, unquote_quotes, String.ofList_toList]
    rfl
  | words text =>
    have hnot : group (words text) ≠ "NOT".toList := by simp [group]
    have hnone : splitColon? (group (words text)) = none := splitColon?_eq_none.mpr (hcolon h)
    rw [ofGroup?, if_neg hnot, hnone, group, unquote_quotes, String.ofList_toList]
    rfl

end Phrase

structure Clause where
  negated : Bool
  phrase : Phrase
  deriving DecidableEq, Repr

namespace Clause

def texts (c : Clause) : List (List Char) :=
  if c.negated then ["NOT".toList, c.phrase.text] else [c.phrase.text]

def groups (c : Clause) : List (List Char) :=
  if c.negated then ["NOT".toList, c.phrase.group] else [c.phrase.group]

def predicate (c : Clause) : Predicate := c.phrase.predicate c.negated

theorem text_mem_texts (c : Clause) : c.phrase.text ∈ c.texts := by
  unfold texts
  split <;> simp

theorem mem_groups {c : Clause} {g : List Char} (h : g ∈ c.groups) : g = "NOT".toList ∨ g = c.phrase.group := by
  unfold groups at h
  split at h
  · simpa using h
  · exact .inr (List.mem_singleton.mp h)

end Clause

def render (cs : List Clause) : String := String.ofList (joinWith ' ' (cs.flatMap Clause.texts))

private theorem spells_clause (c : Clause) : List.Forall₂ Spells c.texts c.groups := by
  have hnot : Spells "NOT".toList "NOT".toList := IsBare.spells (by decide)
  unfold Clause.texts Clause.groups
  split
  · exact .cons hnot (.cons c.phrase.spells_text .nil)
  · exact .cons c.phrase.spells_text .nil

/-- Spaces part the clauses, and nothing else does. -/
private theorem groups_clauses (cs : List Clause) :
    groups (joinWith ' ' (cs.flatMap Clause.texts)) = cs.flatMap Clause.groups := by
  have hspells : List.Forall₂ Spells (cs.flatMap Clause.texts) (cs.flatMap Clause.groups) := by
    induction cs with
    | nil => exact .nil
    | cons c rest ih => exact List.rel_append (spells_clause c) ih
  apply groups_joinWith hspells
  intro g hg
  obtain ⟨c, -, hg⟩ := List.mem_flatMap.mp hg
  rcases Clause.mem_groups hg with rfl | rfl
  · exact List.cons_ne_nil _ _
  · exact c.phrase.group_ne_nil

/-- The groups of one clause after the other are read as their predicates; `NOT` counts for the phrase after
it and for no other. -/
private theorem ofGroups_clauses {cs : List Clause} (h : ∀ c ∈ cs, c.phrase.Legible) :
    ofGroups false (cs.flatMap Clause.groups) = cs.map Clause.predicate := by
  induction cs with
  | nil => rfl
  | cons c rest ih =>
    have hread := Phrase.ofGroup?_group (h c List.mem_cons_self)
    have hrest := ih fun c hc => h c (List.mem_cons_of_mem _ hc)
    rw [List.flatMap_cons, List.map_cons, Clause.groups, Clause.predicate, ← hrest]
    cases c.negated with
    | false => simp [ofGroups, hread]
    | true =>
      have hkeyword : ofGroup? "NOT".toList = none := rfl
      have hinverted : (c.phrase.predicate false).inverted = c.phrase.predicate true := by
        cases c.phrase <;> rfl
      simp only [if_true, List.cons_append, List.nil_append, ofGroups, hkeyword, hread, hinverted]

/-- Clauses in writing are read back as their predicates, in order, with the operators inverted where `NOT`
stands and nowhere else. -/
theorem parse_render {cs : List Clause} (h : ∀ c ∈ cs, c.phrase.Legible) :
    parse (render cs) = cs.map Clause.predicate := by
  cases cs with
  | nil => rfl
  | cons c rest =>
    have hquote : '"' ∈ joinWith ' ' ((c :: rest).flatMap Clause.texts) :=
      mem_joinWith (List.mem_append_left _ c.text_mem_texts) c.phrase.quote_mem_text
    rw [render, parse_of_groups hquote (by decide) (groups_clauses (c :: rest)), ofGroups_clauses h]

def sampleClauses : List Clause :=
  [⟨true, .field "file size" (.compare .ge) "=1\"GB\\"⟩, ⟨false, .field "tag'id" .notIn "a, b)"⟩,
    ⟨true, .words "NOT"⟩, ⟨false, .flag "is:a"⟩]

theorem parse_sample_render : (∀ c ∈ sampleClauses, c.phrase.Legible) ∧
    parse (render sampleClauses) = sampleClauses.map Clause.predicate ∧
    (render sampleClauses =
      "NOT \"file size\":\">==1\\\"GB\\\\\" \"tag'id\":\"nin(a, b))\" NOT \"NOT\" is:\"is:a\"") ∧
    sampleClauses.map Clause.predicate =
      [⟨"file size", some (.compare .lt), "=1\"GB\\"⟩, ⟨"tag'id", some .notIn, "a, b)"⟩,
        ⟨"text", none, "NOT"⟩, ⟨"is:a", none, "true"⟩] := by
  have hlegible : ∀ c ∈ sampleClauses, c.phrase.Legible := by decide
  exact ⟨hlegible, parse_render hlegible, by decide, by decide⟩

end VolumeSearch.Query
