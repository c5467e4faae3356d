import Mathlib.Tactic.Common
import VolumeSearch.Proofs.Query.Predicate

/-! What quotes and backslashes hide. The splitter drops the backslashes and keeps the quotes, and the reader
of a group cannot tell what they stood for: a colon parts the group wherever it is, and backslashes do not take
the meaning from `NOT` or from quotes around the group. -/
namespace VolumeSearch.Query
open VolumeSearch.Text

def IsWrapped (s : List Char) : Prop := ∃ q inner, Splitter.isQuote q = true ∧ s = q :: inner ++ [q]

theorem isWrapped_cons {q : Char} {rest : List Char} :
    IsWrapped (q :: rest) ↔ Splitter.isQuote q = true ∧ rest.getLast? = some q := by
  rw [List.getLast?_eq_some_iff]
  constructor
  · rintro ⟨q', inner, hquote, heq⟩
    obtain ⟨rfl, rfl⟩ := List.cons.inj heq
    exact ⟨hquote, inner, rfl⟩
  · rintro ⟨hquote, inner, rfl⟩
    exact ⟨q, inner, hquote, rfl⟩

theorem unquote_eq_self {s : List Char} : unquote s = s ↔ ¬ IsWrapped s := by
  cases s with
  | nil => exact iff_of_true rfl fun ⟨q, inner, _, h⟩ => List.cons_ne_nil q _ h.symm
  | cons q rest =>
    rw [isWrapped_cons, unquote]
    split
    · next h =>
      have hshorter : rest.dropLast ≠ q :: rest := by
        intro heq
        have hlength := congrArg List.length heq
        rw [List.length_dropLast, List.length_cons] at hlength
        omega
      exact iff_of_false hshorter fun hnot => hnot h
    · next h => exact iff_of_true rfl h

/-- A group is free text with a given value only by way of what `unquote` leaves of it; a flag that looks like
free text has the value `true`, which a text with a colon is not. -/
theorem ofGroup?_eq_text {g : List Char} {value : String} (h : ':' ∈ g → ':' ∈ value.toList) :
    ofGroup? g = some ⟨textField, none, value⟩ ↔
      g ≠ "NOT".toList ∧ ':' ∉ g ∧ unquote g = value.toList := by
  by_cases hnot : g = "NOT".toList
  · exact iff_of_false (by simp [ofGroup?, hnot]) fun h => h.1 hnot
  cases hsplit : splitColon? g with
  | none =>
    have hvalue : String.ofList (unquote g) = value ↔ unquote g = value.toList :=
      ⟨fun h => by rw [← h, String.toList_ofList], fun h => by rw [h, String.ofList_toList]⟩
    simp [ofGroup?, hsplit, splitColon?_eq_none.mp hsplit, hvalue]
  | some parts =>
    have hcolon : ':' ∈ g := by
      by_contra hnone
      rw [splitColon?_eq_none.mpr hnone] at hsplit
      exact Option.some_ne_none _ hsplit.symm
    have hvalue : "true" ≠ value := fun heq => absurd (h hcolon) (by rw [← heq]; decide)
    refine iff_of_false ?_ fun h => h.2.1 hcolon
    rw [ofGroup?, if_neg hnot, hsplit]
    dsimp only
    split <;> simp [hvalue]

theorem parse_of_spells {text g : List Char} {c : Char} (h : Spells text g) (hne : g ≠ []) (hc : c ∈ text)
    (hblank : isBlank c = false) : parse (String.ofList text) = (ofGroup? g).toList := by
  have hspells : List.Forall₂ Spells [text] [g] := .cons h .nil
  have hgroups : groups text = [g] := by
    apply groups_joinWith hspells
    intro g' hg
    rwa [List.mem_singleton.mp hg]
  rw [parse_of_groups hc hblank hgroups]
  cases hread : ofGroup? g <;> simp [ofGroups, hread]

theorem parse_not_of_spells {text g : List Char} (h : Spells text g) (hne : g ≠ []) :
    parse (String.ofList ("NOT".toList ++ ' ' :: text)) = (ofGroup? g).toList.map Predicate.inverted := by
  have hkeyword : Spells "NOT".toList "NOT".toList := IsBare.spells (by decide)
  have hgroups : groups ("NOT".toList ++ ' ' :: text) = ["NOT".toList, g] :=
    groups_joinWith (.cons hkeyword (.cons h .nil)) (by simp [hne])
  have hfirst : 'N' ∈ "NOT".toList ++ ' ' :: text := List.mem_append_left _ (by decide)
  have hnone : ofGroup? "NOT".toList = none := rfl
  rw [parse_of_groups hfirst (by decide) hgroups]
  simp only [ofGroups, hnone]
  cases ofGroup? g <;> rfl

theorem parse_quoted (s : List Char) :
    parse (String.ofList (quoted s)) = (ofGroup? ('"' :: s ++ ['"'])).toList :=
  parse_of_spells (spells_quoted s) (List.cons_ne_nil _ _) List.mem_cons_self (by decide)

theorem parse_escaped {s : List Char} (h : s ≠ []) :
    parse (String.ofList (escaped s)) = (ofGroup? s).toList := by
  have hslash : '\\' ∈ escaped s := by
    obtain ⟨c, rest, rfl⟩ := List.exists_cons_of_ne_nil h
    exact List.mem_cons_self
  exact parse_of_spells (spells_escaped s) h hslash (by decide)

/-- Which texts are read back literally: in double quotes those without a colon, and with a backslash before
each character those that are also not `NOT` and not in quotes themselves. -/
theorem parse_literal {s : String} (h : s ≠ "") :
    (parse (String.ofList (quoted s.toList)) = [⟨textField, none, s⟩] ↔ ':' ∉ s.toList) ∧
    (parse (String.ofList (escaped s.toList)) = [⟨textField, none, s⟩] ↔
      ':' ∉ s.toList ∧ s ≠ "NOT" ∧ ¬ IsWrapped s.toList) := by
  have hread (p : Option Predicate) (q : Predicate) : p.toList = [q] ↔ p = some q := by
    cases p <;> simp
  have hne : s.toList ≠ [] := fun hnil => h (String.toList_inj.mp hnil)
  have hcolon : ':' ∈ '"' :: s.toList ++ ['"'] ↔ ':' ∈ s.toList := by simp
  constructor
  · have hkeyword : '"' :: s.toList ++ ['"'] ≠ "NOT".toList := by simp
    rw [parse_quoted, hread, ofGroup?_eq_text hcolon.mp, hcolon, unquote_quotes]
    exact ⟨fun h => h.2.1, fun h => ⟨hkeyword, h, rfl⟩⟩
  · rw [parse_escaped hne, hread, ofGroup?_eq_text id, unquote_eq_self, ne_eq, String.toList_inj]
    exact and_left_comm

/-- A text of quotes, gaps, backslashes and an operator, literal in both spellings. -/
theorem parse_literal_mixed : "\"a\" >= \\'b" ≠ "" ∧
    parse "\"\\\"a\\\" >= \\\\'b\"" = [⟨textField, none, "\"a\" >= \\'b"⟩] ∧
    parse "\\\"\\a\\\"\\ \\>\\=\\ \\\\\\'\\b" = [⟨textField, none, "\"a\" >= \\'b"⟩] := by
  have hne : "\"a\" >= \\'b" ≠ "" := by decide
  have hcolon : ':' ∉ "\"a\" >= \\'b".toList := by decide
  have hbare : ¬ IsWrapped "\"a\" >= \\'b".toList := unquote_eq_self.mp (by decide)
  obtain ⟨hquoted, hescaped⟩ := parse_literal hne
  exact ⟨hne, hquoted.mpr hcolon, hescaped.mpr ⟨hcolon, by decide, hbare⟩⟩

/-- A colon between quotes parts the group, and so does one after a backslash; `NOT` with backslashes is the
keyword, and quotes with backslashes are taken off. -/
theorem parse_not_literal :
    parse (String.ofList (quoted "a:b".toList)) = [⟨"\"a", some (.compare .eq), "b\""⟩] ∧
    parse (String.ofList (escaped "a:b".toList)) = [⟨"a", some (.compare .eq), "b"⟩] ∧
    parse (String.ofList (escaped "NOT".toList)) = [] ∧
    parse (String.ofList (escaped "\"a\"".toList)) = [⟨textField, none, "a"⟩] := by
  refine ⟨?_, ?_, ?_, ?_⟩ <;> decide

end VolumeSearch.Query
