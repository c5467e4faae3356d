import Mathlib.Tactic.Common
import VolumeSearch.Query.Predicate
import VolumeSearch.Text.Basic

/-! How a text becomes a group. Outside quotes a stretch of text adds characters to the group and leaves the
splitter outside quotes; such stretches can be put one after the other, and gaps between them part the
groups. -/
namespace VolumeSearch.Query
open VolumeSearch.Text

def quotedChar (c : Char) : List Char := if c = '"' ∨ c = '\\' then ['\\', c] else [c]

def quoted (s : List Char) : List Char := '"' :: s.flatMap quotedChar ++ ['"']

def escaped (s : List Char) : List Char := s.flatMap fun c => ['\\', c]

/-- Every character stands for itself: none is a gap, a quote or a backslash. -/
def IsBare (s : List Char) : Prop :=
  ∀ c ∈ s, c ≠ '\\' ∧ Splitter.isQuote c = false ∧ Splitter.isGap c = false

instance : DecidablePred IsBare := fun s => List.decidableBAll _ s

/-- Outside quotes the text adds exactly these characters to the group, and ends outside quotes. -/
def Spells (text group : List Char) : Prop :=
  ∀ gs g, Splitter.run ⟨gs, g, none, false⟩ text = ⟨gs, group.reverse ++ g, none, false⟩

namespace Splitter

theorem run_append (s : Splitter) (a b : List Char) : s.run (a ++ b) = (s.run a).run b :=
  List.foldl_append

theorem run_cons (s : Splitter) (c : Char) (rest : List Char) : s.run (c :: rest) = (s.step c).run rest :=
  rfl

theorem run_backslash (gs : List (List Char)) (g : List Char) (quote : Option Char) (c : Char) :
    run ⟨gs, g, quote, false⟩ ['\\', c] = ⟨gs, c :: g, quote, false⟩ := by
  simp [run, step, take]

theorem run_quotedChar (gs : List (List Char)) (g : List Char) (c : Char) :
    run ⟨gs, g, some '"', false⟩ (quotedChar c) = ⟨gs, c :: g, some '"', false⟩ := by
  unfold quotedChar
  split
  · exact run_backslash gs g _ c
  · next hc =>
    rw [not_or] at hc
    simp [run, step, take, hc.1, hc.2]

theorem run_in_quotes (gs : List (List Char)) (g s : List Char) :
    run ⟨gs, g, some '"', false⟩ (s.flatMap quotedChar) = ⟨gs, s.reverse ++ g, some '"', false⟩ := by
  induction s generalizing g with
  | nil => rfl
  | cons c rest ih =>
    rw [List.flatMap_cons, run_append, run_quotedChar, ih, List.reverse_cons, List.append_assoc]
    rfl

end Splitter

theorem Spells.append {a b g h : List Char} (ha : Spells a g) (hb : Spells b h) :
    Spells (a ++ b) (g ++ h) := by
  intro gs before
  rw [Splitter.run_append, ha, hb, List.reverse_append, List.append_assoc]

theorem spells_plain {c : Char} (hslash : c ≠ '\\') (hquote : Splitter.isQuote c = false)
    (hgap : Splitter.isGap c = false) : Spells [c] [c] := by
  intro gs g
  simp [Splitter.run, Splitter.step, Splitter.take, hslash, hquote, hgap]

theorem IsBare.spells {s : List Char} (h : IsBare s) : Spells s s := by
  induction s with
  | nil => exact fun gs g => rfl
  | cons c rest ih =>
    obtain ⟨⟨hslash, hquote, hgap⟩, hrest⟩ := List.forall_mem_cons.mp h
    exact (spells_plain hslash hquote hgap).append (ih hrest)

theorem spells_escaped (s : List Char) : Spells (escaped s) s := by
  induction s with
  | nil => exact fun gs g => rfl
  | cons c rest ih =>
    have hfirst : Spells ['\\', c] [c] := fun gs g => Splitter.run_backslash gs g none c
    exact hfirst.append ih

theorem spells_quoted (s : List Char) : Spells (quoted s) ('"' :: s ++ ['"']) := by
  intro gs g
  have hopen : Splitter.step ⟨gs, g, none, false⟩ '"' = ⟨gs, '"' :: g, some '"', false⟩ := rfl
  have hclose (g : List Char) :
      Splitter.run ⟨gs, g, some '"', false⟩ ['"'] = ⟨gs, '"' :: g, none, false⟩ := rfl
  rw [quoted, List.cons_append, Splitter.run_cons, hopen, Splitter.run_append, Splitter.run_in_quotes, hclose]
  simp

/-- Texts with one space between neighbours give one group each. -/
theorem groups_joinWith {texts gs : List (List Char)} (h : List.Forall₂ Spells texts gs)
    (hne : ∀ g ∈ gs, g ≠ []) : groups (joinWith ' ' texts) = gs := by
  have hrun (done : List (List Char)) :
      (Splitter.run ⟨done, [], none, false⟩ (joinWith ' ' texts)).close.groups = done ++ gs := by
    induction h generalizing done with
    | nil => simp [joinWith, Splitter.run, Splitter.close]
    | @cons text g texts gs hspells hrest ih =>
      have hg : g ≠ [] := hne g List.mem_cons_self
      have hclose : Splitter.close ⟨done, g.reverse ++ [], none, false⟩ = ⟨done ++ [g], [], none, false⟩ := by
        simp [Splitter.close, hg]
      cases hrest with
      | nil =>
        rw [joinWith, hspells, hclose]
      | @cons next g' texts gs hnext hmore =>
        have hgap : Splitter.step ⟨done, g.reverse ++ [], none, false⟩ ' ' = ⟨done ++ [g], [], none, false⟩ :=
          hclose
        have hjoin : joinWith ' ' (text :: next :: texts) = text ++ ' ' :: joinWith ' ' (next :: texts) := rfl
        rw [hjoin, Splitter.run_append, hspells, Splitter.run_cons, hgap,
          ih fun g hg => hne g (List.mem_cons_of_mem _ hg)]
        simp
  exact hrun []

end VolumeSearch.Query
