import Mathlib.Tactic.Common
import VolumeSearch.Proofs.Query.Predicate

/-! A gap outside quotes, and without a backslash before it, parts a query in two that are read by themselves. What
goes over the gap is a `NOT` at the end of the first part. -/
namespace VolumeSearch.Query
open VolumeSearch.Text

namespace Splitter

/-- The state when there are groups before those that were read. -/
def after (gs : List (List Char)) (s : Splitter) : Splitter := { s with groups := gs ++ s.groups }

theorem close_after (gs : List (List Char)) (s : Splitter) : (s.after gs).close = s.close.after gs := by
  unfold close
  split
  · next hempty => rw [if_pos (show s.group.isEmpty = true from hempty)]
  · next hsome =>
    rw [if_neg (show ¬ s.group.isEmpty = true from hsome)]
    simp [after]

/-- Groups are only added to those before them, which no step looks at. -/
theorem step_after (gs : List (List Char)) (s : Splitter) (c : Char) :
    (s.after gs).step c = (s.step c).after gs := by
  have hescaped : (s.after gs).escaped = s.escaped := rfl
  have hquote : (s.after gs).quote = s.quote := rfl
  rw [step, step, hescaped, hquote]
  -- only a gap outside quotes touches the groups
  split
  · rfl
  · split
    · rfl
    · split
      · split <;> rfl
      · split
        · rfl
        · split
          · exact close_after gs s
          · rfl

theorem run_after (gs : List (List Char)) (s : Splitter) (text : List Char) :
    (s.after gs).run text = (s.run text).after gs := by
  induction text generalizing s with
  | nil => rfl
  | cons c rest ih => rw [run_cons, run_cons, step_after, ih]

/-- Neither within quotes nor after a backslash that counts. -/
def IsOutside (s : Splitter) : Prop := s.quote = none ∧ s.escaped = false

instance : DecidablePred IsOutside := fun s => inferInstanceAs (Decidable (s.quote = none ∧ s.escaped = false))

/-- A gap ends the group, and what comes after it is read as at the start. -/
theorem step_gap {s : Splitter} {c : Char} (hs : s.IsOutside) (hc : isGap c = true) :
    s.step c = after s.close.groups {} := by
  obtain ⟨groups, group, quote, escaped⟩ := s
  obtain ⟨rfl, rfl⟩ : quote = none ∧ escaped = false := hs
  have hplain : c ≠ '\\' ∧ isQuote c = false := by
    simp only [isGap, Bool.or_eq_true, decide_eq_true_eq] at hc
    rcases hc with ((rfl | rfl) | rfl) | rfl <;> decide
  have hclose : step ⟨groups, group, none, false⟩ c = close ⟨groups, group, none, false⟩ := by
    simp [step, hplain, hc]
  rw [hclose]
  cases group with
  | nil => simp [close, after]
  | cons last rest => simp [close, after]

end Splitter

theorem groups_append_gap {a : List Char} {w : Char} (ha : (Splitter.run {} a).IsOutside)
    (hw : Splitter.isGap w = true) (b : List Char) : groups (a ++ w :: b) = groups a ++ groups b := by
  rw [groups, Splitter.run_append, Splitter.run_cons, Splitter.step_gap ha hw, Splitter.run_after,
    Splitter.close_after]
  rfl

/-- `NOT` in front of a text is a group of its own. -/
theorem groups_not (b : List Char) : groups ("NOT ".toList ++ b) = "NOT".toList :: groups b := by
  have houtside : (Splitter.run {} "NOT".toList).IsOutside := ⟨rfl, rfl⟩
  exact groups_append_gap houtside (w := ' ') rfl b

theorem parse_eq_ofGroups {query : String} (h : ∃ c ∈ query.toList, isBlank c = false) :
    parse query = ofGroups false (groups query.toList) := by
  obtain ⟨c, hc, hblank⟩ := h
  have hparse := parse_of_groups hc hblank rfl
  rwa [String.ofList_toList] at hparse

/-- Where a text ends outside quotes and not after a backslash, a gap parts the groups of the text from those of
what follows. If neither text is blank, the predicates are parted there as well: the second text is read by itself,
after a `NOT` if the last group of the first one is that. -/
theorem groups_and_parse_across_gap {a : String} {w : Char} (hw : w ∈ [' ', '\t', '\n', '\r'])
    (ha : (Splitter.run {} a.toList).IsOutside) (b : String) :
    groups (a ++ String.singleton w ++ b).toList = groups a.toList ++ groups b.toList ∧
    ((∃ c ∈ a.toList, isBlank c = false) → (∃ c ∈ b.toList, isBlank c = false) →
      parse (a ++ String.singleton w ++ b) =
        if (groups a.toList).getLast? = some "NOT".toList then parse a ++ parse ("NOT " ++ b)
        else parse a ++ parse b) := by
  have htext : (a ++ String.singleton w ++ b).toList = a.toList ++ w :: b.toList := by simp
  have hgap : Splitter.isGap w = true := by
    simpa [Splitter.isGap, or_assoc] using hw
  have hgroups : groups (a ++ String.singleton w ++ b).toList = groups a.toList ++ groups b.toList := by
    rw [htext, groups_append_gap ha hgap]
  refine ⟨hgroups, fun hsome hlater => ?_⟩
  have hwhole : ∃ c ∈ (a ++ String.singleton w ++ b).toList, isBlank c = false := by
    obtain ⟨c, hc, hblank⟩ := hsome
    exact ⟨c, by rw [htext]; exact List.mem_append_left _ hc, hblank⟩
  have hnot : parse ("NOT " ++ b) = ofGroups true (groups b.toList) := by
    have hprefixed : ∃ c ∈ ("NOT " ++ b).toList, isBlank c = false := ⟨'N', by simp, by decide⟩
    rw [parse_eq_ofGroups hprefixed, String.toList_append, groups_not]
    rfl
  rw [parse_eq_ofGroups hwhole, hgroups, ofGroups_append, parse_eq_ofGroups hsome, parse_eq_ofGroups hlater, hnot]
  split
  · next hlast => rw [endsInNot_false, decide_eq_true hlast]
  · next hlast => rw [endsInNot_false, decide_eq_false hlast]

/-- A `NOT` that is spelled with a backslash, before a gap and a second `NOT`; and a quote that is closed, with a
gap in it. -/
theorem groups_and_parse_across_tab :
    (Splitter.run {} "size:'1 2' N\\OT".toList).IsOutside ∧
    groups "size:'1 2' N\\OT\tNOT ext:mp4 \"a".toList =
      groups "size:'1 2' N\\OT".toList ++ groups "NOT ext:mp4 \"a".toList ∧
    parse "size:'1 2' N\\OT\tNOT ext:mp4 \"a" =
      parse "size:'1 2' N\\OT" ++ parse "NOT NOT ext:mp4 \"a" := by
  have houtside : (Splitter.run {} "size:'1 2' N\\OT".toList).IsOutside := by decide
  have hlast : (groups "size:'1 2' N\\OT".toList).getLast? = some "NOT".toList := by decide
  obtain ⟨hgroups, hparse⟩ :=
    groups_and_parse_across_gap (w := '\t') (by decide) houtside "NOT ext:mp4 \"a"
  have hboth := hparse ⟨'N', by decide, by decide⟩ ⟨'N', by decide, by decide⟩
  rw [if_pos hlast] at hboth
  exact ⟨houtside, hgroups, hboth⟩

end VolumeSearch.Query
