import Mathlib.Tactic.Common
import VolumeSearch.Proofs.Query.Groups
import VolumeSearch.Query.Predicate

namespace VolumeSearch.Query
open VolumeSearch.Text

theorem unquote_quotes (s : List Char) : unquote ('"' :: s ++ ['"']) = s := by
  simp [unquote, Splitter.isQuote]

theorem splitColon?_eq_none {s : List Char} : splitColon? s = none ↔ ':' ∉ s := by
  induction s with
  | nil => exact iff_of_true rfl List.not_mem_nil
  | cons c rest ih =>
    rw [List.mem_cons, not_or, ← ih, splitColon?]
    split
    · next hc => exact iff_of_false (Option.some_ne_none _) fun h => h.1 hc.symm
    · next hc => rw [Option.map_eq_none_iff, iff_and_self]; exact fun _ heq => hc heq.symm

theorem splitColon?_append {field : List Char} (h : ':' ∉ field) (rest : List Char) :
    splitColon? (field ++ ':' :: rest) = some (field, rest) := by
  induction field with
  | nil => rfl
  | cons c field ih =>
    rw [List.mem_cons, not_or] at h
    rw [List.cons_append, splitColon?, if_neg fun hc => h.1 hc.symm, ih h.2, Option.map_some]

theorem after?_append (front rest : List Char) : Comparison.after? front (front ++ rest) = some rest := by
  induction front with
  | nil => rfl
  | cons c front ih => rw [List.cons_append, Comparison.after?, if_pos rfl, ih]

theorem after?_eq_some {front s rest : List Char} (h : Comparison.after? front s = some rest) :
    s = front ++ rest := by
  induction front generalizing s with
  | nil => exact Option.some.inj h
  | cons c front ih =>
    cases s with
    | nil => cases h
    | cons c' s =>
      rw [Comparison.after?] at h
      split at h
      · next hc => rw [ih h, hc, List.cons_append]
      · cases h

/-- The symbol of a comparison is read off before a value that does not make it a longer one. -/
theorem strip?_symbol (op : Comparison) {value : List Char}
    (h : op = .gt ∨ op = .lt → value.head? ≠ some '=') :
    Comparison.strip? (op.symbol.toList ++ value) = some (op, value) := by
  have hlonger (hop : op = .gt ∨ op = .lt) : Comparison.after? ['='] value = none := by
    cases value with
    | nil => rfl
    | cons c rest => exact if_neg fun hc => h hop (by rw [hc]; rfl)
  cases op with
  | gt => simp [Comparison.strip?, Comparison.all, Comparison.symbol, Comparison.after?, hlonger]
  | lt => simp [Comparison.strip?, Comparison.all, Comparison.symbol, Comparison.after?, hlonger]
  | eq | ne | ge | le =>
    simp [Comparison.strip?, Comparison.all, Comparison.symbol, Comparison.after?]

theorem listAfter?_list (opening list : List Char) :
    listAfter? opening (opening ++ list ++ [')']) = some list := by
  rw [listAfter?, List.append_assoc, after?_append]
  simp

theorem listAfter?_eq_some {opening value list : List Char} (h : listAfter? opening value = some list) :
    value = opening ++ list ++ [')'] := by
  unfold listAfter? at h
  split at h
  · next rest hrest =>
    split at h
    · next hlast =>
      obtain ⟨inner, rfl⟩ := List.getLast?_eq_some_iff.mp hlast
      obtain rfl : inner = list := by simpa using h
      rw [after?_eq_some hrest, List.append_assoc]
    · cases h
  · cases h

namespace Operator

def applied (op : Operator) (value : List Char) : List Char :=
  match op with
  | compare op => op.symbol.toList ++ value
  | isIn => "in(".toList ++ value ++ [')']
  | notIn => "nin(".toList ++ value ++ [')']

end Operator

theorem splitOperator_applied (op : Operator) {value : List Char}
    (h : op = .compare .gt ∨ op = .compare .lt → value.head? ≠ some '=') :
    splitOperator (op.applied value) = (op, value) := by
  cases op with
  | compare op =>
    have hlist {opening : List Char} (hopening : opening.head? = some 'n' ∨ opening.head? = some 'i') :
        listAfter? opening (op.symbol.toList ++ value) = none := by
      cases opening with
      | nil => simp at hopening
      | cons c rest =>
        have hc : c = 'n' ∨ c = 'i' := by simpa using hopening
        rcases hc with rfl | rfl <;> cases op <;> rfl
    have hvalue : op = .gt ∨ op = .lt → value.head? ≠ some '=' := by simpa using h
    rw [splitOperator, Operator.applied, hlist (.inl rfl), hlist (.inr rfl), strip?_symbol op hvalue]
  | isIn =>
    have hnot : listAfter? "nin(".toList ("in(".toList ++ value ++ [')']) = none := rfl
    rw [splitOperator, Operator.applied, hnot, listAfter?_list]
  | notIn => rw [splitOperator, Operator.applied, listAfter?_list]

/-- A value that is not a list is compared, with what stands after the symbol or with all of it. -/
theorem splitOperator_of_not_list {value : List Char}
    (h : ∀ list, value ≠ "in(".toList ++ list ++ [')'] ∧ value ≠ "nin(".toList ++ list ++ [')']) :
    ∃ op rest, splitOperator value = (.compare op, rest) := by
  unfold splitOperator
  split
  · next list hlist => exact absurd (listAfter?_eq_some hlist) (h list).2
  · split
    · next list hlist => exact absurd (listAfter?_eq_some hlist) (h list).1
    · split
      · next op rest _ => exact ⟨op, rest, rfl⟩
      · exact ⟨.eq, value, rfl⟩

/-- A group with a colon is a flag or a field, by what stands before the first colon. -/
theorem ofGroup?_colon {field : List Char} (h : ':' ∉ field) (rest : List Char) :
    ofGroup? (field ++ ':' :: rest) =
      if unquote field = "is".toList then some ⟨String.ofList (unquote rest), none, "true"⟩
      else some ⟨String.ofList (unquote field), some (splitOperator (unquote rest)).1,
        String.ofList (splitOperator (unquote rest)).2⟩ := by
  have hnot : field ++ ':' :: rest ≠ "NOT".toList := by
    intro heq
    have hcolon : ':' ∈ "NOT".toList := by simp [← heq]
    exact absurd hcolon (by decide)
  rw [ofGroup?, if_neg hnot, splitColon?_append h]

theorem ofGroup?_eq_none {group : List Char} : ofGroup? group = none ↔ group = "NOT".toList := by
  unfold ofGroup?
  split
  · next hnot => exact iff_of_true rfl hnot
  · next hnot =>
    refine iff_of_false ?_ hnot
    split
    · exact Option.some_ne_none _
    · dsimp only
      split <;> exact Option.some_ne_none _

/-- The last group is `NOT`; without groups the answer is `invert`. -/
def endsInNot (invert : Bool) (gs : List (List Char)) : Bool :=
  (gs.getLast?.map (· == "NOT".toList)).getD invert

theorem endsInNot_false (gs : List (List Char)) :
    endsInNot false gs = decide (gs.getLast? = some "NOT".toList) := by
  unfold endsInNot
  cases gs.getLast? with
  | none => rfl
  | some group => simp [Bool.beq_eq_decide_eq]

/-- Groups are read by themselves, but for a `NOT` at the end of those before them. -/
theorem ofGroups_append (invert : Bool) (front back : List (List Char)) :
    ofGroups invert (front ++ back) = ofGroups invert front ++ ofGroups (endsInNot invert front) back := by
  induction front generalizing invert with
  | nil => rfl
  | cons group rest ih =>
    have hlast : endsInNot invert (group :: rest) = endsInNot (group == "NOT".toList) rest := by
      cases rest with
      | nil => rfl
      | cons next others => rw [endsInNot, endsInNot, List.getLast?_cons_cons]; rfl
    cases hgroup : ofGroup? group with
    | none =>
      have hnot : (group == "NOT".toList) = true := beq_iff_eq.mpr (ofGroup?_eq_none.mp hgroup)
      rw [List.cons_append, ofGroups, ofGroups, hgroup, hlast, hnot]
      exact ih true
    | some p =>
      have hnot : (group == "NOT".toList) = false := by
        rw [beq_eq_false_iff_ne, ne_eq, ← ofGroup?_eq_none, hgroup]
        exact Option.some_ne_none p
      rw [List.cons_append, ofGroups, ofGroups, hgroup, hlast, hnot]
      exact congrArg _ (ih false)

/-- A query with a character that is not blank has the predicates of its groups. -/
theorem parse_of_groups {text : List Char} {gs : List (List Char)} {c : Char} (hc : c ∈ text)
    (hblank : isBlank c = false) (h : groups text = gs) : parse (String.ofList text) = ofGroups false gs := by
  have hsome : ¬ text.all isBlank = true := by
    rw [List.all_eq_true]
    exact fun hall => Bool.false_ne_true (hblank.symm.trans (hall c hc))
  rw [parse, String.toList_ofList, if_neg hsome, h]

end VolumeSearch.Query
