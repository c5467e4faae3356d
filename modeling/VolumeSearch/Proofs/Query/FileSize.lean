import Mathlib.Tactic.Common
import VolumeSearch.Proofs.Query.Literal
import VolumeSearch.Query.FilesQuery

namespace VolumeSearch.Query
open VolumeSearch.Text

/-- A bare text has no quotes to take off. -/
theorem IsBare.unquote {s : List Char} (h : IsBare s) : unquote s = s := by
  rw [unquote_eq_self]
  rintro ⟨q, inner, hquote, rfl⟩
  have hfirst := (h q List.mem_cons_self).2.1
  exact Bool.false_ne_true (hfirst.symm.trans hquote)

/-- A bare field with a bare value is one group, by itself and after `NOT`. -/
theorem parse_field {field value : List Char} (hfield : IsBare field) (hvalue : IsBare value) :
    parse (String.ofList (field ++ ':' :: value)) = (ofGroup? (field ++ ':' :: value)).toList ∧
    parse (String.ofList ("NOT".toList ++ ' ' :: (field ++ ':' :: value))) =
      (ofGroup? (field ++ ':' :: value)).toList.map Predicate.inverted := by
  have hbare : IsBare (field ++ ':' :: value) :=
    List.forall_mem_append.mpr ⟨hfield, List.forall_mem_cons.mpr ⟨by decide, hvalue⟩⟩
  have hcolon : ':' ∈ field ++ ':' :: value := List.mem_append_right _ List.mem_cons_self
  have hne := List.ne_nil_of_mem hcolon
  exact ⟨parse_of_spells hbare.spells hne hcolon (by decide), parse_not_of_spells hbare.spells hne⟩

/-- The predicate of a field and a bare value that is not a list. -/
theorem ofGroup?_size {value : List Char} (hbare : IsBare value)
    (hlist : ∀ list, value ≠ "in(".toList ++ list ++ [')'] ∧ value ≠ "nin(".toList ++ list ++ [')']) :
    ∃ op size, ofGroup? ("file_size".toList ++ ':' :: value) =
      some ⟨"file_size", some (.compare op), String.ofList size⟩ := by
  obtain ⟨op, size, hsplit⟩ := splitOperator_of_not_list hlist
  have hfield : unquote "file_size".toList = "file_size".toList := by decide
  have hflag : "file_size".toList ≠ "is".toList := by decide
  refine ⟨op, size, ?_⟩
  rw [ofGroup?_colon (by decide), hfield, if_neg hflag, hbare.unquote, hsplit, String.ofList_toList]

/-- The fields that one predicate on the size sets. -/
theorem ofPredicates_size (op : Comparison) (size : String) :
    FilesQuery.ofPredicates [⟨"file_size", some (.compare op), size⟩] =
      {fileSize := some ⟨op, SizeText.read size⟩} := by
  rfl

/-- Whatever bare text stands after the field, lists apart, the query is for a size, and after `NOT` for the
same size with the opposite comparison. -/
theorem parse_file_size {value : String} (hbare : IsBare value.toList)
    (hlist : ∀ list, value ≠ "in(" ++ list ++ ")" ∧ value ≠ "nin(" ++ list ++ ")") :
    ∃ op bytes, FilesQuery.parse ("file_size:" ++ value) = {fileSize := some ⟨op, bytes⟩} ∧
      FilesQuery.parse ("NOT file_size:" ++ value) = {fileSize := some ⟨op.inverse, bytes⟩} := by
  have hchars (list : List Char) : value.toList ≠ "in(".toList ++ list ++ [')'] ∧
      value.toList ≠ "nin(".toList ++ list ++ [')'] := by
    have hvalue {opening : String} (hne : value ≠ opening ++ String.ofList list ++ ")") :
        value.toList ≠ opening.toList ++ list ++ [')'] := by
      intro heq
      refine hne (String.toList_inj.mp ?_)
      rw [heq, String.toList_append, String.toList_append, String.toList_ofList]
      rfl
    exact ⟨hvalue (hlist _).1, hvalue (hlist _).2⟩
  obtain ⟨op, size, hread⟩ := ofGroup?_size hbare hchars
  have hname : IsBare "file_size".toList := by decide
  obtain ⟨hplain, hinverted⟩ := parse_field hname hbare
  have htext : "file_size:" ++ value = String.ofList ("file_size".toList ++ ':' :: value.toList) := by
    rw [← String.toList_inj, String.toList_append, String.toList_ofList]
    simp
  have hnegated : "NOT file_size:" ++ value =
      String.ofList ("NOT".toList ++ ' ' :: ("file_size".toList ++ ':' :: value.toList)) := by
    rw [← String.toList_inj, String.toList_append, String.toList_ofList]
    simp
  refine ⟨op, SizeText.read (String.ofList size), ?_, ?_⟩
  · rw [FilesQuery.parse, htext, hplain, hread]
    exact ofPredicates_size op _
  · rw [FilesQuery.parse, hnegated, hinverted, hread]
    exact ofPredicates_size op.inverse _

end VolumeSearch.Query
