import Mathlib.Data.List.Induction
import Mathlib.Tactic.Common
import VolumeSearch.Proofs.Query.Predicate
import VolumeSearch.Query.FilesQuery

/-! Predicates that exclude, among the fields that a file browser knows. Only the size looks at its operator, so a
value that is excluded counts for every other field as one that is asked for. -/
namespace VolumeSearch.Query

def Predicate.affirmed (p : Predicate) : Predicate := if p.isNegative then p.inverted else p

theorem Predicate.isNegative_affirmed (p : Predicate) : p.affirmed.isNegative = false := by
  obtain ⟨name, op, value⟩ := p
  cases op with
  | none => rfl
  | some op =>
    cases op with
    | isIn | notIn => rfl
    | compare op => cases op <;> rfl

theorem Predicate.affirmed_fields (p : Predicate) : p.affirmed.name = p.name ∧ p.affirmed.value = p.value := by
  unfold affirmed
  split <;> exact ⟨rfl, rfl⟩

/-- The predicates with all exclusions in their positive form, those of sizes apart. -/
def withoutExclusions (ps : List Predicate) : List Predicate :=
  ps.map fun p => if p.name = "file_size" then p else p.affirmed

theorem name_of_excluding {ps : List Predicate} {p : Predicate} (hp : p ∈ withoutExclusions ps)
    (hnegative : p.isNegative = true) : p.name = "file_size" := by
  obtain ⟨q, -, rfl⟩ := List.mem_map.mp hp
  by_cases hsize : q.name = "file_size"
  · rwa [if_pos hsize]
  · rw [if_neg hsize, q.isNegative_affirmed] at hnegative
    cases hnegative

def valuesOf (name : String) (ps : List Predicate) : List String :=
  (ps.filter fun p => p.name = name).map Predicate.value

def lastValue (name : String) (ps : List Predicate) : String := (valuesOf name ps).getLastD ""

def lastSize (ps : List Predicate) : Option SizeFilter :=
  (ps.filter fun p => p.name = "file_size").getLast?.bind fun p =>
    p.comparison?.map fun op => ⟨op, SizeText.read p.value⟩

theorem valuesOf_append (name : String) (ps : List Predicate) (p : Predicate) :
    valuesOf name (ps ++ [p]) = if p.name = name then valuesOf name ps ++ [p.value] else valuesOf name ps := by
  by_cases hname : p.name = name <;> simp [valuesOf, hname]

theorem lastValue_append (name : String) (ps : List Predicate) (p : Predicate) :
    lastValue name (ps ++ [p]) = if p.name = name then p.value else lastValue name ps := by
  rw [lastValue, valuesOf_append]
  by_cases hname : p.name = name <;> simp [lastValue, hname]

theorem lastSize_append (ps : List Predicate) (p : Predicate) : lastSize (ps ++ [p]) =
    if p.name = "file_size" then p.comparison?.map fun op => ⟨op, SizeText.read p.value⟩ else lastSize ps := by
  by_cases hname : p.name = "file_size" <;> simp [lastSize, hname]

def addWord (text word : String) : String := if text = "" then word else text ++ " " ++ word

/-- Words with a blank between neighbours. Empty ones in front count for nothing. -/
def sentence (words : List String) : String := " ".intercalate (words.dropWhile (· = ""))

theorem foldl_addWord_of_ne {text : String} (htext : text ≠ "") (words : List String) :
    words.foldl addWord text = " ".intercalate (text :: words) := by
  induction words generalizing text with
  | nil => exact String.intercalate_singleton.symm
  | cons word rest ih =>
    have hnext : addWord text word = text ++ " " ++ word := if_neg htext
    have hne : text ++ " " ++ word ≠ "" := by
      intro hempty
      exact htext (String.append_eq_empty_iff.mp (String.append_eq_empty_iff.mp hempty).1).1
    rw [List.foldl_cons, hnext, ih hne, String.intercalate_cons_append, String.intercalate_cons_cons]

theorem foldl_addWord (words : List String) : words.foldl addWord "" = sentence words := by
  induction words with
  | nil => exact String.intercalate_nil.symm
  | cons word rest ih =>
    have hfirst : addWord "" word = word := if_pos rfl
    rw [List.foldl_cons, hfirst, sentence, List.dropWhile_cons]
    by_cases hword : word = ""
    · rw [if_pos (decide_eq_true hword), hword]
      exact ih
    · rw [if_neg (by simpa using hword)]
      exact foldl_addWord_of_ne hword rest

theorem sentence_append (words : List String) (word : String) :
    sentence (words ++ [word]) = addWord (sentence words) word := by
  rw [← foldl_addWord, ← foldl_addWord, List.foldl_append, List.foldl_cons, List.foldl_nil]

namespace FilesQuery

/-- The fields when all predicates are taken in: the words of the text in order, and of all else the last. -/
def collected (ps : List Predicate) : FilesQuery where
  text := sentence (valuesOf textField ps)
  rootPath := lastValue "root_path" ps
  relativePath := lastValue "relative_path" ps
  showHidden := lastValue "show_hidden" ps = "true"
  trash := lastValue "trash" ps = "true"
  fileSize := lastSize ps

/-- One more predicate changes the field of its name. -/
theorem collected_append (ps : List Predicate) (p : Predicate) : collected (ps ++ [p]) = (collected ps).apply p := by
  have hwords (q : FilesQuery) : q.appendText p.value = { q with text := addWord q.text p.value } := rfl
  rw [collected]
  simp only [valuesOf_append, lastValue_append, lastSize_append]
  unfold apply
  split_ifs with hshow htext hroot hrelative htrash hsize
  all_goals simp_all [collected, textField, sentence_append]

theorem foldl_apply (ps : List Predicate) : ps.foldl apply {} = collected ps := by
  induction ps using List.reverseRecOn with
  | nil => rfl
  | append_singleton ps p ih => rw [List.foldl_append, ih, collected_append, List.foldl_cons, List.foldl_nil]

/-- The operator of a predicate makes no difference unless the predicate is on sizes. -/
theorem apply_congr {p p' : Predicate} (hname : p.name = p'.name) (hvalue : p.value = p'.value)
    (hsize : p.name ≠ "file_size") (q : FilesQuery) : q.apply p = q.apply p' := by
  have hsize' : p'.name ≠ "file_size" := hname ▸ hsize
  simp only [apply, hname, hvalue, if_neg hsize']

theorem ofPredicates_congr {p p' : Predicate} (hname : p.name = p'.name) (hvalue : p.value = p'.value)
    (hsize : p.name ≠ "file_size") (front back : List Predicate) :
    ofPredicates (front ++ p :: back) = ofPredicates (front ++ p' :: back) := by
  simp only [ofPredicates, List.foldl_append, List.foldl_cons, apply_congr hname hvalue hsize]

theorem ofPredicates_withoutExclusions (ps : List Predicate) :
    ofPredicates (withoutExclusions ps) = ofPredicates ps := by
  have hstep : (fun (q : FilesQuery) (p : Predicate) => q.apply p) = fun q p =>
      q.apply (if p.name = "file_size" then p else p.affirmed) := by
    funext q p
    split
    · rfl
    · next hsize =>
      obtain ⟨hname, hvalue⟩ := p.affirmed_fields
      exact apply_congr hname.symm hvalue.symm hsize q
  simp only [ofPredicates, withoutExclusions, List.foldl_map]
  rw [← hstep]

/-- `NOT` in front of a group makes no difference unless the group is on sizes. -/
theorem ofPredicates_not (invert : Bool) (front back : List (List Char)) {group : List Char} {p : Predicate}
    (hgroup : ofGroup? group = some p) (hsize : p.name ≠ "file_size") :
    ofPredicates (ofGroups invert (front ++ "NOT".toList :: group :: back)) =
      ofPredicates (ofGroups invert (front ++ group :: back)) := by
  have hlater := ofGroups_append invert front
  generalize endsInNot invert front = later at hlater
  have hnot : ofGroup? "NOT".toList = none := if_pos rfl
  have hinverted : ofGroups later ("NOT".toList :: group :: back) = p.inverted :: ofGroups false back := by
    simp only [ofGroups, hnot, hgroup, if_true]
  have hplain : ofGroups later (group :: back) = (if later then p.inverted else p) :: ofGroups false back := by
    simp only [ofGroups, hgroup]
  rw [hlater, hlater, hinverted, hplain]
  cases later with
  | true => rfl
  | false =>
    have hname : p.name = p.inverted.name := rfl
    have hvalue : p.value = p.inverted.value := rfl
    exact (ofPredicates_congr hname hvalue hsize _ _).symm

/-- In all fields but the size, a predicate that excludes counts as its positive form does, whatever its value: its
words are in the text, the last directories are those to search in, the last flags are set. `NOT` in front of a group
changes nothing there. -/
theorem exclusions_read_as_inclusions (ps : List Predicate) :
    ((ofPredicates ps).text = sentence (valuesOf textField ps) ∧
      (ofPredicates ps).rootPath = lastValue "root_path" ps ∧
      (ofPredicates ps).relativePath = lastValue "relative_path" ps ∧
      ((ofPredicates ps).trash = true ↔ lastValue "trash" ps = "true") ∧
      ((ofPredicates ps).showHidden = true ↔ lastValue "show_hidden" ps = "true" ∨ lastValue "trash" ps = "true") ∧
      (ofPredicates ps).fileSize = lastSize ps) ∧
    (ofPredicates (withoutExclusions ps) = ofPredicates ps ∧
      ∀ p ∈ withoutExclusions ps, p.isNegative = true → p.name = "file_size") ∧
    ∀ invert front group p back, ofGroup? group = some p → p.name ≠ "file_size" →
      ofPredicates (ofGroups invert (front ++ "NOT".toList :: group :: back)) =
        ofPredicates (ofGroups invert (front ++ group :: back)) := by
  refine ⟨?_, ⟨ofPredicates_withoutExclusions ps, fun p => name_of_excluding⟩,
    fun invert front group p back => ofPredicates_not invert front back⟩
  simp [ofPredicates, foldl_apply, collected]

def excludedPredicates : List Predicate :=
  [⟨"text", some .notIn, "beach"⟩, ⟨"text", some (.compare .ne), "sun"⟩, ⟨"root_path", some (.compare .ne), "/photos"⟩,
    ⟨"trash", some (.compare .ne), "true"⟩]

theorem ofPredicates_excludedPredicates :
    (excludedPredicates.all Predicate.isNegative = true ∧ (ofPredicates excludedPredicates).text = "beach sun" ∧
      (ofPredicates excludedPredicates).rootPath = "/photos" ∧
      (ofPredicates excludedPredicates).showHidden = true) ∧
    ofPredicates (ofGroups false ["NOT".toList, "root_path:/photos".toList]) =
      ofPredicates (ofGroups false ["root_path:/photos".toList]) := by
  obtain ⟨⟨htext, hroot, -, -, hhidden, -⟩, -, hnot⟩ := exclusions_read_as_inclusions excludedPredicates
  refine ⟨⟨by decide, htext.trans (by decide), hroot.trans (by decide), hhidden.mpr (.inr (by decide))⟩, ?_⟩
  exact hnot false [] _ ⟨"root_path", some (.compare .eq), "/photos"⟩ [] (by decide) (by decide)

/-- Queries for anything but a word, a directory or a flag are read as queries for it. -/
theorem parse_exclusions :
    Query.parse "NOT text:beach" = [⟨"text", some (.compare .ne), "beach"⟩] ∧
    (FilesQuery.parse "NOT text:beach").text = "beach" ∧
    (FilesQuery.parse "NOT root_path:/photos").rootPath = "/photos" ∧
    (FilesQuery.parse "NOT relative_path:photos").relativePath = "photos" ∧
    (FilesQuery.parse "NOT show_hidden:true").showHidden = true ∧
    (FilesQuery.parse "NOT trash:true").trash = true := by
  decide +kernel

end FilesQuery

end VolumeSearch.Query
