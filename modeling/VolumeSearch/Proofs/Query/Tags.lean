import Mathlib.Tactic.Common
import VolumeSearch.Proofs.IdSet
import VolumeSearch.Proofs.Text.Blank
import VolumeSearch.Query.Tags

/-! What becomes of the predicates on tags. A list of tags may be vacant, which is to name no tag. Tags that are
asked for leave one predicate on their keys, and it fails for every key when the tags have none. Vacant lists
leave nothing of themselves, and stay where they are when no tag is named anywhere. -/
namespace VolumeSearch.Query
open VolumeSearch.Text

namespace Predicate

/-- A list of tags in which there are only commas and blanks. -/
def IsVacant (p : Predicate) : Prop :=
  p.op.any Operator.isList = true ∧ ∀ c ∈ p.value.toList, c = ',' ∨ isBlank c = true

theorem tags_eq_nil {p : Predicate} : p.tags = [] ↔ p.IsVacant := by
  unfold tags IsVacant
  split
  · next hlist =>
    have hnone (piece : List Char) :
        String.ofList (trimChars piece) = "" ↔ ∀ c ∈ piece, isBlank c = true := by
      rw [String.ofList_eq_empty_iff, trimChars_eq_nil]
    rw [and_iff_right hlist, List.filter_eq_nil_iff, List.forall_mem_map]
    simp only [ne_eq, decide_not, Bool.not_eq_true', decide_eq_false_iff_not, not_not, hnone]
    exact forall_mem_splitAt
  · next hlist => exact iff_of_false (List.cons_ne_nil _ _) fun h => hlist h.1

end Predicate

variable {ps : List Predicate}

theorem mem_tagSide {negative : Bool} {t : String} : t ∈ tagSide negative ps ↔
    ∃ p ∈ ps, p.isTag = true ∧ p.isNegative = negative ∧ t ∈ p.tags := by
  simp [tagSide, and_assoc]

theorem tagSide_eq_nil {negative : Bool} : tagSide negative ps = [] ↔
    ∀ p ∈ ps, p.isTag = true → p.isNegative = negative → p.IsVacant := by
  rw [List.eq_nil_iff_forall_not_mem]
  simp only [mem_tagSide, ← Predicate.tags_eq_nil, List.eq_nil_iff_forall_not_mem]
  exact ⟨fun h p hp htag hside t ht => h t ⟨p, hp, htag, hside, ht⟩,
    fun h t ⟨p, hp, htag, hside, ht⟩ => h p hp htag hside t ht⟩

theorem tagLookups_eq_nil : tagLookups ps = [] ↔ ∀ p ∈ ps, p.isTag = true → p.IsVacant := by
  have hsides : tagLookups ps = [] ↔ tagSide false ps = [] ∧ tagSide true ps = [] := by
    simp [tagLookups]
  rw [hsides, tagSide_eq_nil, tagSide_eq_nil]
  refine ⟨fun h p hp htag => ?_, fun h => ⟨fun p hp htag _ => h p hp htag, fun p hp htag _ => h p hp htag⟩⟩
  cases hside : p.isNegative with
  | false => exact h.1 p hp htag hside
  | true => exact h.2 p hp htag hside

variable (lookup : List String → List String) {tags : List String} {p : Predicate}

theorem mem_includedKeys : p ∈ includedKeys lookup tags ↔ tags ≠ [] ∧
    p = ⟨idsField, some .isIn, if lookup tags = [] then noIds else joinKeys (lookup tags)⟩ := by
  unfold includedKeys
  split <;> simp [*]

theorem mem_excludedKeys : p ∈ excludedKeys lookup tags ↔ tags ≠ [] ∧ lookup tags ≠ [] ∧
    p = ⟨idsField, some .notIn, joinKeys (lookup tags)⟩ := by
  unfold excludedKeys
  split <;> simp [*]

/-- Where no tag is named the predicates stay. -/
theorem resolveTags_of_vacant (h : ∀ p ∈ ps, p.isTag = true → p.IsVacant) : resolveTags lookup ps = ps := by
  rw [resolveTags, if_pos (tagLookups_eq_nil.mpr h)]

/-- Otherwise those on tags go, and those on keys come. -/
theorem mem_resolveTags (h : ¬ ∀ p ∈ ps, p.isTag = true → p.IsVacant) :
    p ∈ resolveTags lookup ps ↔ (p ∈ ps ∧ p.isTag = false) ∨
      p ∈ includedKeys lookup (tagSide false ps) ∨ p ∈ excludedKeys lookup (tagSide true ps) := by
  rw [resolveTags, if_neg fun hnone => h (tagLookups_eq_nil.mp hnone), List.mem_append, List.mem_append,
    List.mem_filter, Bool.not_eq_true', or_assoc]

/-- Where a tag is named, no predicate on tags is left. -/
theorem isTag_of_mem_resolveTags (h : ¬ ∀ p ∈ ps, p.isTag = true → p.IsVacant)
    (hp : p ∈ resolveTags lookup ps) : p.isTag = false := by
  rcases (mem_resolveTags lookup h).mp hp with ⟨-, htag⟩ | hkeys | hkeys
  · exact htag
  · obtain ⟨-, rfl⟩ := (mem_includedKeys lookup).mp hkeys
    rfl
  · obtain ⟨-, -, rfl⟩ := (mem_excludedKeys lookup).mp hkeys
    rfl

/-- Queries by tag fail closed as far as they name tags. A predicate on tags is left just if there are some and
all of them are vacant. When tags are asked for, there is a predicate on the keys that are found for all of these
tags at once, and without keys it has a value that no key equals. When only vacant lists ask for tags, no
predicate that asks for keys comes in. -/
theorem parseWithTags_fails_closed (query : String) :
    ((∃ p ∈ parseWithTags lookup query, p.isTag = true) ↔
      (∃ p ∈ parse query, p.isTag = true) ∧ ∀ p ∈ parse query, p.isTag = true → p.IsVacant) ∧
    ((∃ p ∈ parse query, p.isTag = true ∧ p.isNegative = false ∧ ¬ p.IsVacant) →
      ∃ tags : List String, tags.Pairwise (· < ·) ∧
        (∀ t, t ∈ tags ↔ ∃ p ∈ parse query, p.isTag = true ∧ p.isNegative = false ∧ t ∈ p.tags) ∧
        ⟨idsField, some .isIn, if lookup tags = [] then noIds else joinKeys (lookup tags)⟩ ∈
          parseWithTags lookup query) ∧
    ((∀ p ∈ parse query, p.isTag = true → p.isNegative = false → p.IsVacant) →
      ∀ p ∈ parseWithTags lookup query, p.op = some .isIn → p ∈ parse query) := by
  rw [parseWithTags]
  generalize parse query = ps
  by_cases hvacant : ∀ p ∈ ps, p.isTag = true → p.IsVacant
  · -- no tag is looked up, as in a query that has no predicate on tags
    rw [resolveTags_of_vacant lookup hvacant]
    refine ⟨(and_iff_left hvacant).symm, ?_, fun _ p hp _ => hp⟩
    rintro ⟨p, hp, htag, -, hnamed⟩
    exact absurd (hvacant p hp htag) hnamed
  · refine ⟨?_, fun hasked => ?_, fun hnone p hp hop => ?_⟩
    · refine iff_of_false ?_ fun h => hvacant h.2
      rintro ⟨p, hp, htag⟩
      exact absurd htag (Bool.eq_false_iff.mp (isTag_of_mem_resolveTags lookup hvacant hp))
    · refine ⟨tagSide false ps, Ascending.ofList_pairwise_lt _, fun t => mem_tagSide, ?_⟩
      obtain ⟨p, hp, htag, hside, hnamed⟩ := hasked
      have hsome : tagSide false ps ≠ [] := fun h => hnamed (tagSide_eq_nil.mp h p hp htag hside)
      exact (mem_resolveTags lookup hvacant).mpr (.inr (.inl ((mem_includedKeys lookup).mpr ⟨hsome, rfl⟩)))
    · rcases (mem_resolveTags lookup hvacant).mp hp with ⟨hp, -⟩ | hkeys | hkeys
      · exact hp
      · exact absurd (tagSide_eq_nil.mpr hnone) ((mem_includedKeys lookup).mp hkeys).1
      · obtain ⟨-, -, rfl⟩ := (mem_excludedKeys lookup).mp hkeys
        cases hop

/-- A list with gaps of tags that have no keys, and a vacant list to rule out. -/
theorem parseWithTags_without_keys :
    (∃ p ∈ parse "tag_id:in(9,,7) tag_id:nin()", p.isTag = true ∧ p.isNegative = false ∧ ¬ p.IsVacant) ∧
    (¬ ∃ p ∈ parseWithTags (fun _ => []) "tag_id:in(9,,7) tag_id:nin()", p.isTag = true) ∧
    ⟨idsField, some .isIn, noIds⟩ ∈ parseWithTags (fun _ => []) "tag_id:in(9,,7) tag_id:nin()" := by
  have hparse : parse "tag_id:in(9,,7) tag_id:nin()" =
      [⟨tagField, some .isIn, "9,,7"⟩, ⟨tagField, some .notIn, ""⟩] := by decide
  have hnamed : ¬ Predicate.IsVacant ⟨tagField, some .isIn, "9,,7"⟩ := by
    rw [← Predicate.tags_eq_nil]
    decide
  have hasked : ∃ p ∈ parse "tag_id:in(9,,7) tag_id:nin()",
      p.isTag = true ∧ p.isNegative = false ∧ ¬ p.IsVacant := by
    rw [hparse]
    exact ⟨_, List.mem_cons_self, rfl, rfl, hnamed⟩
  obtain ⟨hleft, hkeys, -⟩ := parseWithTags_fails_closed (fun _ => []) "tag_id:in(9,,7) tag_id:nin()"
  obtain ⟨tags, -, -, hmem⟩ := hkeys hasked
  refine ⟨hasked, fun h => ?_, hmem⟩
  obtain ⟨p, hp, htag, -, hnot⟩ := hasked
  exact hnot ((hleft.mp h).2 p hp htag)

/-- A vacant list by itself stays a predicate on tags, and one beside a tag that is ruled out goes: both queries
ask for tags, and no predicate asks for keys. -/
theorem parseWithTags_vacant :
    parse "tag_id:in()" = [⟨tagField, some .isIn, ""⟩] ∧
    parseWithTags (fun _ => []) "tag_id:in()" = [⟨tagField, some .isIn, ""⟩] ∧
    parse "tag_id:in(,) tag_id:!=3" =
      [⟨tagField, some .isIn, ","⟩, ⟨tagField, some (.compare .ne), "3"⟩] ∧
    parseWithTags (fun tags => tags.map ("k" ++ ·)) "tag_id:in(,) tag_id:!=3" =
      [⟨idsField, some .notIn, "k3"⟩] := by
  have hlone : parse "tag_id:in()" = [⟨tagField, some .isIn, ""⟩] := by decide
  have hbeside : parse "tag_id:in(,) tag_id:!=3" =
      [⟨tagField, some .isIn, ","⟩, ⟨tagField, some (.compare .ne), "3"⟩] := by decide
  refine ⟨hlone, ?_, hbeside, ?_⟩
  · rw [parseWithTags, hlone]
    cbv
  · rw [parseWithTags, hbeside]
    cbv

end VolumeSearch.Query
