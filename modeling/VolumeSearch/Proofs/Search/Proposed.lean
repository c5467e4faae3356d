import Mathlib.Tactic.Common
import VolumeSearch.Proofs.Search.Engine

namespace VolumeSearch.Search
open Index (Reader Reads)
open Entry (DistinctIds byId idsWhere)

/-- The ids under all the words are those whose entries have all the words in their names, each word
in any of them. -/
theorem mem_exactIds {r : Reader} {f : Family} {es : List Entry} (hr : Reads r (.ofEntries f es))
    (terms : List String) :
    ∃ exact, exactIds r terms = .ok exact ∧ exact.Pairwise (· < ·) ∧
      ∀ id, id ∈ exact ↔ terms ≠ [] ∧ ∀ t ∈ terms, ∃ o ∈ es, t ∈ f.terms o ∧ o.id = id := by
  have hsets : ∀ s ∈ terms.map (TermMap.ofEntries f es).idsOf, s.Pairwise (· < ·) := by
    intro s hs
    obtain ⟨t, -, rfl⟩ := List.mem_map.mp hs
    exact TermMap.idsOf_pairwise_lt _ t
  refine ⟨_, exactIds_of_reads hr terms, IdSet.intersectAll_pairwise hsets, fun id => ?_⟩
  rw [IdSet.mem_intersectAll id fun s hs => (hsets s hs).imp UInt64.le_of_lt]
  simp only [ne_eq, List.map_eq_nil_iff, List.forall_mem_map, TermMap.mem_idsOf_ofEntries]

variable {d : IndexDir} {es : List Entry} {p : Plan}

theorem candidates_pairwise_lt (hexact : Serves d es (.exact p.byPath)) :
    (candidates d p).Pairwise (· < ·) := by
  obtain ⟨reader, hopen, hreads⟩ := hexact
  obtain ⟨exact, hfound, hasc, -⟩ := mem_exactIds hreads (Term.tokens p.target)
  simp only [candidates, hopen, hfound]
  split
  · cases p.size with
    | none => exact .nil
    | some f => exact sizeFilterIds_pairwise_lt d f.op f.bytes
  · exact matching_pairwise_lt d p hasc

theorem candidates_of_words (hexact : Serves d es (.exact p.byPath)) (hsize : p.size = none) :
    ∃ r exact, Reader.openIn d (.exact p.byPath) = .ok r ∧
      exactIds r (Term.tokens p.target) = .ok exact ∧ exact.Pairwise (· < ·) ∧
      (∀ id, id ∈ exact ↔ Term.tokens p.target ≠ [] ∧ ∀ t ∈ Term.tokens p.target,
        ∃ o ∈ es, t ∈ (Family.exact p.byPath).terms o ∧ o.id = id) ∧
      candidates d p = withFuzzy d p exact := by
  obtain ⟨reader, hopen, hreads⟩ := hexact
  obtain ⟨exact, hfound, hasc, hmem⟩ := mem_exactIds hreads (Term.tokens p.target)
  refine ⟨reader, exact, hopen, hfound, hasc, hmem, ?_⟩
  simp [candidates, hsize, hopen, hfound, matching]

theorem id_mem_candidates (hexact : Serves d es (.exact p.byPath)) (hsize : p.size = none)
    (htokens : Term.tokens p.target ≠ []) {e : Entry} (he : e ∈ es)
    (hterms : ∀ t ∈ Term.tokens p.target, t ∈ (Family.exact p.byPath).terms e) :
    e.id ∈ candidates d p := by
  obtain ⟨-, exact, -, -, hasc, hmem, hcandidates⟩ := candidates_of_words hexact hsize
  rw [hcandidates]
  refine (withFuzzy_spec d p hasc).2 e.id ((hmem e.id).mpr ⟨htokens, fun t ht => ?_⟩)
  exact ⟨e, he, hterms t ht, rfl⟩

/-- Words propose only ids of entries, near ones as well as exact ones. -/
theorem id_of_candidates (hids : DistinctIds es) (hexact : Serves d es (.exact p.byPath))
    (hfuzzy : Serves d es (.fuzzy p.byPath)) (hwords : ¬ (p.size.isSome = true ∧ p.text = ""))
    {id : FileId} (hid : id ∈ candidates d p) : ∃ e ∈ es, e.id = id := by
  obtain ⟨reader, hopen, hreads⟩ := hexact
  have hfew : ¬ (p.size.isSome && p.text = "") = true := by simpa using hwords
  simp only [candidates, if_neg hfew, hopen, exactIds_eq hids hreads] at hid
  have hmatch := (matching_sublist _ _ _ _).subset hid
  rw [withFuzzy_eq hids p hfuzzy, Entry.mem_idsWhere] at hmatch
  obtain ⟨e, he, -, hsame⟩ := hmatch
  exact ⟨e, he, hsame⟩

/-- The proposed entries are those of the catalog whose ids are proposed, in the order of their ids. -/
theorem proposed_eq {s : Source} (hc : s.catalog.Records es) (hids : DistinctIds es)
    (hasc : (candidates s.index p).Pairwise (· < ·)) :
    proposed s p = (byId es).filter fun e => (candidates s.index p).contains e.id := by
  have hfind : s.catalog.entryAt? = Entry.withId? es := funext fun id => by
    rw [Catalog.entryAt?, hc.get]
    cases Entry.withId? es id with
    | none => rfl
    | some e => exact Entry.ofBytes?_toBytes e
  rw [proposed, hfind, Entry.filterMap_withId? hids hasc]

end VolumeSearch.Search
