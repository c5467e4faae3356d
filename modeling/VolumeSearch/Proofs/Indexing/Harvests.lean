import Mathlib.Data.List.Forall2
import Mathlib.Tactic.Common
import VolumeSearch.Proofs.Catalog.Refusals
import VolumeSearch.Proofs.Index.Canonical
import VolumeSearch.Proofs.Indexing.Workers

namespace VolumeSearch

def TextTerms.mapOf (t : TextTerms) (f : Family) : TermMap := (t.get? f).getD .empty

namespace Indexing

def taken (o : Outage) (visited : Option Entry) : Option Entry := visited.filter (Catalog.lands o)

/-- An entry is taken when all its writes come through; recorded it is as far as they do. -/
theorem recordEntry_eq (c : Catalog) (h : Harvest) (e : Entry) :
    recordEntry (c, h) e = ((c.persist e).1, h.take (taken c.store.outage (some e))) := by
  simp only [recordEntry, taken, Option.filter_some, Catalog.persist_landed]
  cases Catalog.lands c.store.outage e <;> rfl

private theorem record_eq (c : Catalog) (h : Harvest) (visit : Visit) :
    record (c, h) visit = (c.persistAll visit.entry?.toList, h.take (taken c.store.outage visit.entry?)) := by
  cases hentry : visit.entry? with
  | none =>
    simp only [record, hentry]
    rfl
  | some e =>
    simp only [record, hentry, recordEntry_eq]
    rfl

private theorem foldl_record (c : Catalog) (h : Harvest) (visits : List Visit) :
    visits.foldl record (c, h) = (c.persistAll ((visits.map Visit.entry?).filterMap id),
      ((visits.map Visit.entry?).map (taken c.store.outage)).foldl Harvest.take h) := by
  induction visits generalizing c h with
  | nil => rfl
  | cons visit rest ih =>
    rw [List.foldl_cons, record_eq, ih, Catalog.persistAll_persistAll, Catalog.outage_persistAll]
    cases hentry : visit.entry? <;> simp [hentry]

/-- The walks are recorded one after the other, each with a harvest of what comes through. -/
theorem recordWalks_eq (c : Catalog) (walks : List (List Visit)) :
    recordWalks c walks =
      (c.persistAll ((walks.map fun visits => visits.map Visit.entry?).flatten.filterMap id),
        (walks.map fun visits => ((visits.map Visit.entry?).map (taken c.store.outage)).foldl
          Harvest.take {}).foldl Harvest.merge {}) := by
  have hfrom (total : Harvest) (c : Catalog) :
      walks.foldl (fun state visits =>
        ((recordAll state.1 visits).1, state.2.merge (recordAll state.1 visits).2)) (c, total) =
      (c.persistAll ((walks.map fun visits => visits.map Visit.entry?).flatten.filterMap id),
        (walks.map fun visits => ((visits.map Visit.entry?).map (taken c.store.outage)).foldl
          Harvest.take {}).foldl Harvest.merge total) := by
    induction walks generalizing c total with
    | nil => rfl
    | cons visits rest ih =>
      have hwalk : recordAll c visits = _ := foldl_record c {} visits
      rw [List.foldl_cons]
      simp only [hwalk]
      rw [ih, Catalog.outage_persistAll, List.map_cons, List.flatten_cons, List.filterMap_append,
        Catalog.persistAll_persistAll, List.map_cons, List.foldl_cons]
  exact hfrom {} c

/-- A pass leaves the entries that it met recorded, as far as they came through. -/
theorem catalog_run {σ : Type} [Index.Shelf σ] (v : Volume) (c : Catalog) (d : σ) (hidden : Bool)
    (roots : List String) : (run v c d hidden roots).catalog =
      c.persistAll ((roots.map fun root => (v.walk hidden root).map Visit.entry?).flatten.filterMap id) := by
  unfold run
  split
  · next hempty =>
    rw [List.isEmpty_iff.mp hempty]
    rfl
  · rw [recordWalks_eq, List.map_map]
    exact catalog_finish _ _ _

theorem counts_foldl_take (walk : List (Option Entry)) (h : Harvest) :
    (walk.foldl Harvest.take h).entries = h.entries + walk.countP Option.isSome ∧
    (walk.foldl Harvest.take h).skipped = h.skipped + walk.countP Option.isNone := by
  induction walk generalizing h with
  | nil => exact ⟨rfl, rfl⟩
  | cons visited rest ih =>
    obtain ⟨hentries, hskipped⟩ := ih (h.take visited)
    rw [List.foldl_cons, hentries, hskipped, List.countP_cons, List.countP_cons]
    cases visited with
    | none => exact ⟨rfl, Nat.add_right_comm _ 1 _⟩
    | some e => exact ⟨Nat.add_right_comm _ 1 _, rfl⟩

theorem counts_foldl_merge (hs : List Harvest) (h : Harvest) :
    (hs.foldl Harvest.merge h).entries = h.entries + (hs.map Harvest.entries).sum ∧
    (hs.foldl Harvest.merge h).skipped = h.skipped + (hs.map Harvest.skipped).sum := by
  induction hs generalizing h with
  | nil => exact ⟨rfl, rfl⟩
  | cons o rest ih =>
    obtain ⟨hentries, hskipped⟩ := ih (h.merge o)
    rw [List.foldl_cons, hentries, hskipped, List.map_cons, List.map_cons, List.sum_cons, List.sum_cons]
    exact ⟨Nat.add_assoc _ _ _, Nat.add_assoc _ _ _⟩

/-- Harvests of walks, merged in any order, count what was taken and what was not. -/
theorem counts_of_harvests {walks : List (List (Option Entry))} {hs : List Harvest}
    (hperm : hs.Perm (walks.map fun walk => walk.foldl Harvest.take {})) :
    (hs.foldl Harvest.merge {}).entries = walks.flatten.countP Option.isSome ∧
    (hs.foldl Harvest.merge {}).skipped = walks.flatten.countP Option.isNone := by
  obtain ⟨hentries, hskipped⟩ := counts_foldl_merge hs {}
  rw [hentries, hskipped, (hperm.map _).sum_eq, (hperm.map _).sum_eq, List.map_map, List.map_map,
    List.countP_flatten, List.countP_flatten]
  have hempty : ({} : Harvest).entries = 0 ∧ ({} : Harvest).skipped = 0 := ⟨rfl, rfl⟩
  rw [hempty.1, hempty.2, Nat.zero_add, Nat.zero_add]
  constructor
  · refine congrArg List.sum (List.map_congr_left fun walk _ => ?_)
    exact (counts_foldl_take walk {}).1.trans (Nat.zero_add _)
  · refine congrArg List.sum (List.map_congr_left fun walk _ => ?_)
    exact (counts_foldl_take walk {}).2.trans (Nat.zero_add _)

theorem textMaps_eq (t : TextTerms) : textMaps t = Family.text.map fun f => (f, t.mapOf f) := rfl

private theorem mapOf_addEntry (t : TextTerms) (e : Entry) {f : Family} (hf : f ∈ Family.text) :
    (t.addEntry e).mapOf f = (t.mapOf f).addEntry f e := by
  cases f with
  | filter => exact absurd hf (by decide)
  | _ => rfl

private theorem mapOf_merge (t other : TextTerms) (f : Family) :
    (t.merge other).mapOf f = (t.mapOf f).merge (other.mapOf f) := by
  cases f <;> rfl

private theorem filled_mapOf_empty (f : Family) : (TextTerms.empty.mapOf f).Filled := by
  cases f <;> exact TermMap.filled_empty

private theorem not_mem_get_mapOf_empty (f : Family) (t : String) (id : FileId) :
    id ∉ (TextTerms.empty.mapOf f).get t := by
  cases f <;> exact List.not_mem_nil

/-- The harvest of a walk has the terms of the walk's entries. -/
theorem mem_get_foldl_take {f : Family} (hf : f ∈ Family.text) (walk : List (Option Entry)) (h : Harvest)
    (t : String) (id : FileId) :
    id ∈ ((walk.foldl Harvest.take h).terms.mapOf f).get t ↔
      id ∈ (h.terms.mapOf f).get t ∨ ∃ e, some e ∈ walk ∧ t ∈ f.terms e ∧ e.id = id := by
  induction walk generalizing h with
  | nil => simp
  | cons visited rest ih =>
    rw [List.foldl_cons, ih]
    cases visited with
    | none =>
      have hskip : (h.take none).terms = h.terms := rfl
      simp [hskip]
    | some o =>
      have hadd : (h.take (some o)).terms = h.terms.addEntry o := rfl
      rw [hadd, mapOf_addEntry _ _ hf, TermMap.mem_get_addEntry]
      simp only [List.mem_cons, Option.some.injEq]
      grind

/-- The merged harvests have every term that one of them has. -/
theorem mem_get_foldl_merge (f : Family) (hs : List Harvest) (h : Harvest) (t : String) (id : FileId) :
    id ∈ ((hs.foldl Harvest.merge h).terms.mapOf f).get t ↔
      id ∈ (h.terms.mapOf f).get t ∨ ∃ o ∈ hs, id ∈ (o.terms.mapOf f).get t := by
  induction hs generalizing h with
  | nil => simp
  | cons o rest ih =>
    have hmerge : (h.merge o).terms = h.terms.merge o.terms := rfl
    rw [List.foldl_cons, ih, hmerge, mapOf_merge, TermMap.mem_get_merge, List.exists_mem_cons_iff,
      or_assoc]

theorem filled_foldl_merge (f : Family) (hs : List Harvest) {h : Harvest}
    (hfilled : (h.terms.mapOf f).Filled) : ((hs.foldl Harvest.merge h).terms.mapOf f).Filled := by
  induction hs generalizing h with
  | nil => exact hfilled
  | cons o rest ih =>
    refine ih ?_
    have hmerge : (h.merge o).terms = h.terms.merge o.terms := rfl
    rw [hmerge, mapOf_merge]
    exact hfilled.merge _

/-- The harvests of walks that deliver the entries give, in whatever order they are merged, the maps of
the entries. -/
theorem sameIds_foldl_merge {walks : List (List (Option Entry))} {es : List Entry}
    (hwalks : Delivers walks es) {hs : List Harvest}
    (hperm : hs.Perm (walks.map fun walk => walk.foldl Harvest.take {})) {f : Family}
    (hf : f ∈ Family.text) :
    ((hs.foldl Harvest.merge {}).terms.mapOf f).SameIds (.ofEntries f es) where
  filled := filled_foldl_merge f hs (filled_mapOf_empty f)
  filled' := TermMap.filled_ofEntries f es
  mem_get t id := by
    have hnothing : id ∉ ((({} : Harvest).terms).mapOf f).get t := not_mem_get_mapOf_empty f t id
    rw [mem_get_foldl_merge, or_iff_right hnothing, ← TermMap.mem_idsOf, TermMap.mem_idsOf_ofEntries]
    have hgathered (walk : List (Option Entry)) :
        id ∈ ((walk.foldl Harvest.take {}).terms.mapOf f).get t ↔
          ∃ e, some e ∈ walk ∧ t ∈ f.terms e ∧ e.id = id := by
      rw [mem_get_foldl_take hf, or_iff_right hnothing]
    constructor
    · rintro ⟨h, hmem, hid⟩
      obtain ⟨walk, hwalk, rfl⟩ := List.mem_map.mp (hperm.subset hmem)
      obtain ⟨e, he, hterm⟩ := (hgathered walk).mp hid
      exact ⟨e, (hwalks e).mp (List.mem_flatten.mpr ⟨walk, hwalk, he⟩), hterm⟩
    · rintro ⟨e, he, hterm⟩
      obtain ⟨walk, hwalk, hmem⟩ := List.mem_flatten.mp ((hwalks e).mpr he)
      exact ⟨_, hperm.symm.subset (List.mem_map_of_mem hwalk), (hgathered walk).mpr ⟨e, hmem, hterm⟩⟩

/-- So the text families are written as those of the entries are. -/
theorem forall₂_textMaps {walks : List (List (Option Entry))} {es : List Entry}
    (hwalks : Delivers walks es) {hs : List Harvest}
    (hperm : hs.Perm (walks.map fun walk => walk.foldl Harvest.take {})) :
    List.Forall₂ SameFamily (textMaps (hs.foldl Harvest.merge {}).terms)
      (Family.text.map fun f => (f, .ofEntries f es)) := by
  rw [textMaps_eq, List.forall₂_map_left_iff, List.forall₂_map_right_iff, List.forall₂_same]
  exact fun f hf => ⟨rfl, sameIds_foldl_merge hwalks hperm hf⟩

/-- With them, the filter family is written of the entries that are met in the store. -/
theorem writeFamilies_harvests {σ : Type} [Index.Shelf σ] {walks : List (List (Option Entry))}
    {es : List Entry} (hwalks : Delivers walks es) {hs : List Harvest}
    (hperm : hs.Perm (walks.map fun walk => walk.foldl Harvest.take {})) (d : σ) (met : List Entry) :
    writeFamilies d [] (textMaps (hs.foldl Harvest.merge {}).terms ++ [(.filter, filterTerms met)]) =
      writeFamilies d [] (passMaps es met) := by
  have hsame : (filterTerms met).SameIds (filterTerms met) :=
    ⟨TermMap.filled_ofEntries .filter met, TermMap.filled_ofEntries .filter met, fun _ _ => Iff.rfl⟩
  have hlast : List.Forall₂ SameFamily [(.filter, filterTerms met)] [(.filter, filterTerms met)] :=
    .cons ⟨rfl, hsame⟩ .nil
  exact writeFamilies_congr (List.rel_append (forall₂_textMaps hwalks hperm) hlast) d []

end Indexing

end VolumeSearch
