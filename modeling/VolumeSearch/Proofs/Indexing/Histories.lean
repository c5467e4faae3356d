import Mathlib.Tactic.Common
import VolumeSearch.Proofs.Index.ReadBack
import VolumeSearch.Proofs.Index.Repeated
import VolumeSearch.Proofs.Indexing

/-! Passes over a volume one after the other. The store keeps a record for every id that was ever met, the
last one. The text families hold the entries of the last pass, and the filter family all records of the
store. -/
namespace VolumeSearch

namespace Indexing
open Index (Fits Ready Holds filesOf)
open Entry (DistinctIds DistinctPaths latest)

def indexEntries (c : Catalog) (d : IndexDir) (es : List Entry) : Outcome IndexDir :=
  let (c, h) := es.foldl recordEntry (c, {})
  finish c d h

/-- The store and the index after passes that all came to their end, from an empty store on. Each pass
meets entries with distinct ids and distinct paths; those of different passes may share both. -/
inductive Reindexed (start : IndexDir) : List (List Entry) → Catalog → IndexDir → Prop
  | start : Reindexed start [] .empty start
  | pass {passes : List (List Entry)} {c : Catalog} {d : IndexDir} {es : List Entry} {report : Report}
      (h : Reindexed start passes c d) (hids : DistinctIds es) (hpaths : DistinctPaths es)
      (hok : (indexEntries c d es).result = .ok report) :
      Reindexed start (passes ++ [es]) (indexEntries c d es).catalog (indexEntries c d es).index

/-- What the families are written of in a pass. -/
theorem indexEntries_spec {c : Catalog} (hworks : c.store.outage = {}) (d : IndexDir) (es : List Entry) :
    ∃ met, (c.persistAll es).entries = .ok met ∧ (indexEntries c d es).catalog = c.persistAll es ∧
      writeFamilies d [] (passMaps es met) =
        ((indexEntries c d es).index, (indexEntries c d es).result.map Report.families) := by
  obtain ⟨met, hmet, hcatalog, hwrite⟩ := finish_spec (Catalog.works_persistAll hworks es) d
    (es.foldl Harvest.addEntry {})
  have hpass : indexEntries c d es = finish (c.persistAll es) d (es.foldl Harvest.addEntry {}) := by
    rw [indexEntries, foldl_recordEntry hworks]
  rw [textMaps_foldl_addEntry] at hwrite
  rw [hpass]
  exact ⟨met, hmet, hcatalog, hwrite⟩

variable {start d : IndexDir} {passes : List (List Entry)} {c : Catalog} {es : List Entry}

theorem Reindexed.catalog_eq (h : Reindexed start passes c d) :
    c = Catalog.empty.persistAll passes.flatten := by
  induction h with
  | start => rfl
  | @pass passes c d es report h hids hpaths hok ih =>
    have hworks : c.store.outage = {} := by
      rw [ih]
      exact Catalog.works_persistAll rfl _
    obtain ⟨met, -, hcatalog, -⟩ := indexEntries_spec hworks d es
    rw [hcatalog, ih, Catalog.persistAll_persistAll, List.flatten_append, List.flatten_singleton]

theorem Reindexed.works (h : Reindexed start passes c d) : c.store.outage = {} := by
  rw [h.catalog_eq]
  exact Catalog.works_persistAll rfl _

/-- Families that were written had maps that fit, and a place that was ready for them. -/
theorem fits_and_ready_of_writeFamilies {maps : List (Family × TermMap)}
    (hdistinct : (maps.map (·.1)).Nodup) {d d' : IndexDir} {written counts : List (Family × Nat)}
    (h : writeFamilies d written maps = (d', .ok counts)) : ∀ p ∈ maps, Fits p.2 ∧ Ready d p.1 := by
  induction maps generalizing d written with
  | nil => simp
  | cons p rest ih =>
    obtain ⟨f, m⟩ := p
    obtain ⟨hf, hrest⟩ := List.nodup_cons.mp hdistinct
    cases hfirst : Index.writeFamily d f m with
    | mk d₁ r =>
      cases r with
      | error fault =>
        simp only [writeFamilies, writeFamily, hfirst, Except.mapError] at h
        cases h
      | ok count =>
        simp only [writeFamilies, writeFamily, hfirst, Except.mapError] at h
        obtain ⟨hfits, hready⟩ := Index.fits_and_ready_of_writeFamily hfirst
        obtain ⟨-, -, hkept⟩ := Index.holds_of_writeFamily hfirst
        intro p hp
        rcases List.mem_cons.mp hp with rfl | hp
        · exact ⟨hfits, hready⟩
        · -- the place was as ready for a later family before the first one was written
          obtain ⟨hfits', hready'⟩ := ih hrest h p hp
          have hne : p.1 ≠ f := fun he => hf (List.mem_map.mpr ⟨p, hp, he⟩)
          exact ⟨hfits', hready'.congr hready.notBlocked fun n hn =>
            (hkept n (Index.ownNames_disjoint hne n hn)).symm⟩

theorem holds_of_writeFamilies {maps : List (Family × TermMap)} (hdistinct : (maps.map (·.1)).Nodup)
    {d d' : IndexDir} {counts : List (Family × Nat)} (h : writeFamilies d [] maps = (d', .ok counts)) :
    ∀ p ∈ maps, Fits p.2 ∧ Holds d' p.1 (filesOf p.2) := by
  have hspec := fits_and_ready_of_writeFamilies hdistinct h
  obtain ⟨d₁, hwrite, hholds, -⟩ := writeFamilies_of_fits _ hdistinct
    (fun p hp => (hspec p hp).1) (fun p hp => (hspec p hp).2) []
  obtain ⟨rfl, -⟩ := Prod.mk.inj (h.symm.trans hwrite)
  exact fun p hp => ⟨(hspec p hp).1, hholds p hp⟩

theorem holds_of_indexEntries (hworks : c.store.outage = {}) {report : Report}
    (hok : (indexEntries c d es).result = .ok report) :
    (∀ f ∈ Family.text, Fits (.ofEntries f es) ∧
      Holds (indexEntries c d es).index f (filesOf (.ofEntries f es))) ∧
    ∃ met, (indexEntries c d es).catalog.entries = .ok met ∧ Fits (filterTerms met) ∧
      Holds (indexEntries c d es).index .filter (filesOf (filterTerms met)) := by
  obtain ⟨met, hmet, hcatalog, hwrite⟩ := indexEntries_spec hworks d es
  rw [hok] at hwrite
  have hall := holds_of_writeFamilies (passMaps_nodup es met) hwrite
  refine ⟨fun f hf => hall (f, .ofEntries f es) ?_, met, by rw [hcatalog, hmet],
    hall (.filter, filterTerms met) ?_⟩
  · exact List.mem_append_left _ (List.mem_map_of_mem hf)
  · exact List.mem_append_right _ (List.mem_singleton_self _)

/-- A pass that writes these families comes to its end when their maps fit and the place is ready. -/
theorem report_of_fits {out : Outcome IndexDir} {met : List Entry}
    (hwrite : writeFamilies d [] (passMaps es met) = (out.index, out.result.map Report.families))
    (hready : ∀ f, Ready d f) (htext : ∀ f ∈ Family.text, Fits (.ofEntries f es))
    (hfilter : Fits (filterTerms met)) :
    ∃ report, out.result = .ok report := by
  have hfits : ∀ p ∈ passMaps es met, Fits p.2 := by
    intro p hp
    rcases List.mem_append.mp hp with hp | hp
    · obtain ⟨f, hf, rfl⟩ := List.mem_map.mp hp
      exact htext f hf
    · rwa [List.mem_singleton.mp hp]
  obtain ⟨d', hwrite', -, -⟩ := writeFamilies_of_fits _ (passMaps_nodup es met) hfits
    (fun p _ => hready p.1) []
  obtain ⟨-, hresult⟩ := Prod.mk.inj (hwrite.symm.trans hwrite')
  cases hout : out.result with
  | error failure =>
    rw [hout] at hresult
    cases hresult
  | ok report => exact ⟨report, rfl⟩

/-- A pass comes to its end when its maps fit and the place is ready, and leaves it ready. -/
theorem indexEntries_ok (hworks : c.store.outage = {}) (hready : ∀ f, Ready d f)
    (htext : ∀ f ∈ Family.text, Fits (.ofEntries f es))
    (hfilter : ∀ met, (c.persistAll es).entries = .ok met → Fits (filterTerms met)) :
    ∃ report, (indexEntries c d es).result = .ok report ∧
      ∀ f, Ready (indexEntries c d es).index f := by
  obtain ⟨met, hmet, -, hwrite⟩ := indexEntries_spec hworks d es
  obtain ⟨report, hok⟩ := report_of_fits hwrite hready htext (hfilter met hmet)
  obtain ⟨d', -, r, hagain, -, hready', -⟩ := writeFamilies_alike hready hready (passMaps es met) []
  obtain ⟨rfl, -⟩ := Prod.mk.inj (hwrite.symm.trans hagain)
  exact ⟨report, hok, hready'⟩

private theorem fits_filterTerms {met : List Entry} (hmet : (Catalog.empty.persistAll es).entries = .ok met)
    (hfew : Postings.Varint.maxLength *
      (((latest es).map fun e => (Family.filter.terms e).length).sum + 1) < Index.wordLimit) :
    Fits (filterTerms met) := by
  have hids := Entry.distinctIds_latest es
  obtain ⟨met', hmet', hdistinct, hmem⟩ :=
    (Catalog.records_persistAll es).entries (Catalog.keyedById_persistAll es) hids
  obtain rfl : met = met' := Except.ok.inj (hmet.symm.trans hmet')
  have hperm : met.Perm (latest es) :=
    (List.perm_ext_iff_of_nodup hdistinct.of_map hids.of_map).mpr hmem
  refine TermMap.fits_ofEntries ?_
  rwa [(hperm.map _).sum_eq]

theorem buildFilter_of_few (hready : Ready d .filter) (hfew : Postings.Varint.maxLength *
      (((latest es).map fun e => (Family.filter.terms e).length).sum + 1) < Index.wordLimit) :
    ∃ d' count, buildFilter d (Catalog.empty.persistAll es) = (d', .ok count) := by
  obtain ⟨met, hmet, -⟩ := (Catalog.records_persistAll es).entries (Catalog.keyedById_persistAll es)
    (Entry.distinctIds_latest es)
  obtain ⟨d', hwrite, -⟩ := Index.writeFamily_of_fits (fits_filterTerms hmet hfew) hready
  refine ⟨d', (filterTerms met).size, ?_⟩
  rw [buildFilter, hmet]
  simp only [writeFamily, hwrite, Except.mapError]

/-- One more pass comes to its end when its entries and the last records have few terms. -/
theorem Reindexed.next (h : Reindexed start passes c d) (hready : ∀ f, Ready d f) (hids : DistinctIds es)
    (hpaths : DistinctPaths es) (htext : ∀ f ∈ Family.text, Fits (.ofEntries f es))
    (hfew : Postings.Varint.maxLength * (((latest (passes.flatten ++ es)).map fun e =>
      (Family.filter.terms e).length).sum + 1) < Index.wordLimit) :
    ∃ c' d', Reindexed start (passes ++ [es]) c' d' ∧ ∀ f, Ready d' f := by
  obtain ⟨report, hok, hready'⟩ := indexEntries_ok h.works hready htext fun met hmet => by
    rw [h.catalog_eq, Catalog.persistAll_persistAll] at hmet
    exact fits_filterTerms hmet hfew
  exact ⟨_, _, .pass h hids hpaths hok, hready'⟩

end Indexing

end VolumeSearch
