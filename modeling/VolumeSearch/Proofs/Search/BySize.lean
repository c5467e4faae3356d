import Mathlib.Tactic.Common
import VolumeSearch.Proofs.Index.ReadBack
import VolumeSearch.Proofs.Search.ByName
import VolumeSearch.Proofs.Search.Proposed

namespace VolumeSearch.Search
open Index (Fits)
open Indexing (buildFilter filterTerms)
open Entry (DistinctIds byId latest)
open VolumeSearch.Text

variable {es : List Entry}

/-- The paths that a request for a size asks for, in the order of the ids, found without an index. -/
def sizeScan (es : List Entry) (r : Request) : List String :=
  ((byId es).filter fun e => hasSize r.size e &&
    (SlashPath.slashes r.parent).toList.isPrefixOf e.path.toList).map Entry.path

/-- The filter family that is built serves the entries met in the store. -/
theorem serves_of_buildFilter {d d' : IndexDir} {c : Catalog} {count : Nat}
    (h : buildFilter d c = (d', .ok count)) (hentries : c.entries = .ok es) {d'' : IndexDir}
    (hsame : ∀ n ∈ Family.filter.files, d''.item? n = d'.item? n) : Serves d'' es .filter := by
  rw [buildFilter, hentries] at h
  cases hwrite : Index.writeFamily d .filter (filterTerms es) with
  | mk d₁ result =>
    simp only [Indexing.writeFamily, hwrite] at h
    obtain ⟨rfl, hresult⟩ := Prod.mk.inj h
    cases result with
    | error fault => cases hresult
    | ok n =>
      exact Index.openIn_of_writeFamily hwrite hsame

theorem candidates_by_size (d : IndexDir) {r : Request} (hblank : trim r.text = "") {f : SizeFilter}
    (hsize : r.size = some f) : candidates d r.plan = Index.sizeFilterIds d f.op f.bytes := by
  have hasked : r.plan.size.isSome = true ∧ r.plan.text = "" := by simp [Request.plan, hblank, hsize]
  have hplan : r.plan.size = some f := hsize
  rw [candidates_of_size d hasked, sizeIds, hplan]

/-- What a request for sizes alone shows of a source with the entries: all that have the size and are in
the directory. -/
theorem shown_by_size {s : Source} (hc : s.catalog.Records es) (hids : DistinctIds es)
    (hfilter : Serves s.index es .filter) {r : Request} (hblank : trim r.text = "") {f : SizeFilter}
    (hsize : r.size = some f) : shown s r.plan = (byId es).filter fun e => hasSize r.size e &&
      (SlashPath.slashes r.parent).toList.isPrefixOf e.path.toList := by
  have hwords : r.plan.byPath = false := by simp [Request.plan, hblank]
  have hcandidates := candidates_by_size s.index hblank hsize
  have hasc : (candidates s.index r.plan).Pairwise (· < ·) := by
    rw [hcandidates]
    exact sizeFilterIds_pairwise_lt _ _ _
  rw [shown, proposed_eq hc hids hasc, hcandidates, List.filter_filter]
  refine List.filter_congr fun e he => ?_
  rw [Entry.mem_byId] at he
  have hpasses : passes r.plan none e = (hasSize r.size e &&
      (SlashPath.slashes r.parent).toList.isPrefixOf e.path.toList) :=
    congrArg (hasSize r.size e && ·) (inScope_of_words hwords e.path)
  have hadmitted : hasSize r.size e = true →
      (Index.sizeFilterIds s.index f.op f.bytes).contains e.id = true := by
    intro h
    rw [hsize, hasSize, Bool.and_eq_true] at h
    exact List.contains_iff_mem.mpr (id_mem_sizeFilterIds hfilter he h.2)
  rw [hpasses, Bool.eq_iff_iff]
  simp only [Bool.and_eq_true]
  exact ⟨fun h => h.1, fun h => ⟨h, hadmitted h.1⟩⟩

theorem results_by_size {s : Source} (hc : s.catalog.Records es) (hids : DistinctIds es)
    (hfilter : Serves s.index es .filter) {r : Request} (hblank : trim r.text = "") {f : SizeFilter}
    (hsize : r.size = some f) : results s r.plan = .ok (sizeScan es r) := by
  have hwords : r.plan.byPath = false := by simp [Request.plan, hblank]
  exact (results_of_words (readable_of_records hc) hwords).trans
    (congrArg (fun l => Except.ok (l.map Entry.path)) (shown_by_size hc hids hfilter hblank hsize))

/-- Whatever was recorded, in any order and over whatever else, once the filter family is built of the
store every search with a blank text and a size gives the page of the paths that a scan of the last
record of each id gives, whatever the text families are. -/
theorem search_by_size {history : List Entry} {d d' : IndexDir} {count : Nat}
    (hbuild : buildFilter d (Catalog.empty.persistAll history) = (d', .ok count)) {d'' : IndexDir}
    (hsame : ∀ n ∈ Family.filter.files, d''.item? n = d'.item? n) (v : Volume) {r : Request}
    (hblank : trim r.text = "") {f : SizeFilter} (hsize : r.size = some f) :
    search ⟨d'', Catalog.empty.persistAll history, v⟩ r =
      .ok (page (sizeScan (latest history) r) r.offset (pageLimit r.limit)) := by
  have hids := Entry.distinctIds_latest history
  have hrecords := Catalog.records_persistAll history
  obtain ⟨met, hentries, hmet, hmem⟩ := hrecords.entries (Catalog.keyedById_persistAll history) hids
  have hserves := serves_of_buildFilter hbuild hentries hsame
  have hfound := results_by_size (s := ⟨d'', Catalog.empty.persistAll history, v⟩)
    (hrecords.congr hids hmet hmem) hmet hserves hblank hsize
  rw [search_of_results hfound, sizeScan, sizeScan, Entry.byId_congr hmet hids hmem]

def regrown : List Entry :=
  [⟨2, "/a/old", "old", "", 10, 0, false, false⟩, ⟨2, "/a/new", "new", "", 4096, 86400, false, false⟩]

def largeRequest : Request := ⟨" ", "\\a", 0, 0, some ⟨.gt, 1024⟩⟩

theorem search_large_by_size :
    trim largeRequest.text = "" ∧ ∃ d' count,
      buildFilter IndexDir.absent (Catalog.empty.persistAll regrown) = (d', .ok count) ∧
      ∀ v, search ⟨d', Catalog.empty.persistAll regrown, v⟩ largeRequest = .ok ["/a/new"] := by
  have hblank : trim largeRequest.text = "" := by cbv
  have hlast : latest regrown = [regrown[1]] := by cbv
  obtain ⟨met, hentries, hids, hmem⟩ := (Catalog.records_persistAll regrown).entries
    (Catalog.keyedById_persistAll regrown) (Entry.distinctIds_latest regrown)
  have hone : met = [regrown[1]] := by
    have hsame : byId met = [regrown[1]] := by
      rw [Entry.byId_congr hids (Entry.distinctIds_latest regrown) hmem, hlast, byId,
        List.mergeSort_singleton]
    have hperm : met.Perm (byId met) := (List.mergeSort_perm met _).symm
    rw [hsame] at hperm
    exact List.perm_singleton.mp hperm
  rw [hone] at hentries
  have hfits : Fits (filterTerms [regrown[1]]) := TermMap.fits_ofEntries (by cbv)
  obtain ⟨d', hwrite, -⟩ := Index.writeFamily_of_fits hfits (Index.ready_absent .filter)
  have hbuild : buildFilter IndexDir.absent (Catalog.empty.persistAll regrown) =
      (d', .ok (filterTerms [regrown[1]]).size) := by
    rw [buildFilter, hentries]
    simp only [Indexing.writeFamily, hwrite, Except.mapError]
  have hscan : sizeScan (latest regrown) largeRequest = ["/a/new"] := by
    rw [sizeScan, hlast, byId, List.mergeSort_singleton]
    cbv
  refine ⟨hblank, d', _, hbuild, fun v => ?_⟩
  rw [search_by_size hbuild (fun _ _ => rfl) v hblank rfl, hscan]
  rfl

end VolumeSearch.Search
