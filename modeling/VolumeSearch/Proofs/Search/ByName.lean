import Mathlib.Tactic.Common
import VolumeSearch.Proofs.Search.Engine

namespace VolumeSearch.Search
open Index (Fits Ready)
open Indexing (recorded termMaps writeFamilies)
open Entry (DistinctIds byId idsWhere)
open VolumeSearch.Text

def hasSize (size : Option SizeFilter) (e : Entry) : Bool :=
  match size with
  | some f => !e.isDir && f.accepts e.size
  | none => true

/-- The entries with all tokens of a text in their names, and the near ones unless those fill three
pages. -/
def nameHits (es : List Entry) (text : String) (limit : Nat) : List Entry :=
  let exact := (byId es).filter (hasAll .name (Term.tokens text))
  if 3 * limit ≤ exact.length then exact
  else (byId es).filter fun e =>
    hasAll .name (Term.tokens text) e || isNear es .nameNgram (Term.ngrams text) e

/-- The paths that a request by name asks for, in the order of the ids, found without an index. -/
def nameScan (es : List Entry) (r : Request) : List String :=
  let parent := SlashPath.slashes r.parent
  ((nameHits es (trim r.text) (pageLimit r.limit)).filter fun e =>
    (parent = "" || parent.toList.isPrefixOf e.path.toList) && hasSize r.size e).map Entry.path

variable {es : List Entry}

private theorem nameHits_eq_filter (es : List Entry) (text : String) (limit : Nat) :
    nameHits es text limit = (byId es).filter fun e => e ∈ nameHits es text limit := by
  have hsome : ∃ h, nameHits es text limit = (byId es).filter h := by
    by_cases hfull : 3 * limit ≤ ((byId es).filter (hasAll .name (Term.tokens text))).length
    · exact ⟨_, if_pos hfull⟩
    · exact ⟨_, if_neg hfull⟩
  obtain ⟨h, heq⟩ := hsome
  rw [heq]
  refine List.filter_congr fun e he => ?_
  simp [(Entry.mem_byId e).mp he]

private theorem withFuzzy_by_name (hids : DistinctIds es) {d : IndexDir} {p : Plan}
    (hname : p.byPath = false) (htarget : p.target = p.text) (hd : Serves d es .nameNgram) {e : Entry}
    (he : e ∈ es) :
    e.id ∈ withFuzzy d p (idsWhere es (hasAll .name (Term.tokens p.target))) ↔
      e ∈ nameHits es p.text p.limit := by
  have hfuzzy : Family.fuzzy p.byPath = .nameNgram := by rw [hname]; rfl
  have hlength : (idsWhere es (hasAll .name (Term.tokens p.text))).length =
      ((byId es).filter (hasAll .name (Term.tokens p.text))).length := List.length_map _
  rw [withFuzzy_eq hids p (by rwa [hfuzzy]), hfuzzy, htarget, Entry.id_mem_idsWhere hids _ he, hlength,
    nameHits, Nat.mul_comm p.limit fuzzyPages]
  have hpages : fuzzyPages = 3 := rfl
  rw [hpages]
  split
  · next hfull => simp [Nat.not_lt.mpr hfull, he]
  · next hfew => simp [Nat.not_le.mp hfew, he]

theorem results_by_name {s : Source} (hc : s.catalog.Records es) (hids : DistinctIds es)
    (hserves : ∀ f, Serves s.index es f) {r : Request} (hslash : '/' ∉ (trim r.text).toList)
    (hblank : ¬ (r.size.isSome = true ∧ trim r.text = "")) :
    results s r.plan = .ok (nameScan es r) := by
  have hname : r.plan.byPath = false := by rw [plan_of_words hslash]
  have htarget : r.plan.target = r.plan.text := by rw [plan_of_words hslash]
  have hexact : Family.exact r.plan.byPath = .name := by rw [hname]; rfl
  have hscope (path : String) : r.plan.inScope none path = (SlashPath.slashes r.parent = "" ||
      (SlashPath.slashes r.parent).toList.isPrefixOf path.toList) := by
    rw [Plan.inScope, hname, if_neg Bool.false_ne_true]
    rfl
  have hpasses (e : Entry) : passes r.plan none e =
      (hasSize r.size e && r.plan.inScope none e.path) := rfl
  rw [results, hname, if_neg Bool.false_ne_true]
  refine (indexed_eq hc hids r.plan none (hserves _) (hserves _) hblank).trans ?_
  rw [hexact, nameScan, nameHits_eq_filter, List.filter_filter]
  refine congrArg (fun l => Except.ok (l.map Entry.path)) (List.filter_congr fun e he => ?_)
  rw [Entry.mem_byId] at he
  have hhit := withFuzzy_by_name hids hname htarget (hserves .nameNgram) he
  rw [Bool.eq_iff_iff]
  simp only [Bool.and_eq_true, List.contains_iff_mem, hhit, hpasses, hscope, decide_eq_true_eq]
  exact ⟨fun h => ⟨⟨h.2.2, h.2.1⟩, h.1⟩, fun h => ⟨h.2, h.1.2, h.1.1⟩⟩

/-- When entries are recorded in a new catalog and their families are written, every search whose
text has no slash gives the page of the paths that a scan of the entries gives. -/
theorem search_by_name (hids : DistinctIds es) (hfits : ∀ f, Fits (.ofEntries f es)) {d : IndexDir}
    (hready : ∀ f, Ready d f) :
    ∃ d', writeFamilies d [] (termMaps es) =
        (d', .ok (Family.all.map fun f => (f, (TermMap.ofEntries f es).size))) ∧
      ∀ (v : Volume) (r : Request), '/' ∉ (trim r.text).toList →
        ¬ (r.size.isSome = true ∧ trim r.text = "") →
        search ⟨d', (recorded es).1, v⟩ r =
          .ok (page (nameScan es r) r.offset (pageLimit r.limit)) := by
  obtain ⟨d', hwrite, hholds⟩ := Indexing.writeFamilies_termMaps hids hfits hready
  have hserves (f : Family) : Serves d' es f := Index.openIn_of_holds (hfits f) (hholds f)
  obtain ⟨hrecords, -⟩ := Indexing.recorded_catalog hids
  refine ⟨d', hwrite, fun v r hslash hblank => ?_⟩
  rw [search, results_by_name (s := ⟨d', (recorded es).1, v⟩) hrecords hids hserves hslash hblank]
  rfl

def docsAndReport : List Entry :=
  [⟨3, "docs", "docs", "", 4096, 0, true, false⟩,
    ⟨7, "docs/Report_2024.txt", "Report_2024.txt", "txt", 2048, 86400, false, false⟩]

theorem distinctIds_docsAndReport : DistinctIds docsAndReport := by
  unfold DistinctIds
  decide

theorem fits_docsAndReport (f : Family) : Fits (.ofEntries f docsAndReport) := by
  cases f <;> exact TermMap.fits_ofEntries (by cbv)

theorem byId_docsAndReport : byId docsAndReport = docsAndReport := by
  refine List.mergeSort_of_pairwise ?_
  decide

def reportRequest : Request := ⟨" report ", "docs\\", 0, 0, some ⟨.gt, 1024⟩⟩

private theorem nameScan_report : nameScan docsAndReport reportRequest = ["docs/Report_2024.txt"] := by
  simp only [nameScan, nameHits, isNear, carriers, byId_docsAndReport]
  cbv

theorem search_report_by_name :
    DistinctIds docsAndReport ∧ (∀ f, Fits (.ofEntries f docsAndReport)) ∧
    (∀ f, Ready .absent f) ∧ '/' ∉ (trim reportRequest.text).toList ∧
    ¬ (reportRequest.size.isSome = true ∧ trim reportRequest.text = "") ∧
    ∃ d' counts, writeFamilies IndexDir.absent [] (termMaps docsAndReport) = (d', .ok counts) ∧
      ∀ v, search ⟨d', (recorded docsAndReport).1, v⟩ reportRequest =
        .ok ["docs/Report_2024.txt"] := by
  have hslash : '/' ∉ (trim reportRequest.text).toList := by decide +kernel
  have hblank : ¬ (reportRequest.size.isSome = true ∧ trim reportRequest.text = "") := by
    decide +kernel
  obtain ⟨d', hwrite, hsearch⟩ :=
    search_by_name distinctIds_docsAndReport fits_docsAndReport Index.ready_absent
  refine ⟨distinctIds_docsAndReport, fits_docsAndReport, Index.ready_absent, hslash, hblank, d', _,
    hwrite, fun v => ?_⟩
  rw [hsearch v reportRequest hslash hblank, nameScan_report]
  rfl

end VolumeSearch.Search
