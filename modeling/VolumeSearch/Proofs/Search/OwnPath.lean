import Mathlib.Tactic.Common
import VolumeSearch.Proofs.Search.ByPath
import VolumeSearch.Proofs.Search.MovedDirectories

/-! A search for the path of a file. Only ASCII characters make words, and n-grams come from longer words
or neighbouring CJK characters, so there are paths that leave nothing to look up. Every other file is found by its
path, and nothing else is. -/
namespace VolumeSearch.Search
open Index (Fits Ready)
open Indexing (recorded termMaps writeFamilies)
open Entry (DistinctIds DistinctPaths byId idsWhere)
open VolumeSearch.Text

/-- The index leads to the entry from its path: by a word, or else by n-grams, the entry being among the first
ones with each of them. -/
def IsReachable (es : List Entry) (e : Entry) : Prop :=
  Term.tokens e.path ≠ [] ∨
    (Term.ngrams e.path ≠ [] ∧
      ∀ g ∈ Term.ngrams e.path, e ∈ (carriers es .pathNgram g).take fuzzyCap)

variable {es : List Entry} {c : Catalog} {e : Entry}

private theorem indexedDirectory_of_file (hc : c.Records es) (hr : c.Reverses es) (hids : DistinctIds es)
    (hpaths : DistinctPaths es) (he : e ∈ es) (hfile : e.isDir = false) :
    indexedDirectory c e.path = .ok none := by
  have hload : loadEntry c e.id = .ok (some e) := by
    rw [loadEntry_eq hc, (Entry.withId?_eq_some hids).mpr ⟨he, rfl⟩]
  rw [indexedDirectory, hr.idByPath hc.works, (Entry.atPath?_eq_some hpaths).mpr ⟨he, rfl⟩]
  simp [hload, Except.map, hfile]

private theorem plan_of_own_path {r : Request} (htext : r.text = e.path) (htrim : trim r.text = r.text)
    (hrooted : SlashPath.isRooted e.path = true) (hclean : SlashPath.clean e.path = e.path) :
    r.plan.byPath = true ∧ r.plan.target = e.path := by
  have hslash : '/' ∈ (trim r.text).toList := by
    rw [htrim, htext]
    rw [SlashPath.isRooted, decide_eq_true_eq] at hrooted
    exact List.mem_of_mem_head? (Option.mem_def.mpr hrooted)
  refine ⟨(byPath_plan r).mpr hslash, ?_⟩
  rw [target_of_path hslash, htrim, htext, targetPath, if_neg (by simp [hrooted]), hclean]

/-- The ids that match the words of a path are those with its words, and the near ones. -/
private theorem id_mem_withFuzzy (hids : DistinctIds es) {d : IndexDir} {p : Plan} (hpath : p.byPath = true)
    (htarget : p.target = e.path) (hlimit : 0 < p.limit) (hfuzzy : Serves d es .pathNgram) (he : e ∈ es) :
    e.id ∈ withFuzzy d p (idsWhere es (hasAll .path (Term.tokens p.target))) ↔ IsReachable es e := by
  have hfamily : Family.fuzzy p.byPath = .pathNgram := by rw [hpath]; rfl
  have hnear := isNear_iff (f := .pathNgram) he fun g (hg : g ∈ Term.ngrams e.path) => hg
  rw [withFuzzy_eq hids p (by rwa [hfamily]), hfamily, htarget, Entry.id_mem_idsWhere hids _ he,
    Bool.or_eq_true, Bool.and_eq_true, hnear, decide_eq_true_eq]
  by_cases htokens : Term.tokens e.path = []
  · -- without words there is no exact match, so n-grams are asked for
    have hnone : idsWhere es (hasAll .path []) = [] := by simp [idsWhere, hasAll]
    have hpositive : 0 < p.limit * fuzzyPages := Nat.mul_pos hlimit (by decide)
    simp [htokens, hnone, hpositive, IsReachable, hasAll]
  · have hall : hasAll .path (Term.tokens e.path) e = true := by simp [hasAll, htokens, Family.terms]
    exact iff_of_true (.inl hall) (.inl htokens)

/-- Of the entries only the file itself is at its path or below. -/
private theorem passes_iff (hpaths : DistinctPaths es) {p : Plan} (hpath : p.byPath = true)
    (htarget : p.target = e.path) (hsize : p.size = none) (he : e ∈ es)
    (hbelow : ∀ o ∈ es, isBelow e.path o.path = false) {o : Entry} (ho : o ∈ es) :
    passes p none o = true ↔ o = e := by
  have hscope : passes p none o = (decide (o.path = e.path) || isBelow e.path o.path) := by
    rw [passes, hsize, Bool.true_and, Plan.inScope, if_pos hpath, ← htarget]
    rfl
  rw [hscope, hbelow o ho, Bool.or_false, decide_eq_true_eq]
  exact ⟨List.inj_on_of_nodup_map hpaths ho he, congrArg Entry.path⟩

private theorem results_of_own_path {s : Source} (hc : s.catalog.Records es) (hr : s.catalog.Reverses es)
    (hids : DistinctIds es) (hpaths : DistinctPaths es) (hserves : ∀ f, Serves s.index es f) {p : Plan}
    (hpath : p.byPath = true) (htarget : p.target = e.path) (hlimit : 0 < p.limit) (hsize : p.size = none)
    (he : e ∈ es) (hfile : e.isDir = false) (hbelow : ∀ o ∈ es, isBelow e.path o.path = false)
    (hlisting : s.volume.listing? e.path = none) :
    (IsReachable es e → results s p = .ok [e.path]) ∧ (¬ IsReachable es e → results s p = .ok []) := by
  have hmatch := id_mem_withFuzzy hids hpath htarget hlimit (hserves .pathNgram) he
  have hfamily : Family.exact p.byPath = .path := by rw [hpath]; rfl
  have hfound := indexed_eq hc hids p none (hserves _) (hserves .filter) (by simp [hsize])
  rw [hfamily] at hfound
  rw [results, hpath, if_pos rfl, htarget, hlisting]
  simp only [indexedDirectory_of_file hc hr hids hpaths he hfile, bind, Except.bind, hfound]
  -- only the file itself passes, so all that matters is whether it is proposed
  have honly := fun {o : Entry} ho => passes_iff hpaths hpath htarget hsize he hbelow (o := o) ho
  constructor
  · intro hreachable
    refine congrArg (fun l : List Entry => Except.ok (l.map Entry.path)) (?_ : _ = [e])
    apply Entry.eq_of_mem_iff ((Entry.byId_pairwise_lt hids).filter _) (List.pairwise_singleton _ _)
    intro o
    rw [List.mem_filter, Entry.mem_byId, Bool.and_eq_true, List.contains_iff_mem, List.mem_singleton]
    constructor
    · rintro ⟨ho, -, hpasses⟩
      exact (honly ho).mp hpasses
    · rintro rfl
      exact ⟨he, hmatch.mpr hreachable, (honly he).mpr rfl⟩
  · intro hunreachable
    refine congrArg (fun l : List Entry => Except.ok (l.map Entry.path)) (List.filter_eq_nil_iff.mpr ?_)
    intro o ho hboth
    rw [Entry.mem_byId] at ho
    rw [Bool.and_eq_true, List.contains_iff_mem] at hboth
    obtain rfl := (honly ho).mp hboth.2
    exact hunreachable (hmatch.mp hboth.1)

private theorem search_of_own_path {s : Source} (hc : s.catalog.Records es) (hr : s.catalog.Reverses es)
    (hids : DistinctIds es) (hpaths : DistinctPaths es) (hserves : ∀ f, Serves s.index es f) (he : e ∈ es)
    (hfile : e.isDir = false) (hrooted : SlashPath.isRooted e.path = true)
    (hclean : SlashPath.clean e.path = e.path) (hlisting : s.volume.listing? e.path = none)
    (hbelow : ∀ o ∈ es, isBelow e.path o.path = false) {r : Request} (htext : r.text = e.path)
    (htrim : trim r.text = r.text) (hoffset : r.offset = 0) (hsize : r.size = none) :
    (IsReachable es e → search s r = .ok [e.path]) ∧ (¬ IsReachable es e → search s r = .ok []) := by
  obtain ⟨hpath, htarget⟩ := plan_of_own_path htext htrim hrooted hclean
  have hlimit : 0 < pageLimit r.limit := by
    unfold pageLimit defaultLimit maxLimit
    split <;> omega
  obtain ⟨hone, hnone⟩ := results_of_own_path hc hr hids hpaths hserves hpath htarget hlimit hsize he hfile
    hbelow hlisting
  constructor
  · intro hreachable
    have hpage : page [e.path] r.offset (pageLimit r.limit) = [e.path] := by
      rw [page, hoffset, List.drop_zero, List.take_of_length_le hlimit]
    rw [search_of_results (hone hreachable), hpage]
  · intro hunreachable
    rw [search_of_results (hnone hunreachable), page, List.drop_nil, List.take_nil]

/-- When entries are recorded in a new catalog and their families are written, a search for the clean path of
a file, which leads to nothing on the volume and below which nothing is recorded, finds the file alone if the
index leads to it from its path, and nothing otherwise. -/
theorem search_own_path (hids : DistinctIds es) (hpaths : DistinctPaths es)
    (hfits : ∀ f, Fits (.ofEntries f es)) {d : IndexDir} (hready : ∀ f, Ready d f) :
    ∃ d', writeFamilies d [] (termMaps es) =
        (d', .ok (Family.all.map fun f => (f, (TermMap.ofEntries f es).size))) ∧
      ∀ (v : Volume), ∀ e ∈ es, e.isDir = false → SlashPath.isRooted e.path = true →
        SlashPath.clean e.path = e.path → v.listing? e.path = none →
        (∀ o ∈ es, isBelow e.path o.path = false) →
        ∀ (r : Request), r.text = e.path → trim r.text = r.text → r.offset = 0 → r.size = none →
          (IsReachable es e → search ⟨d', (recorded es).1, v⟩ r = .ok [e.path]) ∧
          (¬ IsReachable es e → search ⟨d', (recorded es).1, v⟩ r = .ok []) := by
  obtain ⟨d', hwrite, hholds⟩ := Indexing.writeFamilies_termMaps hids hfits hready
  have hserves (f : Family) : Serves d' es f := Index.openIn_of_holds (hfits f) (hholds f)
  obtain ⟨hrecords, hreverses⟩ := Indexing.recorded_catalog hids
  refine ⟨d', hwrite, ?_⟩
  intro v e he hfile hrooted hclean hlisting hbelow r htext htrim hoffset hsize
  exact search_of_own_path hrecords (hreverses hpaths) hids hpaths hserves he hfile hrooted hclean hlisting
    hbelow htext htrim hoffset hsize

def letterFile : Entry := ⟨1, "/é", "é", "", 2048, 0, false, false⟩

def travelFile : Entry := ⟨2, "/旅行/é", "é", "", 2048, 0, false, false⟩

def wordless : List Entry := [letterFile, travelFile]

private theorem distinct_wordless : DistinctIds wordless ∧ DistinctPaths wordless := by
  unfold DistinctIds DistinctPaths
  decide

private theorem fits_wordless (f : Family) : Fits (.ofEntries f wordless) := by
  cases f <;> exact TermMap.fits_ofEntries (by decide +kernel)

/-- Both are files at clean paths with nothing below them, and they are not on the volume. -/
private theorem at_wordless : ∀ e ∈ wordless, e.isDir = false ∧ SlashPath.isRooted e.path = true ∧
    SlashPath.clean e.path = e.path ∧ trim e.path = e.path ∧ emptyVolume.listing? e.path = none ∧
    ∀ o ∈ wordless, isBelow e.path o.path = false := by
  have hlisting {path name : String} {rest : List String} (hsteps : Volume.steps path = name :: rest)
      (hname : name ≠ "." ∧ name ≠ "..") : emptyVolume.listing? path = none :=
    Volume.listing?_eq_none_of_lookup rfl hsteps hname.1 hname.2 rfl
  intro e he
  rcases List.mem_cons.mp he with rfl | he
  · refine ⟨rfl, by decide, by cbv, by cbv, ?_, by decide⟩
    have hsteps : Volume.steps letterFile.path = ["é"] := by decide
    exact hlisting hsteps (by decide)
  · obtain rfl := List.mem_singleton.mp he
    refine ⟨rfl, by decide, by cbv, by cbv, ?_, by decide⟩
    have hsteps : Volume.steps travelFile.path = ["旅行", "é"] := by decide
    exact hlisting hsteps (by decide)

/-- A file without a word in its path is found by the two neighbouring characters in it. -/
theorem search_wordless_path :
    DistinctIds wordless ∧ DistinctPaths wordless ∧ (∀ f, Fits (.ofEntries f wordless)) ∧
    (∀ f, Ready .absent f) ∧ SlashPath.clean "/旅行/é" = "/旅行/é" ∧ trim "/旅行/é" = "/旅行/é" ∧
    emptyVolume.listing? "/旅行/é" = none ∧ (∀ o ∈ wordless, isBelow "/旅行/é" o.path = false) ∧
    ∃ d' counts, writeFamilies IndexDir.absent [] (termMaps wordless) = (d', .ok counts) ∧
      search ⟨d', (recorded wordless).1, emptyVolume⟩ ⟨"/旅行/é", "", 0, 0, none⟩ = .ok ["/旅行/é"] := by
  obtain ⟨hids, hpaths⟩ := distinct_wordless
  have he : travelFile ∈ wordless := List.mem_cons_of_mem _ List.mem_cons_self
  obtain ⟨hfile, hrooted, hclean, htrim, hlisting, hbelow⟩ := at_wordless _ he
  obtain ⟨d', hwrite, hsearch⟩ := search_own_path hids hpaths fits_wordless Index.ready_absent
  refine ⟨hids, hpaths, fits_wordless, Index.ready_absent, hclean, htrim, hlisting, hbelow, d', _, hwrite, ?_⟩
  refine (hsearch emptyVolume _ he hfile hrooted hclean hlisting hbelow ⟨"/旅行/é", "", 0, 0, none⟩ rfl htrim
    rfl rfl).1 (.inr ⟨?_, fun g hg => ?_⟩)
  · have hgrams : Term.ngrams travelFile.path = ["旅行"] := by decide +kernel
    rw [hgrams]
    exact List.cons_ne_nil _ _
  · have hlength : (carriers wordless .pathNgram g).length ≤ fuzzyCap :=
      (List.length_filter_le _ _).trans (by simp [byId, wordless, fuzzyCap])
    rw [List.take_of_length_le hlength, mem_carriers]
    exact ⟨he, hg⟩

/-- A file with a single letter beyond ASCII in its path is not found by its path. -/
theorem search_misses_own_path :
    DistinctIds wordless ∧ DistinctPaths wordless ∧ (∀ f, Fits (.ofEntries f wordless)) ∧
    (∀ f, Ready .absent f) ∧ letterFile ∈ wordless ∧
    (∀ e ∈ wordless, SlashPath.isRooted e.path = true ∧ SlashPath.clean e.path = e.path) ∧
    trim "/é" = "/é" ∧ emptyVolume.listing? "/é" = none ∧ (∀ o ∈ wordless, isBelow "/é" o.path = false) ∧
    ∃ d' counts, writeFamilies IndexDir.absent [] (termMaps wordless) = (d', .ok counts) ∧
      search ⟨d', (recorded wordless).1, emptyVolume⟩ ⟨"/é", "", 0, 0, none⟩ = .ok [] := by
  obtain ⟨hids, hpaths⟩ := distinct_wordless
  have he : letterFile ∈ wordless := List.mem_cons_self
  obtain ⟨hfile, hrooted, hclean, htrim, hlisting, hbelow⟩ := at_wordless _ he
  have hforms : ∀ e ∈ wordless, SlashPath.isRooted e.path = true ∧ SlashPath.clean e.path = e.path :=
    fun e he => ⟨(at_wordless e he).2.1, (at_wordless e he).2.2.1⟩
  have hunreachable : ¬ IsReachable wordless letterFile := by
    have htokens : Term.tokens letterFile.path = [] := by decide +kernel
    have hgrams : Term.ngrams letterFile.path = [] := by decide +kernel
    rw [IsReachable, htokens, hgrams]
    simp
  obtain ⟨d', hwrite, hholds⟩ := Indexing.writeFamilies_termMaps hids fits_wordless Index.ready_absent
  have hserves (f : Family) : Serves d' wordless f := Index.openIn_of_holds (fits_wordless f) (hholds f)
  obtain ⟨hrecords, hreverses⟩ := Indexing.recorded_catalog hids
  have hsearch := search_of_own_path (s := ⟨d', (recorded wordless).1, emptyVolume⟩)
    (r := ⟨letterFile.path, "", 0, 0, none⟩) hrecords (hreverses hpaths) hids hpaths hserves he hfile hrooted
    hclean hlisting hbelow rfl htrim rfl rfl
  exact ⟨hids, hpaths, fits_wordless, Index.ready_absent, he, hforms, htrim, hlisting, hbelow, d', _, hwrite,
    hsearch.2 hunreachable⟩

end VolumeSearch.Search
