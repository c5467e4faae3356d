import Mathlib.Tactic.Common
import VolumeSearch.Proofs.Search.ByName
import VolumeSearch.Proofs.SlashPath
import VolumeSearch.Proofs.Term

/-! A search by path finds what is recorded at the path and below it. Whatever lies there has all tokens
of the path, so it is an exact match, and approximate matches elsewhere are out of scope. -/
namespace VolumeSearch.Search
open Index (Fits Ready)
open Indexing (recorded termMaps writeFamilies)
open Entry (DistinctIds DistinctPaths byId idsWhere)
open VolumeSearch.Text

def isBelow (q path : String) : Bool := (q ++ "/").toList.isPrefixOf path.toList

/-- The entry lies below a path, or it is the entry at the path and that is no directory. -/
def isOnPath (es : List Entry) (q : String) (e : Entry) : Bool :=
  if es.any fun o => o.isDir && o.path = q then isBelow q e.path
  else e.path = q || isBelow q e.path

/-- The paths that a request by path asks for, in the order of the ids, found without an index. -/
def pathScan (es : List Entry) (q : String) (size : Option SizeFilter) : List String :=
  ((byId es).filter fun e => isOnPath es q e && hasSize size e).map Entry.path

variable {es : List Entry} {c : Catalog}

/-- What lies on a path has the tokens of the path. -/
private theorem hasAll_of_isOnPath {q : String} {e : Entry} (hq : Term.tokens q ≠ [])
    (h : isOnPath es q e = true) : hasAll .path (Term.tokens q) e = true := by
  have hpath : e.path = q ∨ isBelow q e.path = true := by
    unfold isOnPath at h
    split at h
    · exact .inr h
    · simpa using h
  have htokens : ∀ t ∈ Term.tokens q, t ∈ Term.tokens e.path := by
    intro t ht
    rcases hpath with rfl | hbelow
    · exact ht
    · obtain ⟨rest, hrest⟩ := List.isPrefixOf_iff_prefix.mp hbelow
      have hsplit : e.path = q ++ "/" ++ String.ofList rest := by
        rw [← String.toList_inj, String.toList_append, String.toList_ofList, hrest]
      rw [hsplit, Term.tokens_append_slash]
      exact List.mem_append_left _ ht
  simpa [hasAll, hq, Family.terms] using htokens

private def directoryAt (es : List Entry) (q : String) : Option String :=
  if es.any fun o => o.isDir && o.path = q then some (SlashPath.asDirectory q) else none

private theorem indexedDirectory_eq (hc : c.Records es) (hr : c.Reverses es) (hids : DistinctIds es)
    (hpaths : DistinctPaths es) (q : String) : indexedDirectory c q = .ok (directoryAt es q) := by
  rw [indexedDirectory, hr.idByPath hc.works]
  cases hat : Entry.atPath? es q with
  | none =>
    have hnone : (es.any fun o => o.isDir && o.path = q) = false := by
      rw [List.any_eq_false]
      intro o ho
      simpa using fun _ => by simpa using List.find?_eq_none.mp hat o ho
    rw [directoryAt, hnone]
    rfl
  | some o =>
    obtain ⟨ho, hpath⟩ := (Entry.atPath?_eq_some hpaths).mp hat
    have hload : loadEntry c o.id = .ok (some o) := by
      rw [loadEntry_eq hc, (Entry.withId?_eq_some hids).mpr ⟨ho, rfl⟩]
    have hany : (es.any fun o => o.isDir && o.path = q) = o.isDir := by
      rw [Bool.eq_iff_iff, List.any_eq_true]
      constructor
      · rintro ⟨o', ho', h⟩
        simp only [Bool.and_eq_true, decide_eq_true_eq] at h
        have hat' := (Entry.atPath?_eq_some hpaths).mpr ⟨ho', h.2⟩
        obtain rfl := Option.some.inj (hat.symm.trans hat')
        exact h.1
      · exact fun h => ⟨o, ho, by simp [h, hpath]⟩
    simp only [Option.map_some, hload, Except.map, directoryAt, hany, hpath]

/-- The scope of a plan by path is what lies on its path. -/
private theorem inScope_eq (es : List Entry) {p : Plan} (hpath : p.byPath = true)
    (hdirectory : SlashPath.asDirectory p.target = p.target ++ "/") (e : Entry) :
    p.inScope (directoryAt es p.target) e.path = isOnPath es p.target e := by
  have hne : p.target ++ "/" ≠ "" := by
    intro h
    have hlist := congrArg String.toList h
    rw [String.toList_append] at hlist
    exact absurd (List.append_eq_nil_iff.mp hlist).2 (by decide)
  unfold Plan.inScope directoryAt isOnPath
  rw [if_pos hpath, hdirectory]
  by_cases hany : (es.any fun o => o.isDir && o.path = p.target) = true
  · rw [if_pos hany, if_pos hany]
    exact if_neg hne
  · rw [if_neg hany, if_neg hany]
    rfl

private theorem asDirectory_targetPath {parent text : String}
    (htokens : Term.tokens (targetPath parent text) ≠ []) :
    SlashPath.asDirectory (targetPath parent text) = targetPath parent text ++ "/" := by
  have hne : targetPath parent text ≠ "" := fun h => htokens (by rw [h]; rfl)
  have hslash : SlashPath.endsInSlash (targetPath parent text) ≠ true := by
    intro h
    rw [targetPath] at h htokens
    rw [SlashPath.eq_root_of_endsInSlash_clean h] at htokens
    have hroot : Term.tokens "/" = [] := by cbv
    exact htokens hroot
  rw [SlashPath.asDirectory, if_neg (by simp [hne, hslash])]

/-- What a request by path finds in a source with the entries. Nothing is asked of the n-grams. -/
private theorem results_by_path {s : Source} (hc : s.catalog.Records es) (hr : s.catalog.Reverses es)
    (hids : DistinctIds es) (hpaths : DistinctPaths es) (hexact : Serves s.index es .path)
    (hfilter : Serves s.index es .filter) {r : Request} (hslash : '/' ∈ (trim r.text).toList)
    (htokens : Term.tokens r.plan.target ≠ []) (hlisting : s.volume.listing? r.plan.target = none) :
    results s r.plan = .ok (pathScan es r.plan.target r.size) := by
  have hpath : r.plan.byPath = true := (byPath_plan r).mpr hslash
  have hfamily : Family.exact r.plan.byPath = .path := by rw [hpath]; rfl
  have hblank : ¬ (r.plan.size.isSome = true ∧ r.plan.text = "") := by
    rintro ⟨-, htext⟩
    have hempty : trim r.text = "" := htext
    rw [hempty] at hslash
    exact List.not_mem_nil hslash
  have hdirectory : SlashPath.asDirectory r.plan.target = r.plan.target ++ "/" := by
    rw [target_of_path hslash] at htokens ⊢
    exact asDirectory_targetPath htokens
  have hindexed := indexedDirectory_eq hc hr hids hpaths r.plan.target
  have hfound := indexed_eq hc hids r.plan (directoryAt es r.plan.target) (by rwa [hfamily]) hfilter
    hblank
  rw [results, hpath, if_pos rfl, hlisting]
  simp only [hindexed, bind, Except.bind, hfound]
  refine congrArg (fun l => Except.ok (l.map Entry.path)) (List.filter_congr fun e he => ?_)
  rw [Entry.mem_byId] at he
  have hasc := Entry.idsWhere_pairwise_lt hids (hasAll .path (Term.tokens r.plan.target))
  -- what is on the path is an exact match, so the scope alone decides
  have hmatch (hon : isOnPath es r.plan.target e = true) :
      e.id ∈ withFuzzy s.index r.plan (idsWhere es (hasAll .path (Term.tokens r.plan.target))) :=
    (withFuzzy_spec _ _ hasc).2 _
      ((Entry.id_mem_idsWhere hids _ he).mpr (hasAll_of_isOnPath htokens hon))
  have hpasses : passes r.plan (directoryAt es r.plan.target) e =
      (hasSize r.size e && isOnPath es r.plan.target e) :=
    congrArg (hasSize r.size e && ·) (inScope_eq es hpath hdirectory e)
  rw [hfamily, hpasses, Bool.eq_iff_iff, Bool.and_eq_true, Bool.and_eq_true, Bool.and_eq_true,
    List.contains_iff_mem]
  exact ⟨fun h => ⟨h.2.2, h.2.1⟩, fun h => ⟨hmatch h.1, h.2, h.1⟩⟩

/-- When entries are recorded in a new catalog and their families are written, every search whose
text has a slash, and whose path has a token and leads to nothing on the volume, gives the page of
the paths on that path. Only two of the families take part: whatever becomes of the others, and
so whether approximate matches were added, is of no account. -/
theorem search_by_path (hids : DistinctIds es) (hpaths : DistinctPaths es)
    (hfits : ∀ f, Fits (.ofEntries f es)) {d : IndexDir} (hready : ∀ f, Ready d f) :
    ∃ d', writeFamilies d [] (termMaps es) =
        (d', .ok (Family.all.map fun f => (f, (TermMap.ofEntries f es).size))) ∧
      ∀ (d'' : IndexDir), (∀ n ∈ Family.path.files ++ Family.filter.files, d''.item? n = d'.item? n) →
      ∀ (v : Volume) (r : Request), '/' ∈ (trim r.text).toList →
        let q := targetPath (SlashPath.slashes r.parent) (trim r.text)
        Term.tokens q ≠ [] → v.listing? q = none →
        search ⟨d'', (recorded es).1, v⟩ r =
          .ok (page (pathScan es q r.size) r.offset (pageLimit r.limit)) := by
  obtain ⟨d', hwrite, hholds⟩ := Indexing.writeFamilies_termMaps hids hfits hready
  obtain ⟨hrecords, hreverses⟩ := Indexing.recorded_catalog hids
  refine ⟨d', hwrite, ?_⟩
  intro d'' hsame v r hslash q htokens hlisting
  have hserves {f : Family} (hf : ∀ n ∈ f.files, d''.item? n = d'.item? n) : Serves d'' es f :=
    Index.openIn_of_holds (hfits f) ((hholds f).congr hf)
  have htarget : r.plan.target = q := target_of_path hslash
  rw [← htarget] at htokens hlisting
  rw [search, results_by_path (s := ⟨d'', (recorded es).1, v⟩) hrecords (hreverses hpaths) hids hpaths
    (hserves fun n hn => hsame n (List.mem_append_left _ hn))
    (hserves fun n hn => hsame n (List.mem_append_right _ hn)) hslash htokens hlisting, htarget]
  rfl

def docsRequest : Request := ⟨" docs/ ", "", 0, 0, none⟩

private theorem pathScan_docs : pathScan docsAndReport "docs" none = ["docs/Report_2024.txt"] := by
  simp only [pathScan, byId_docsAndReport]
  cbv

theorem search_docs_by_path :
    DistinctIds docsAndReport ∧ DistinctPaths docsAndReport ∧
    (∀ f, Fits (.ofEntries f docsAndReport)) ∧ (∀ f, Ready .absent f) ∧
    '/' ∈ (trim docsRequest.text).toList ∧ Term.tokens docsRequest.plan.target ≠ [] ∧
    ∃ d' counts, writeFamilies IndexDir.absent [] (termMaps docsAndReport) = (d', .ok counts) ∧
      ∀ v : Volume, v.listing? docsRequest.plan.target = none ∧
        search ⟨d', (recorded docsAndReport).1, v⟩ docsRequest = .ok ["docs/Report_2024.txt"] := by
  have hpaths : DistinctPaths docsAndReport := by
    unfold DistinctPaths
    decide
  have hslash : '/' ∈ (trim docsRequest.text).toList := by decide +kernel
  have htarget : targetPath (SlashPath.slashes docsRequest.parent) (trim docsRequest.text) = "docs" := by
    decide +kernel
  have htokens : Term.tokens "docs" ≠ [] := by decide +kernel
  have hlisting (v : Volume) : v.listing? "docs" = none := rfl
  obtain ⟨d', hwrite, hsearch⟩ :=
    search_by_path distinctIds_docsAndReport hpaths fits_docsAndReport Index.ready_absent
  have hplan : docsRequest.plan.target = "docs" := by decide +kernel
  refine ⟨distinctIds_docsAndReport, hpaths, fits_docsAndReport, Index.ready_absent, hslash,
    by rwa [hplan], d', _, hwrite, fun v => ⟨by rw [hplan]; exact hlisting v, ?_⟩⟩
  have hanswer := hsearch d' (fun n _ => rfl) v docsRequest hslash
  rw [htarget] at hanswer
  rw [hanswer htokens (hlisting v)]
  have hscan : pathScan docsAndReport "docs" docsRequest.size = ["docs/Report_2024.txt"] :=
    pathScan_docs
  rw [hscan]
  rfl

end VolumeSearch.Search
