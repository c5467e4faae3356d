import Mathlib.Tactic.Common
import VolumeSearch.Proofs.Search.ByPath
import VolumeSearch.Proofs.Search.Candidates

/-! The directory that a search for words is confined to. Paths are compared with it as texts, so that a
search also shows what lies in a sibling whose name goes on where that of the directory ends. -/
namespace VolumeSearch.Search
open Indexing (recorded termMaps writeFamilies)
open Entry (DistinctIds byId)
open VolumeSearch.Text

def isWithin (dir path : String) : Bool := path = dir || isBelow dir path

/-- The path starts as that of the directory does, and goes on with no slash. -/
def goesOn (dir path : String) : Bool :=
  dir.toList.isPrefixOf path.toList && (path.toList.drop dir.toList.length).head?.any (· ≠ '/')

variable {dir path : String}

private theorem isBelow_iff : isBelow dir path = true ↔ ∃ rest, path.toList = dir.toList ++ '/' :: rest := by
  have hslash : (dir ++ "/").toList = dir.toList ++ ['/'] := String.toList_append
  rw [isBelow, List.isPrefixOf_iff_prefix, hslash]
  constructor
  · rintro ⟨rest, hrest⟩
    exact ⟨rest, by rw [← hrest, List.append_assoc]; rfl⟩
  · rintro ⟨rest, hrest⟩
    exact ⟨rest, by rw [hrest, List.append_assoc]; rfl⟩

private theorem goesOn_iff :
    goesOn dir path = true ↔ ∃ c rest, c ≠ '/' ∧ path.toList = dir.toList ++ c :: rest := by
  rw [goesOn, Bool.and_eq_true, List.isPrefixOf_iff_prefix]
  constructor
  · rintro ⟨⟨rest, hrest⟩, hnext⟩
    rw [← hrest, List.drop_left] at hnext
    cases rest with
    | nil => cases hnext
    | cons c rest => exact ⟨c, rest, of_decide_eq_true hnext, hrest.symm⟩
  · rintro ⟨c, rest, hc, hrest⟩
    refine ⟨⟨c :: rest, hrest.symm⟩, ?_⟩
    rw [hrest, List.drop_left]
    exact decide_eq_true hc

/-- What starts with the path of a directory is within it, or only goes on with its name. -/
theorem isPrefixOf_eq (dir path : String) :
    dir.toList.isPrefixOf path.toList = (isWithin dir path || goesOn dir path) := by
  rw [Bool.eq_iff_iff, Bool.or_eq_true, isWithin, Bool.or_eq_true, isBelow_iff, goesOn_iff,
    List.isPrefixOf_iff_prefix, decide_eq_true_eq]
  constructor
  · rintro ⟨rest, hrest⟩
    cases rest with
    | nil => exact .inl (.inl (String.toList_inj.mp (by rw [← hrest, List.append_nil])))
    | cons c rest =>
      by_cases hc : c = '/'
      · exact .inl (.inr ⟨rest, by rw [← hrest, hc]⟩)
      · exact .inr ⟨c, rest, hc, hrest.symm⟩
  · rintro ((rfl | ⟨rest, hrest⟩) | ⟨c, rest, -, hrest⟩)
    · exact List.prefix_rfl
    · exact ⟨_, hrest.symm⟩
    · exact ⟨_, hrest.symm⟩

theorem not_isWithin_of_goesOn (h : goesOn dir path = true) : isWithin dir path = false := by
  obtain ⟨c, rest, hc, hpath⟩ := goesOn_iff.mp h
  rw [isWithin, Bool.or_eq_false_iff, decide_eq_false_iff_not, ← Bool.not_eq_true, isBelow_iff]
  constructor
  · rintro rfl
    exact List.cons_ne_nil _ _ (List.append_right_eq_self.mp hpath.symm)
  · rintro ⟨rest', hpath'⟩
    have hsame := List.append_cancel_left (hpath.symm.trans hpath')
    exact hc (List.cons.inj hsame).1

private theorem passes_eq {p : Plan} (hwords : p.byPath = false) (e : Entry) : passes p none e =
    ((isWithin p.parent e.path || goesOn p.parent e.path) &&
      passes { p with parent := "" } none e) := by
  have hfree : { p with parent := "" }.byPath = false := hwords
  have hall : "".toList.isPrefixOf e.path.toList = true := rfl
  rw [passes, passes, inScope_of_words hwords, inScope_of_words hfree, ← isPrefixOf_eq, hall,
    Bool.and_true, Bool.and_comm]

/-- The scope is all that the parent of a plan for words decides on. -/
private theorem results_of_scope {s : Source} (hc : s.catalog.Readable) {p : Plan}
    (hwords : p.byPath = false) :
    ∃ found, results s { p with parent := "" } = .ok found ∧
      results s p = .ok (found.filter fun path => isWithin p.parent path || goesOn p.parent path) := by
  have hfree : { p with parent := "" }.byPath = false := hwords
  have hsame : proposed s { p with parent := "" } = proposed s p := rfl
  refine ⟨_, results_of_words hc hfree, ?_⟩
  rw [results_of_words hc hwords, hsame, List.filter_map, List.filter_filter]
  refine congrArg (fun l => Except.ok (List.map Entry.path l)) ?_
  exact List.filter_congr fun e _ => passes_eq hwords e

/-- A search for words below a directory shows, of what is found without one, all that is within the
directory, and also all that only goes on with its name. -/
theorem search_scope {s : Source} (hc : s.catalog.Readable) {r : Request}
    (hslash : '/' ∉ (trim r.text).toList) :
    ∃ found, results s { r with parent := "" }.plan = .ok found ∧
      search s r = .ok (page (found.filter fun path =>
        isWithin (SlashPath.slashes r.parent) path || goesOn (SlashPath.slashes r.parent) path)
        r.offset (pageLimit r.limit)) := by
  have hparent : r.plan.parent = SlashPath.slashes r.parent := rfl
  have hwords : r.plan.byPath = false := by rw [plan_of_words hslash]
  have hfree : { r with parent := "" }.plan = { r.plan with parent := "" } := by
    have hempty : SlashPath.slashes "" = "" := by decide
    rw [plan_of_words hslash, plan_of_words (r := { r with parent := "" }) hslash, hempty]
  obtain ⟨found, hfound, hscope⟩ := results_of_scope hc hwords
  rw [hparent] at hscope
  refine ⟨found, ?_, search_of_results hscope⟩
  rw [hfree, hfound]

/-- Two files of one name, in directories of which one has the name of the other and a letter more. -/
def twinNotes : List Entry :=
  [⟨1, "/doc/a.md", "a.md", "md", 16, 0, false, false⟩,
    ⟨2, "/docs/a.md", "a.md", "md", 16, 0, false, false⟩]

def twinRequest : Request := ⟨"a", "/doc", 0, 0, none⟩

private theorem distinctIds_twins : DistinctIds twinNotes := by
  unfold DistinctIds
  decide

private theorem nameScan_twins : nameScan twinNotes twinRequest = ["/doc/a.md", "/docs/a.md"] ∧
    nameScan twinNotes { twinRequest with parent := "" } = ["/doc/a.md", "/docs/a.md"] := by
  have hsorted : byId twinNotes = twinNotes := List.mergeSort_of_pairwise (by decide)
  simp only [nameScan, nameHits, isNear, carriers, hsorted]
  constructor <;> cbv

private theorem results_of_twins : ∃ d' counts,
    writeFamilies IndexDir.absent [] (termMaps twinNotes) = (d', .ok counts) ∧
    ∀ v, results ⟨d', (recorded twinNotes).1, v⟩ twinRequest.plan =
        .ok ["/doc/a.md", "/docs/a.md"] ∧
      results ⟨d', (recorded twinNotes).1, v⟩ { twinRequest with parent := "" }.plan =
        .ok ["/doc/a.md", "/docs/a.md"] := by
  have hfits (f : Family) : Index.Fits (.ofEntries f twinNotes) := by
    cases f <;> exact TermMap.fits_ofEntries (by cbv)
  obtain ⟨d', hwrite, hholds⟩ :=
    Indexing.writeFamilies_termMaps distinctIds_twins hfits Index.ready_absent
  have hserves (f : Family) : Serves d' twinNotes f := Index.openIn_of_holds (hfits f) (hholds f)
  obtain ⟨hrecords, -⟩ := Indexing.recorded_catalog distinctIds_twins
  have hfound (v : Volume) (r : Request) (htext : r.text = "a") (hsize : r.size = none) :
      results ⟨d', (recorded twinNotes).1, v⟩ r.plan = .ok (nameScan twinNotes r) := by
    have hslash : '/' ∉ (trim r.text).toList := by
      have htrim : trim "a" = "a" := by cbv
      rw [htext, htrim]
      decide
    exact results_by_name hrecords distinctIds_twins hserves hslash (by simp [hsize])
  refine ⟨d', _, hwrite, fun v => ⟨?_, ?_⟩⟩
  · rw [hfound v _ rfl rfl, nameScan_twins.1]
  · rw [hfound v _ rfl rfl, nameScan_twins.2]

theorem search_twins_in_scope :
    '/' ∉ (trim twinRequest.text).toList ∧ (recorded twinNotes).1.Readable ∧
    ∃ d' counts, writeFamilies IndexDir.absent [] (termMaps twinNotes) = (d', .ok counts) ∧
      ∀ v, search ⟨d', (recorded twinNotes).1, v⟩ twinRequest =
        .ok (page (["/doc/a.md", "/docs/a.md"].filter fun path =>
          isWithin "/doc" path || goesOn "/doc" path) 0 100) := by
  have htext : trim twinRequest.text = "a" := by cbv
  have hslash : '/' ∉ (trim twinRequest.text).toList := by
    rw [htext]
    decide
  have hreadable := readable_of_records (Indexing.recorded_catalog distinctIds_twins).1
  obtain ⟨d', counts, hwrite, hresults⟩ := results_of_twins
  refine ⟨hslash, hreadable, d', counts, hwrite, fun v => ?_⟩
  obtain ⟨found, hfound, hsearch⟩ := search_scope (s := ⟨d', (recorded twinNotes).1, v⟩) hreadable hslash
  obtain rfl := Except.ok.inj (hfound.symm.trans (hresults v).2)
  have hparent : SlashPath.slashes twinRequest.parent = "/doc" := by cbv
  rw [hsearch, hparent]
  rfl

/-- A file is shown that is not in the directory asked for. -/
theorem search_shows_sibling :
    SlashPath.clean "/doc" = "/doc" ∧ isWithin "/doc" "/docs/a.md" = false ∧
    ∃ d' counts, writeFamilies IndexDir.absent [] (termMaps twinNotes) = (d', .ok counts) ∧
      ∀ v, search ⟨d', (recorded twinNotes).1, v⟩ ⟨"a", "/doc", 0, 0, none⟩ =
        .ok ["/doc/a.md", "/docs/a.md"] := by
  obtain ⟨d', counts, hwrite, hresults⟩ := results_of_twins
  have hclean : SlashPath.clean "/doc" = "/doc" := by cbv
  have hsibling : goesOn "/doc" "/docs/a.md" = true := by cbv
  exact ⟨hclean, not_isWithin_of_goesOn hsibling, d', counts, hwrite,
    fun v => search_of_results (r := twinRequest) (hresults v).1⟩

end VolumeSearch.Search
