import Mathlib.Tactic.Common
import VolumeSearch.Proofs.Search.BySize

/-! What the entries have in common with the text that finds them. An exact match has every word of the
text in its name. An approximate one has n-grams of the text, but only those count that some name has: a
word whose n-grams are in no name is passed over. -/
namespace VolumeSearch.Search
open Index (Fits Ready)
open Indexing (recorded termMaps writeFamilies)
open Entry (DistinctIds byId)
open VolumeSearch.Text

def HasWords (text : String) (e : Entry) : Prop := ∀ t ∈ Term.tokens text, t ∈ Family.name.terms e

/-- The name has an n-gram of a text, and every one of them that any of the names has. -/
structure HasGrams (es : List Entry) (text : String) (e : Entry) : Prop where
  one : ∃ g ∈ Term.ngrams text, g ∈ Family.nameNgram.terms e
  every : ∀ g ∈ Term.ngrams text, (∃ o ∈ es, g ∈ Family.nameNgram.terms o) →
    g ∈ Family.nameNgram.terms e

variable {es : List Entry}

private theorem hasGrams_of_isNear {text : String} {e : Entry}
    (h : isNear es .nameNgram (Term.ngrams text) e = true) : HasGrams es text e := by
  obtain ⟨hsome, hall⟩ := Bool.and_eq_true_iff.mp h
  have hcarries : ∀ g ∈ Term.ngrams text, carriers es .nameNgram g ≠ [] →
      g ∈ Family.nameNgram.terms e := by
    intro g hg hne
    have hfirst := List.all_eq_true.mp hall g (List.mem_filter.mpr ⟨hg, decide_eq_true hne⟩)
    exact ((mem_carriers _ g e).mp (List.mem_of_mem_take (List.contains_iff_mem.mp hfirst))).2
  refine ⟨?_, fun g hg ho => hcarries g hg ?_⟩
  · rw [Bool.not_eq_true', List.isEmpty_eq_false_iff] at hsome
    obtain ⟨g, hg⟩ := List.exists_mem_of_ne_nil _ hsome
    obtain ⟨hmem, hne⟩ := List.mem_filter.mp hg
    exact ⟨g, hmem, hcarries g hmem (of_decide_eq_true hne)⟩
  · obtain ⟨o, ho, hterm⟩ := ho
    exact List.ne_nil_of_mem ((mem_carriers _ g o).mpr ⟨ho, hterm⟩)

private theorem hit_spec {text : String} {limit : Nat} {e : Entry} (h : e ∈ nameHits es text limit) :
    e ∈ es ∧ (HasWords text e ∨ HasGrams es text e) := by
  have hwords (h : hasAll .name (Term.tokens text) e = true) : HasWords text e := by
    intro t ht
    rw [hasAll, Bool.and_eq_true, List.all_eq_true] at h
    exact List.contains_iff_mem.mp (h.2 t ht)
  unfold nameHits at h
  dsimp only at h
  split at h
  · obtain ⟨he, hexact⟩ := List.mem_filter.mp h
    exact ⟨(Entry.mem_byId e).mp he, .inl (hwords hexact)⟩
  · obtain ⟨he, hhit⟩ := List.mem_filter.mp h
    refine ⟨(Entry.mem_byId e).mp he, ?_⟩
    exact (Bool.or_eq_true_iff.mp hhit).imp hwords hasGrams_of_isNear

private theorem search_entries {s : Source} {r : Request} {found : List Entry}
    (h : results s r.plan = .ok (found.map Entry.path)) :
    ∃ shown : List Entry, search s r = .ok (shown.map Entry.path) ∧ ∀ e ∈ shown, e ∈ found := by
  refine ⟨(found.drop r.offset).take (pageLimit r.limit), ?_, fun e he => ?_⟩
  · rw [search_of_results h, page, List.map_take, List.map_drop]
  · exact List.mem_of_mem_drop (List.mem_of_mem_take he)

/-- When entries are recorded in a new catalog and their families are written, every search whose text
has no slash gives entries that have all words of the text in their names, or at least one n-gram of
the text and all those that any name has. -/
theorem search_words_or_grams (hids : DistinctIds es) (hfits : ∀ f, Fits (.ofEntries f es))
    {d : IndexDir} (hready : ∀ f, Ready d f) :
    ∃ d', writeFamilies d [] (termMaps es) =
        (d', .ok (Family.all.map fun f => (f, (TermMap.ofEntries f es).size))) ∧
      ∀ (v : Volume) (r : Request), '/' ∉ (trim r.text).toList →
        ∃ shown : List Entry, search ⟨d', (recorded es).1, v⟩ r = .ok (shown.map Entry.path) ∧
          ∀ e ∈ shown, e ∈ es ∧ (HasWords (trim r.text) e ∨ HasGrams es (trim r.text) e) := by
  obtain ⟨d', hwrite, hholds⟩ := Indexing.writeFamilies_termMaps hids hfits hready
  have hserves (f : Family) : Serves d' es f := Index.openIn_of_holds (hfits f) (hholds f)
  obtain ⟨hrecords, -⟩ := Indexing.recorded_catalog hids
  refine ⟨d', hwrite, fun v r hslash => ?_⟩
  let s : Source := ⟨d', (recorded es).1, v⟩
  by_cases hsizes : r.size.isSome = true ∧ trim r.text = ""
  · -- without words there is nothing to have in common
    obtain ⟨hsome, hblank⟩ := hsizes
    obtain ⟨f, hsize⟩ := Option.isSome_iff_exists.mp hsome
    obtain ⟨shown, hsearch, hshown⟩ :=
      search_entries (results_by_size (s := s) hrecords hids (hserves .filter) hblank hsize)
    have hnone : Term.tokens "" = [] := by cbv
    refine ⟨shown, hsearch, fun e he => ⟨?_, .inl fun t ht => ?_⟩⟩
    · exact (Entry.mem_byId e).mp (List.mem_of_mem_filter (hshown e he))
    · rw [hblank, hnone] at ht
      exact absurd ht List.not_mem_nil
  · obtain ⟨shown, hsearch, hshown⟩ :=
      search_entries (results_by_name (s := s) hrecords hids hserves hslash hsizes)
    exact ⟨shown, hsearch, fun e he => hit_spec (List.mem_of_mem_filter (hshown e he))⟩

def holiday : Entry := ⟨1, "/d/holiday.jpg", "holiday.jpg", "jpg", 2048, 86400, false, false⟩

private theorem fits_holiday (f : Family) : Fits (.ofEntries f [holiday]) := by
  cases f <;> exact TermMap.fits_ofEntries (by cbv)

private theorem terms_holiday : Family.name.terms holiday = ["holiday", "jpg"] ∧
    Family.nameNgram.terms holiday = ["ho", "ol", "li", "id", "da", "ay", "jp", "pg"] := by
  constructor <;> cbv

/-- The picture is found by its word with another last letter, and by its word beside one that is
nowhere. -/
private theorem search_holiday : ∃ d' counts,
    writeFamilies IndexDir.absent [] (termMaps [holiday]) = (d', .ok counts) ∧
    ∀ v, search ⟨d', (recorded [holiday]).1, v⟩ ⟨"holidax", "", 0, 0, none⟩ = .ok ["/d/holiday.jpg"] ∧
      search ⟨d', (recorded [holiday]).1, v⟩ ⟨"holiday zebra", "", 0, 0, none⟩ =
        .ok ["/d/holiday.jpg"] := by
  have hids : DistinctIds [holiday] := List.nodup_singleton _
  obtain ⟨d', hwrite, hholds⟩ := Indexing.writeFamilies_termMaps hids fits_holiday Index.ready_absent
  have hserves (f : Family) : Serves d' [holiday] f := Index.openIn_of_holds (fits_holiday f) (hholds f)
  obtain ⟨hrecords, -⟩ := Indexing.recorded_catalog hids
  have hscan (text : String) (hslash : '/' ∉ (trim text).toList)
      (hfound : nameScan [holiday] ⟨text, "", 0, 0, none⟩ = ["/d/holiday.jpg"]) (v : Volume) :
      search ⟨d', (recorded [holiday]).1, v⟩ ⟨text, "", 0, 0, none⟩ = .ok ["/d/holiday.jpg"] := by
    have hresults := results_by_name (s := ⟨d', (recorded [holiday]).1, v⟩) hrecords hids hserves
      (r := ⟨text, "", 0, 0, none⟩) hslash (by simp)
    rw [search_of_results hresults, hfound]
    rfl
  refine ⟨d', _, hwrite, fun v => ⟨hscan _ ?_ ?_ v, hscan _ ?_ ?_ v⟩⟩
  · have htrim : trim "holidax" = "holidax" := by cbv
    rw [htrim]
    decide
  · simp only [nameScan, nameHits, isNear, carriers, byId, List.mergeSort_singleton]
    cbv
  · have htrim : trim "holiday zebra" = "holiday zebra" := by cbv
    rw [htrim]
    decide
  · simp only [nameScan, nameHits, isNear, carriers, byId, List.mergeSort_singleton]
    cbv

/-- A word with a wrong letter is no word of the name, and has n-grams of it. -/
theorem search_misspelt :
    DistinctIds [holiday] ∧ (∀ f, Fits (.ofEntries f [holiday])) ∧ (∀ f, Ready .absent f) ∧
    '/' ∉ (trim "holidax").toList ∧ ¬ HasWords "holidax" holiday ∧
    ∃ d' counts, writeFamilies IndexDir.absent [] (termMaps [holiday]) = (d', .ok counts) ∧
      ∀ v, search ⟨d', (recorded [holiday]).1, v⟩ ⟨"holidax", "", 0, 0, none⟩ =
          .ok ["/d/holiday.jpg"] ∧ HasGrams [holiday] "holidax" holiday := by
  have hids : DistinctIds [holiday] := List.nodup_singleton _
  have htrim : trim "holidax" = "holidax" := by cbv
  have hslash : '/' ∉ (trim "holidax").toList := by
    rw [htrim]
    decide
  have hwords : ¬ HasWords "holidax" holiday := by
    have htokens : Term.tokens "holidax" = ["holidax"] := by cbv
    rw [HasWords, htokens, terms_holiday.1]
    decide
  obtain ⟨d', counts, hwrite, hfound⟩ := search_holiday
  obtain ⟨d₁, hwrite₁, hcommon⟩ := search_words_or_grams hids fits_holiday Index.ready_absent
  obtain ⟨rfl, -⟩ := Prod.mk.inj (hwrite.symm.trans hwrite₁)
  refine ⟨hids, fits_holiday, Index.ready_absent, hslash, hwords, d', counts, hwrite, fun v => ?_⟩
  obtain ⟨shown, hsearch, hshown⟩ := hcommon v ⟨"holidax", "", 0, 0, none⟩ hslash
  have hpaths := Except.ok.inj (hsearch.symm.trans (hfound v).1)
  obtain ⟨e, rfl, -⟩ := List.map_eq_singleton_iff.mp hpaths
  obtain ⟨he, hcase⟩ := hshown e List.mem_cons_self
  obtain rfl := List.mem_singleton.mp he
  rw [htrim] at hcase
  exact ⟨(hfound v).1, hcase.resolve_left hwords⟩

/-- A word whose n-grams are in no name is passed over: the only entry is found, which has neither all
words of the text nor all its n-grams. -/
theorem search_passes_over_word :
    "zebra" ∈ Term.tokens "holiday zebra" ∧ "zebra" ∉ Family.name.terms holiday ∧
    "ze" ∈ Term.ngrams "holiday zebra" ∧ "ze" ∉ Family.nameNgram.terms holiday ∧
    ∃ d' counts, writeFamilies IndexDir.absent [] (termMaps [holiday]) = (d', .ok counts) ∧
      ∀ v, search ⟨d', (recorded [holiday]).1, v⟩ ⟨"holiday zebra", "", 0, 0, none⟩ =
        .ok ["/d/holiday.jpg"] := by
  have htokens : Term.tokens "holiday zebra" = ["holiday", "zebra"] := by cbv
  have hgrams : Term.ngrams "holiday zebra" =
      ["ho", "ol", "li", "id", "da", "ay", "ze", "eb", "br", "ra"] := by cbv
  obtain ⟨d', counts, hwrite, hfound⟩ := search_holiday
  rw [htokens, hgrams, terms_holiday.1, terms_holiday.2]
  exact ⟨by decide, by decide, by decide, by decide, d', counts, hwrite, fun v => (hfound v).2⟩

end VolumeSearch.Search
