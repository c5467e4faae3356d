import Mathlib.Tactic.Common
import VolumeSearch.Proofs.Search.ByName
import VolumeSearch.Proofs.Term

/-! A part of a name finds the entry. The n-grams of the part are n-grams of the name, wherever it was cut
out, so the entry is near as long as its n-grams are not too common. -/
namespace VolumeSearch.Search
open Index (Fits Ready)
open Indexing (recorded termMaps writeFamilies)
open Entry (DistinctIds byId)
open VolumeSearch.Text

variable {es : List Entry}

private theorem isInfix_trim {text name : String} (h : text.toList <:+: name.toList) :
    (trim text).toList <:+: name.toList := by
  rw [trim, String.toList_ofList]
  exact (isInfix_trimChars text.toList).trans h

/-- An entry is near a part of its name when no n-gram of the part has more carriers than are read. -/
private theorem isNear_of_infix {e : Entry} (he : e ∈ es) {text : String}
    (hpart : text.toList <:+: e.name.toList) (hgrams : Term.ngrams text ≠ [])
    (hfew : ∀ g ∈ Term.ngrams text, (carriers es .nameNgram g).length ≤ fuzzyCap) :
    isNear es .nameNgram (Term.ngrams text) e = true := by
  have hterms : ∀ g ∈ Term.ngrams text, g ∈ Family.nameNgram.terms e :=
    fun g hg => Term.ngrams_subset hpart hg
  refine (isNear_iff he hterms).mpr ⟨hgrams, fun g hg => ?_⟩
  rw [List.take_of_length_le (hfew g hg), mem_carriers]
  exact ⟨he, hterms g hg⟩

/-- While exact matches fill less than three pages, the near entries are hits. -/
private theorem mem_nameHits_of_isNear {e : Entry} (he : e ∈ es) {text : String} {limit : Nat}
    (hnear : isNear es .nameNgram (Term.ngrams text) e = true)
    (hexact : (es.filter (hasAll .name (Term.tokens text))).length < 3 * limit) :
    e ∈ nameHits es text limit := by
  have hlength : ((byId es).filter (hasAll .name (Term.tokens text))).length =
      (es.filter (hasAll .name (Term.tokens text))).length :=
    ((List.mergeSort_perm es _).filter _).length_eq
  rw [nameHits, hlength, if_neg (Nat.not_le.mpr hexact), List.mem_filter, Entry.mem_byId, hnear, Bool.or_true]
  exact ⟨he, rfl⟩

/-- When entries are recorded in a new catalog and their families are written, an entry is found by every
part of its name that has no slash but has n-grams, as long as no n-gram of the part is carried by more
entries than are read and the entries with all words of the part fill less than three pages. -/
theorem search_by_fragment (hids : DistinctIds es) (hfits : ∀ f, Fits (.ofEntries f es)) {d : IndexDir}
    (hready : ∀ f, Ready d f) :
    ∃ d', writeFamilies d [] (termMaps es) =
        (d', .ok (Family.all.map fun f => (f, (TermMap.ofEntries f es).size))) ∧
      ∀ (v : Volume), ∀ e ∈ es, ∀ (r : Request), r.text.toList <:+: e.name.toList →
        '/' ∉ r.text.toList → r.parent = "" → r.size = none → Term.ngrams (trim r.text) ≠ [] →
        (∀ g ∈ Term.ngrams r.text, (carriers es .nameNgram g).length ≤ fuzzyCap) →
        (es.filter (hasAll .name (Term.tokens r.text))).length < 3 * pageLimit r.limit →
        ∃ found, results ⟨d', (recorded es).1, v⟩ r.plan = .ok found ∧ e.path ∈ found := by
  obtain ⟨d', hwrite, hholds⟩ := Indexing.writeFamilies_termMaps hids hfits hready
  have hserves (f : Family) : Serves d' es f := Index.openIn_of_holds (hfits f) (hholds f)
  obtain ⟨hrecords, -⟩ := Indexing.recorded_catalog hids
  refine ⟨d', hwrite, fun v e he r hpart hslash hparent hsize hgrams hcarriers hexact => ?_⟩
  have htrimmed : (trim r.text).toList <:+: r.text.toList := isInfix_trim (List.infix_refl _)
  have hresults := results_by_name (s := ⟨d', (recorded es).1, v⟩) (r := r) hrecords hids hserves
    (fun hmem => hslash (htrimmed.subset hmem)) (by simp [hsize])
  refine ⟨_, hresults, List.mem_map_of_mem (List.mem_filter.mpr ⟨?_, ?_⟩)⟩
  · apply mem_nameHits_of_isNear he
    · apply isNear_of_infix he (isInfix_trim hpart) hgrams
      exact fun g hg => hcarriers g (Term.ngrams_subset htrimmed hg)
    · rwa [Term.tokens_trim]
  · have hanywhere : SlashPath.slashes r.parent = "" := by rw [hparent]; rfl
    simp [hanywhere, hasSize, hsize]

def tourPlan : Entry := ⟨4, "/d/ΟΔΟΣ旅行 tour.txt", "ΟΔΟΣ旅行 tour.txt", "txt", 2048, 86400, false, false⟩

/-- Neither end of the part is the end of a word, the only whole word in it is none of the name, and its
sigma is lowered differently. -/
theorem search_tour_by_fragment :
    DistinctIds [tourPlan] ∧ (∀ f, Fits (.ofEntries f [tourPlan])) ∧ (∀ f, Ready .absent f) ∧
    "Σ旅行 to".toList <:+: tourPlan.name.toList ∧ '/' ∉ "Σ旅行 to".toList ∧
    Term.ngrams (trim "Σ旅行 to") = ["旅行"] ∧ Term.ngrams "Σ旅行 to" = ["旅行"] ∧
    Term.tokens "Σ旅行 to" = ["to"] ∧ Family.name.terms tourPlan = ["tour", "txt"] ∧
    ∃ d' counts, writeFamilies IndexDir.absent [] (termMaps [tourPlan]) = (d', .ok counts) ∧
      ∀ v, ∃ found, results ⟨d', (recorded [tourPlan]).1, v⟩
        (Request.plan ⟨"Σ旅行 to", "", 0, 0, none⟩) = .ok found ∧ tourPlan.path ∈ found := by
  have hids : DistinctIds [tourPlan] := List.nodup_singleton _
  have hfits (f : Family) : Fits (.ofEntries f [tourPlan]) := by
    cases f <;> exact TermMap.fits_ofEntries (by decide +kernel)
  have hpart : "Σ旅行 to".toList <:+: tourPlan.name.toList := by decide
  have hslash : '/' ∉ "Σ旅行 to".toList := by decide
  have htrimmed : Term.ngrams (trim "Σ旅行 to") = ["旅行"] := by decide +kernel
  have hgrams : Term.ngrams "Σ旅行 to" = ["旅行"] := by decide +kernel
  have htokens : Term.tokens "Σ旅行 to" = ["to"] := by decide +kernel
  have hwords : Family.name.terms tourPlan = ["tour", "txt"] := by decide +kernel
  obtain ⟨d', hwrite, hfound⟩ := search_by_fragment hids hfits Index.ready_absent
  refine ⟨hids, hfits, Index.ready_absent, hpart, hslash, htrimmed, hgrams, htokens, hwords, d', _, hwrite,
    fun v => hfound v tourPlan List.mem_cons_self ⟨"Σ旅行 to", "", 0, 0, none⟩ hpart hslash rfl rfl ?_ ?_ ?_⟩
  · rw [htrimmed]
    decide
  · intro g hg
    exact (List.length_filter_le _ _).trans (by simp [byId, fuzzyCap])
  · exact Nat.lt_of_le_of_lt (List.length_filter_le _ _) (by decide)

end VolumeSearch.Search
