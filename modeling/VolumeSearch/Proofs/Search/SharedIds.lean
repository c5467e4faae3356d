import Mathlib.Tactic.Common
import VolumeSearch.Proofs.Search.Proposed

/-! Entries that share an id, such as the several names of one file. The families have the id under the
words of every name, and the store has one record for it, the last one. So what is found are last
records, by words that may stand in different names of the file. -/
namespace VolumeSearch.Search
open Index (Fits Ready Reader Reads)
open Indexing (recordEntry textMaps writeFamilies)
open Entry (latest withId?)
open VolumeSearch.Text

def FuzzyAddsNothing (d : IndexDir) (p : Plan) : Prop :=
  ∀ r exact, Reader.openIn d (.exact p.byPath) = .ok r → exactIds r (Term.tokens p.target) = .ok exact →
    ∀ id ∈ withFuzzy d p exact, id ∈ exact

/-- Words that are too short to have n-grams have no approximate matches. -/
theorem fuzzyAddsNothing_of_ngrams (d : IndexDir) {p : Plan} (h : Term.ngrams p.target = []) :
    FuzzyAddsNothing d p := by
  intro r exact _ _ id hid
  have hnothing : withFuzzy d p exact = exact := by
    unfold withFuzzy
    rw [h]
    split
    · rfl
    · cases Reader.openIn d (.fuzzy p.byPath) <;> rfl
  rwa [hnothing] at hid

/-- Once an entry with an id is recorded, the last one is found under it. -/
theorem entryAt?_persistAll {c : Catalog} (hworks : c.store.outage = {}) {es : List Entry} {o : Entry}
    (ho : o ∈ es) : ∃ e ∈ latest es, e.id = o.id ∧ (c.persistAll es).entryAt? o.id = some e := by
  obtain ⟨e, he, hid⟩ := Entry.exists_mem_lastBy Entry.id ho
  have hfound := (Entry.withId?_eq_some (Entry.distinctIds_latest es)).mpr ⟨he, hid⟩
  refine ⟨e, he, hid, ?_⟩
  rw [Catalog.entryAt?, Catalog.getElem?_entryKey_persistAll hworks, hfound]
  exact Entry.ofBytes?_toBytes e

variable {c : Catalog} {es : List Entry} {d : IndexDir}

private theorem mem_results_of_words (hworks : c.store.outage = {}) (hname : Serves d es .name)
    (v : Volume) {p : Plan} (hwords : p.byPath = false) (hparent : p.parent = "") (hsize : p.size = none)
    (htokens : Term.tokens p.target ≠ []) (hfuzzy : FuzzyAddsNothing d p) :
    ∃ paths, results ⟨d, c.persistAll es, v⟩ p = .ok paths ∧
      ∀ path, path ∈ paths ↔ ∃ e ∈ latest es, e.path = path ∧
        ∀ t ∈ Term.tokens p.target, ∃ o ∈ es, o.id = e.id ∧ t ∈ Family.name.terms o := by
  have hfamily : Family.exact p.byPath = .name := by rw [hwords]; rfl
  rw [← hfamily] at hname ⊢
  obtain ⟨reader, exact, hopen, hexact, hasc, hmem, hcandidates⟩ := candidates_of_words hname hsize
  have hids (id : FileId) : id ∈ candidates d p ↔
      ∀ t ∈ Term.tokens p.target, ∃ o ∈ es, t ∈ (Family.exact p.byPath).terms o ∧ o.id = id := by
    rw [hcandidates]
    constructor
    · intro hid
      exact ((hmem id).mp (hfuzzy reader exact hopen hexact id hid)).2
    · intro hall
      exact (withFuzzy_spec d p hasc).2 id ((hmem id).mpr ⟨htokens, hall⟩)
  have hpasses (e : Entry) : passes p none e = true := by
    rw [passes, hsize, inScope_of_words hwords, hparent]
    rfl
  have hreadable : (c.persistAll es).Readable := fun key => by
    rw [Catalog.works_persistAll hworks]
  -- one word is enough to have an entry with the id at all
  obtain ⟨word, hword⟩ := List.exists_mem_of_ne_nil _ htokens
  refine ⟨_, results_of_words hreadable hwords, fun path => ?_⟩
  simp only [List.mem_map, List.mem_filter, hpasses, and_true, proposed, List.mem_filterMap]
  constructor
  · rintro ⟨e, ⟨id, hid, he⟩, rfl⟩
    have hall := (hids id).mp hid
    obtain ⟨o, ho, -, rfl⟩ := hall word hword
    obtain ⟨last, hlast, hsame, hfound⟩ := entryAt?_persistAll hworks ho
    obtain rfl := Option.some.inj (he.symm.trans hfound)
    refine ⟨e, hlast, rfl, fun t ht => ?_⟩
    obtain ⟨o', ho', hterm, hid'⟩ := hall t ht
    exact ⟨o', ho', hid'.trans hsame.symm, hterm⟩
  · rintro ⟨e, he, rfl, hall⟩
    obtain ⟨o, ho, hid, -⟩ := hall word hword
    obtain ⟨last, hlast, hsame, hfound⟩ := entryAt?_persistAll hworks ho
    obtain rfl := Entry.eq_of_id_eq (Entry.distinctIds_latest es) hlast he (hsame.trans hid)
    refine ⟨last, ⟨o.id, (hids o.id).mpr fun t ht => ?_, hfound⟩, rfl⟩
    obtain ⟨o', ho', hid', hterm⟩ := hall t ht
    exact ⟨o', ho', hterm, hid'.trans hid.symm⟩

/-- When entries are recorded one after the other, whether they share ids or not, and the text families
are written, a search for words anywhere finds the last entry of each id, if each word is in the name
of an entry with that id. It need not be in the name that is found. -/
theorem search_shared_ids (hworks : c.store.outage = {}) (hfits : ∀ f ∈ Family.text, Fits (.ofEntries f es))
    (hready : ∀ f ∈ Family.text, Ready d f) :
    ∃ d', writeFamilies d [] (textMaps (es.foldl recordEntry (c, {})).2.terms) =
        (d', .ok (Family.text.map fun f => (f, (TermMap.ofEntries f es).size))) ∧
      ∀ (d'' : IndexDir), (∀ n ∈ Family.name.files, d''.item? n = d'.item? n) →
      ∀ (v : Volume) (r : Request), '/' ∉ (trim r.text).toList → r.parent = "" → r.size = none →
        Term.tokens (trim r.text) ≠ [] → FuzzyAddsNothing d'' r.plan →
        ∃ paths, results ⟨d'', (es.foldl recordEntry (c, {})).1, v⟩ r.plan = .ok paths ∧
          ∀ path, path ∈ paths ↔ ∃ e ∈ latest es, e.path = path ∧
            ∀ t ∈ Term.tokens (trim r.text), ∃ o ∈ es, o.id = e.id ∧ t ∈ Family.name.terms o := by
  have hnodup : Family.text.Nodup := by decide
  obtain ⟨d', hwrite, hholds⟩ := Indexing.writeFamilies_ofEntries hnodup hfits hready
  rw [Indexing.foldl_recordEntry hworks, Indexing.textMaps_foldl_addEntry]
  refine ⟨d', hwrite, fun d'' hsame v r hslash hparent hsize htokens hfuzzy => ?_⟩
  have hmem : Family.name ∈ Family.text := by decide
  have hserves : Serves d'' es .name :=
    Index.openIn_of_holds (hfits _ hmem) ((hholds _ hmem).congr hsame)
  have hwords : r.plan.byPath = false := by rw [plan_of_words hslash]
  have htarget : r.plan.target = trim r.text := by rw [plan_of_words hslash]
  have hplain : r.plan.parent = "" := by
    have hempty : SlashPath.slashes "" = "" := by decide
    rw [plan_of_words hslash, hparent, hempty]
  rw [← htarget] at htokens ⊢
  exact mem_results_of_words hworks hserves v hwords hplain hsize htokens hfuzzy

def linkedNames : List Entry :=
  [⟨1, "/a/b1.txt", "b1.txt", "txt", 2048, 86400, false, false⟩,
    ⟨1, "/c/d2.txt", "d2.txt", "txt", 2048, 86400, false, false⟩]

private theorem fits_linkedNames : ∀ f ∈ Family.text, Fits (.ofEntries f linkedNames) := by
  intro f _
  cases f <;> exact TermMap.fits_ofEntries (by cbv)

private theorem terms_linkedNames : Family.name.terms linkedNames[0] = ["b1", "txt"] ∧
    Family.name.terms linkedNames[1] = ["d2", "txt"] := by
  constructor <;> cbv

private theorem latest_linkedNames : latest linkedNames = [linkedNames[1]] := by
  cbv

def bothNames : Request := ⟨"d2 b1", "", 0, 0, none⟩

theorem search_both_names :
    (∀ f ∈ Family.text, Fits (.ofEntries f linkedNames)) ∧ (∀ f ∈ Family.text, Ready .absent f) ∧
    '/' ∉ (trim bothNames.text).toList ∧ Term.tokens (trim bothNames.text) ≠ [] ∧
    ∃ d' counts, writeFamilies IndexDir.absent []
        (textMaps (linkedNames.foldl recordEntry (.empty, {})).2.terms) = (d', .ok counts) ∧
      FuzzyAddsNothing d' bothNames.plan ∧
      ∀ v, ∃ paths, results ⟨d', (linkedNames.foldl recordEntry (.empty, {})).1, v⟩ bothNames.plan =
        .ok paths ∧ "/c/d2.txt" ∈ paths := by
  have hready : ∀ f ∈ Family.text, Ready .absent f := fun f _ => Index.ready_absent f
  have htext : trim bothNames.text = "d2 b1" := by cbv
  have hslash : '/' ∉ (trim bothNames.text).toList := by
    rw [htext]
    decide
  have htokens : Term.tokens (trim bothNames.text) = ["d2", "b1"] := by cbv
  have hngrams : Term.ngrams bothNames.plan.target = [] := by
    rw [plan_of_words hslash]
    cbv
  have hne : Term.tokens (trim bothNames.text) ≠ [] := by rw [htokens]; simp
  obtain ⟨d', hwrite, hsearch⟩ := search_shared_ids (c := .empty) rfl fits_linkedNames hready
  have hfuzzy : FuzzyAddsNothing d' bothNames.plan := fuzzyAddsNothing_of_ngrams d' hngrams
  refine ⟨fits_linkedNames, hready, hslash, hne, d', _, hwrite, hfuzzy, fun v => ?_⟩
  obtain ⟨paths, hpaths, hmem⟩ := hsearch d' (fun _ _ => rfl) v bothNames hslash rfl rfl hne hfuzzy
  rw [htokens, latest_linkedNames] at hmem
  refine ⟨paths, hpaths, (hmem _).mpr ⟨linkedNames[1], List.mem_singleton_self _, rfl, ?_⟩⟩
  have hwords : ∀ t ∈ ["d2", "b1"],
      t ∈ Family.name.terms linkedNames[0] ∨ t ∈ Family.name.terms linkedNames[1] := by
    rw [terms_linkedNames.1, terms_linkedNames.2]
    decide
  intro t ht
  rcases hwords t ht with hfirst | hsecond
  · exact ⟨linkedNames[0], List.getElem_mem _, rfl, hfirst⟩
  · exact ⟨linkedNames[1], List.getElem_mem _, rfl, hsecond⟩

def firstName : Request := ⟨"b1", "", 0, 0, none⟩

/-- The path whose name has the word is not found; a path is found whose name does not have it. -/
theorem search_loses_first_name :
    Entry.DistinctPaths linkedNames ∧ Term.tokens (trim firstName.text) = ["b1"] ∧
    "b1" ∈ Family.name.terms linkedNames[0] ∧ "b1" ∉ Family.name.terms linkedNames[1] ∧
    ∃ d' counts, writeFamilies IndexDir.absent []
        (textMaps (linkedNames.foldl recordEntry (.empty, {})).2.terms) = (d', .ok counts) ∧
      FuzzyAddsNothing d' firstName.plan ∧
      ∀ v, ∃ paths, results ⟨d', (linkedNames.foldl recordEntry (.empty, {})).1, v⟩ firstName.plan =
        .ok paths ∧ "/a/b1.txt" ∉ paths ∧ "/c/d2.txt" ∈ paths := by
  have hpaths : Entry.DistinctPaths linkedNames := by
    unfold Entry.DistinctPaths
    decide
  have htokens : Term.tokens (trim firstName.text) = ["b1"] := by cbv
  have hfirst : "b1" ∈ Family.name.terms linkedNames[0] := by
    rw [terms_linkedNames.1]
    decide
  have hsecond : "b1" ∉ Family.name.terms linkedNames[1] := by
    rw [terms_linkedNames.2]
    decide
  have hslash : '/' ∉ (trim firstName.text).toList := by
    have htext : trim firstName.text = "b1" := by cbv
    rw [htext]
    decide
  have hplan := plan_of_words hslash
  have hngrams : Term.ngrams firstName.plan.target = [] := by
    rw [hplan]
    cbv
  have hnodup : Family.text.Nodup := by decide
  obtain ⟨d', hwrite, hholds⟩ := Indexing.writeFamilies_ofEntries hnodup fits_linkedNames
    fun f _ => Index.ready_absent f
  have hname : Family.name ∈ Family.text := by decide
  have hserves : Serves d' linkedNames .name :=
    Index.openIn_of_holds (fits_linkedNames _ hname) (hholds _ hname)
  have hfuzzy : FuzzyAddsNothing d' firstName.plan := fuzzyAddsNothing_of_ngrams d' hngrams
  rw [Indexing.foldl_recordEntry rfl, Indexing.textMaps_foldl_addEntry]
  refine ⟨hpaths, htokens, hfirst, hsecond, d', _, hwrite, hfuzzy, fun v => ?_⟩
  have htarget : Term.tokens firstName.plan.target = ["b1"] := by rw [hplan, htokens]
  have hplain : firstName.plan.parent = "" := by
    rw [hplan]
    cbv
  obtain ⟨paths, hresults, hmem⟩ := mem_results_of_words rfl hserves v (c := .empty)
    (p := firstName.plan) (by rw [hplan]) hplain rfl (by rw [htarget]; simp) hfuzzy
  rw [htarget, latest_linkedNames] at hmem
  refine ⟨paths, hresults, ?_, (hmem _).mpr ⟨linkedNames[1], List.mem_singleton_self _, rfl, ?_⟩⟩
  · rw [hmem]
    rintro ⟨e, he, hpath, -⟩
    obtain rfl := List.mem_singleton.mp he
    exact absurd hpath (by decide)
  · intro t ht
    obtain rfl := List.mem_singleton.mp ht
    exact ⟨linkedNames[0], List.getElem_mem _, rfl, hfirst⟩

end VolumeSearch.Search
