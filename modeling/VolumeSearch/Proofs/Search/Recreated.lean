import Mathlib.Tactic.Common
import VolumeSearch.Proofs.Indexing.Histories
import VolumeSearch.Proofs.Search.BySize
import VolumeSearch.Proofs.Search.Proposed
import VolumeSearch.Proofs.Volume.Listing

/-! Searches after passes over a volume, on which a file may come back with another id. The store never
drops the record of the old id, so a search for sizes alone shows a path for every id whose last record
has it. -/
namespace VolumeSearch.Search
open Indexing (Reindexed)
open Entry (DistinctIds DistinctPaths latest lastBy withId? atPath?)
open VolumeSearch.Text

def served? (v : Volume) (r : Request) : Option (List String) :=
  if r.plan.byPath then v.listing? r.plan.target else none

def Request.OnlySize (r : Request) : Prop := r.size.isSome = true ∧ trim r.text = ""

def lastAt? (history : List (List Entry)) (path : String) : Option Entry :=
  atPath? (lastBy Entry.path history.flatten) path

variable {start d : IndexDir} {history : List (List Entry)} {c : Catalog} {v : Volume} {r : Request}

/-- After a pass, the text families are those of its entries, and the filter family is that of all records
of the store. -/
private theorem serves_of_reindexed (h : Reindexed start history c d) : history = [] ∨
    ∃ earlier es, history = earlier ++ [es] ∧ DistinctIds es ∧ DistinctPaths es ∧
      (∀ f ∈ Family.text, Serves d es f) ∧ ∃ met, c.entries = .ok met ∧ Serves d met .filter := by
  cases h with
  | start => exact .inl rfl
  | @pass earlier c d es report h hids hpaths hok =>
    obtain ⟨htext, met, hmet, hfits, hholds⟩ := Indexing.holds_of_indexEntries h.works hok
    refine .inr ⟨earlier, es, rfl, hids, hpaths, fun f hf => ?_, met, hmet, ?_⟩
    · exact Index.openIn_of_holds (htext f hf).1 (htext f hf).2
    · exact Index.openIn_of_holds hfits hholds

private theorem readable_of_reindexed (h : Reindexed start history c d) : c.Readable := by
  rw [h.catalog_eq]
  exact readable_of_records (Catalog.records_persistAll _)

private theorem serves_words {es : List Entry} (hserves : ∀ f ∈ Family.text, Serves d es f) (p : Plan) :
    Serves d es (.exact p.byPath) ∧ Serves d es (.fuzzy p.byPath) := by
  cases p.byPath with
  | true => exact ⟨hserves .path (by decide), hserves .pathNgram (by decide)⟩
  | false => exact ⟨hserves .name (by decide), hserves .nameNgram (by decide)⟩

private theorem proposed_empty (d : IndexDir) (v : Volume) (p : Plan) : proposed ⟨d, .empty, v⟩ p = [] := by
  rw [proposed, List.filterMap_eq_nil_iff]
  intro id _
  have hnone := (Catalog.records_persistAll []).get id
  exact congrArg (·.bind Entry.ofBytes?) hnone

/-- Words propose entries of the last pass, in the order of their ids. -/
private theorem mem_of_proposed (earlier : List Entry) {es : List Entry} (hids : DistinctIds es)
    (hserves : ∀ f ∈ Family.text, Serves d es f) {p : Plan}
    (hwords : ¬ (p.size.isSome = true ∧ p.text = "")) :
    (proposed ⟨d, Catalog.empty.persistAll (earlier ++ es), v⟩ p).Pairwise (fun a b => a.id < b.id) ∧
      ∀ e ∈ proposed ⟨d, Catalog.empty.persistAll (earlier ++ es), v⟩ p, e ∈ es := by
  obtain ⟨hexact, hfuzzy⟩ := serves_words hserves p
  have hlast := Entry.distinctIds_latest (earlier ++ es)
  rw [proposed_eq (s := ⟨d, Catalog.empty.persistAll (earlier ++ es), v⟩)
    (Catalog.records_persistAll _) hlast (candidates_pairwise_lt hexact)]
  refine ⟨(Entry.byId_pairwise_lt hlast).filter _, fun e he => ?_⟩
  obtain ⟨hmem, hid⟩ := List.mem_filter.mp he
  obtain ⟨o, ho, hsame⟩ := id_of_candidates hids hexact hfuzzy hwords (List.contains_iff_mem.mp hid)
  -- of the two with one id, the one of the last pass is the last record
  have hfound : withId? (latest (earlier ++ es)) o.id = some o :=
    Entry.find?_lastBy_of_mem Entry.id earlier hids ho
  obtain ⟨hlatest, -⟩ := (Entry.withId?_eq_some hlast).mp hfound
  rwa [Entry.eq_of_id_eq hlast ((Entry.mem_byId e).mp hmem) hlatest hsame.symm]

/-- What words propose has each path once, and is the last record at its path. -/
private theorem proposed_of_words (h : Reindexed start history c d) (v : Volume) {p : Plan}
    (hwords : ¬ (p.size.isSome = true ∧ p.text = "")) :
    ((proposed ⟨d, c, v⟩ p).map Entry.path).Nodup ∧
      ∀ e ∈ proposed ⟨d, c, v⟩ p, lastAt? history e.path = some e := by
  have hcatalog := h.catalog_eq
  rcases serves_of_reindexed h with rfl | ⟨earlier, es, rfl, hids, hpaths, hserves, -⟩
  · obtain rfl : c = .empty := hcatalog
    simp [proposed_empty]
  · rw [List.flatten_append, List.flatten_singleton] at hcatalog
    obtain ⟨hasc, hmem⟩ := mem_of_proposed (v := v) earlier.flatten hids hserves hwords
    rw [← hcatalog] at hasc hmem
    constructor
    · have hnodup : (proposed ⟨d, c, v⟩ p).Nodup :=
        hasc.imp fun {a b} (hlt : a.id < b.id) (heq : a = b) => UInt64.lt_irrefl b.id (heq ▸ hlt)
      exact hnodup.map_on fun a ha b hb => List.inj_on_of_nodup_map hpaths (hmem a ha) (hmem b hb)
    · intro e he
      rw [lastAt?, List.flatten_append, List.flatten_singleton]
      exact Entry.find?_lastBy_of_mem Entry.path earlier.flatten hpaths (hmem e he)

/-- A search for words shows each path once, and by its last record. -/
private theorem search_words (h : Reindexed start history c d) (hserved : served? v r = none)
    (hwords : ¬ r.OnlySize) :
    ∃ paths, search ⟨d, c, v⟩ r = .ok paths ∧ paths.Nodup ∧
      ∀ path ∈ paths, ∃ e, lastAt? history path = some e ∧ hasSize r.size e = true := by
  have hlisting : r.plan.byPath = true → v.listing? r.plan.target = none := by
    intro hpath
    rw [served?, hpath, if_pos rfl] at hserved
    exact hserved
  obtain ⟨directory, -, hresults⟩ :=
    results_of_readable (s := ⟨d, c, v⟩) (readable_of_reindexed h) hlisting
  obtain ⟨hnodup, hlast⟩ := proposed_of_words h v (p := r.plan) hwords
  have hpage := page_sublist (((proposed ⟨d, c, v⟩ r.plan).filter (passes r.plan directory)).map Entry.path)
    r.offset (pageLimit r.limit)
  refine ⟨_, search_of_results hresults, ?_, fun path hpath => ?_⟩
  · exact (hnodup.sublist (List.filter_sublist.map Entry.path)).sublist hpage
  · obtain ⟨e, he, rfl⟩ := List.mem_map.mp (hpage.subset hpath)
    obtain ⟨hmem, hpasses⟩ := List.mem_filter.mp he
    exact ⟨e, hlast e hmem, (Bool.and_eq_true_iff.mp hpasses).1⟩

private theorem search_served {listed : List String} (h : served? v r = some listed) :
    search ⟨d, c, v⟩ r = .ok (page listed r.offset (pageLimit r.limit)) ∧
      (v.OneOfEachName → (page listed r.offset (pageLimit r.limit)).Nodup) := by
  unfold served? at h
  split at h
  · next hpath =>
    have hresults : results ⟨d, c, v⟩ r.plan = .ok listed := by
      rw [results, if_pos hpath, h]
      rfl
    exact ⟨search_of_results hresults, fun hnames =>
      (Volume.listing?_nodup hnames h).sublist (page_sublist _ _ _)⟩
  · cases h

/-- A search for sizes alone shows the last record of every id that was ever met. -/
private theorem search_sizes (h : Reindexed start history c d) (v : Volume) (hsizes : r.OnlySize) :
    search ⟨d, c, v⟩ r =
      .ok (page (sizeScan (latest history.flatten) r) r.offset (pageLimit r.limit)) := by
  obtain ⟨hsome, hblank⟩ := hsizes
  obtain ⟨f, hsize⟩ := Option.isSome_iff_exists.mp hsome
  have hcatalog := h.catalog_eq
  rcases serves_of_reindexed h with rfl | ⟨earlier, es, -, -, -, -, met, hmet, hserves⟩
  · obtain rfl : c = .empty := hcatalog
    have hwords : r.plan.byPath = false := by simp [Request.plan, hblank]
    have hfound := results_of_words (s := ⟨d, .empty, v⟩) (readable_of_reindexed h) hwords
    have hscan : sizeScan (latest (List.flatten [])) r = [] := by
      rw [List.flatten_nil, sizeScan, latest, lastBy, Entry.byId, List.mergeSort_nil]
      rfl
    rw [proposed_empty] at hfound
    rw [search_of_results hfound, hscan, List.filter_nil, List.map_nil]
  · subst hcatalog
    have hids := Entry.distinctIds_latest history.flatten
    have hrecords := Catalog.records_persistAll history.flatten
    obtain ⟨met', hmet', hdistinct, hmem⟩ :=
      hrecords.entries (Catalog.keyedById_persistAll history.flatten) hids
    obtain rfl : met = met' := Except.ok.inj (hmet.symm.trans hmet')
    have hfound := results_by_size (s := ⟨d, Catalog.empty.persistAll history.flatten, v⟩)
      (hrecords.congr hids hdistinct hmem) hdistinct hserves hblank hsize
    rw [search_of_results hfound, sizeScan, sizeScan, Entry.byId_congr hdistinct hids hmem]

/-- After any passes a search gives an answer. What the volume has at a path is shown as it is there,
whatever size is asked for. Otherwise each path is shown once, and only if its last record has the size
that is asked for. But when nothing else than a size is asked for, the last records of all ids take part,
and several of them may be at one path. -/
theorem search_after_passes (h : Reindexed start history c d) (v : Volume) (r : Request) :
    ∃ paths, search ⟨d, c, v⟩ r = .ok paths ∧
      (∀ listed, served? v r = some listed →
        paths = page listed r.offset (pageLimit r.limit) ∧ (v.OneOfEachName → paths.Nodup)) ∧
      (served? v r = none → ¬ r.OnlySize → paths.Nodup ∧
        ∀ path ∈ paths, ∃ e, lastAt? history path = some e ∧ hasSize r.size e = true) ∧
      (r.OnlySize →
        paths = page (sizeScan (latest history.flatten) r) r.offset (pageLimit r.limit)) := by
  by_cases hsizes : r.OnlySize
  · have hpath : r.plan.byPath = false := by simp [Request.plan, hsizes.2]
    have hserved : served? v r = none := by rw [served?, hpath, if_neg Bool.false_ne_true]
    refine ⟨_, search_sizes h v hsizes, fun listed hlisted => ?_, fun _ hwords => ?_, fun _ => rfl⟩
    · rw [hserved] at hlisted
      cases hlisted
    · exact absurd hsizes hwords
  · cases hserved : served? v r with
    | none =>
      obtain ⟨paths, hsearch, hfound⟩ := search_words h hserved hsizes
      exact ⟨paths, hsearch, fun listed hlisted => (by cases hlisted), fun _ _ => hfound,
        fun hsizes' => absurd hsizes' hsizes⟩
    | some shown =>
      obtain ⟨hsearch, hnodup⟩ := search_served (c := c) (d := d) hserved
      refine ⟨_, hsearch, fun listed hlisted => ?_, fun hnone => (by cases hnone),
        fun hsizes' => absurd hsizes' hsizes⟩
      obtain rfl := Option.some.inj hlisted
      exact ⟨rfl, hnodup⟩

def firstBin : Entry := ⟨1, "/a.bin", "a.bin", "bin", 10, 0, false, false⟩

def secondBin : Entry := ⟨2, "/a.bin", "a.bin", "bin", 20, 0, false, false⟩

def remade : List (List Entry) := [[firstBin], [secondBin]]

private theorem latest_remade : latest remade.flatten = [firstBin, secondBin] := by
  decide

private theorem lastAt?_remade : lastAt? remade "/a.bin" = some secondBin := by
  decide

private theorem reindexed_remade : ∃ c d, Reindexed .absent remade c d := by
  have hfirst : ∀ f ∈ Family.text, Index.Fits (.ofEntries f [firstBin]) := by
    intro f _
    cases f <;> exact TermMap.fits_ofEntries (by cbv)
  have hsecond : ∀ f ∈ Family.text, Index.Fits (.ofEntries f [secondBin]) := by
    intro f _
    cases f <;> exact TermMap.fits_ofEntries (by cbv)
  have hids (e : Entry) : DistinctIds [e] := List.nodup_singleton _
  have hpaths (e : Entry) : DistinctPaths [e] := List.nodup_singleton _
  obtain ⟨c, d, h, hready⟩ :=
    Reindexed.start.next Index.ready_absent (hids firstBin) (hpaths firstBin) hfirst (by cbv)
  obtain ⟨c', d', h', -⟩ := h.next hready (hids secondBin) (hpaths secondBin) hsecond (by cbv)
  exact ⟨c', d', h'⟩

private theorem byId_remade : Entry.byId (latest remade.flatten) = [firstBin, secondBin] := by
  rw [latest_remade]
  exact List.mergeSort_of_pairwise (by decide)

private theorem proposed_remade (h : Reindexed start remade c d) (v : Volume) {p : Plan}
    (hwords : p.byPath = false) (hsize : p.size = none) (htarget : p.target = "bin") :
    proposed ⟨d, c, v⟩ p = [secondBin] := by
  obtain hnone | ⟨earlier, es, hhistory, hids, -, hserves, -⟩ := serves_of_reindexed h
  · cases hnone
  · have hsplit : [[firstBin]] ++ [[secondBin]] = earlier ++ [es] := hhistory
    obtain ⟨rfl, -⟩ := List.cons.inj (List.append_inj' hsplit rfl).2
    obtain ⟨hexact, hfuzzy⟩ := serves_words hserves p
    have htokens : Term.tokens p.target = ["bin"] := by
      rw [htarget]
      cbv
    have hterms : (Family.exact p.byPath).terms secondBin = ["a", "bin"] := by
      rw [hwords]
      cbv
    have hnew : (candidates d p).contains secondBin.id = true := by
      rw [List.contains_iff_mem]
      refine id_mem_candidates hexact hsize ?_ (List.mem_singleton_self _) fun t ht => ?_
      · rw [htokens]
        decide
      · rw [htokens, List.mem_singleton] at ht
        rw [hterms, ht]
        decide
    have hold : ¬ (candidates d p).contains firstBin.id = true := by
      rw [List.contains_iff_mem]
      intro hid
      obtain ⟨e, he, hsame⟩ := id_of_candidates hids hexact hfuzzy (by simp [hsize]) hid
      rw [List.mem_singleton.mp he] at hsame
      exact absurd hsame (by decide)
    rw [h.catalog_eq, proposed_eq (s := ⟨d, Catalog.empty.persistAll remade.flatten, v⟩)
      (Catalog.records_persistAll _) (Entry.distinctIds_latest _) (candidates_pairwise_lt hexact),
      byId_remade, List.filter_cons_of_neg (by exact hold), List.filter_cons_of_pos (by exact hnew),
      List.filter_nil]

/-- A word of its name finds the file once. -/
theorem search_remade_by_name : ∃ c d, Reindexed .absent remade c d ∧ ∀ v,
    served? v ⟨"bin", "", 0, 0, none⟩ = none ∧ ¬ Request.OnlySize ⟨"bin", "", 0, 0, none⟩ ∧
    search ⟨d, c, v⟩ ⟨"bin", "", 0, 0, none⟩ = .ok ["/a.bin"] ∧ ["/a.bin"].Nodup ∧
    lastAt? remade "/a.bin" = some secondBin := by
  obtain ⟨c, d, h⟩ := reindexed_remade
  refine ⟨c, d, h, fun v => ?_⟩
  let r : Request := ⟨"bin", "", 0, 0, none⟩
  have htrim : trim r.text = "bin" := by cbv
  have hslash : '/' ∉ (trim r.text).toList := by
    rw [htrim]
    decide
  have hplan := plan_of_words hslash
  have hserved : served? v r = none := by rw [served?, hplan, if_neg Bool.false_ne_true]
  have hwords : ¬ r.OnlySize := fun hsizes => by cases hsizes.1
  have hpath : r.plan.byPath = false := by rw [hplan]
  have hsize : r.plan.size = none := by rw [hplan]
  have htarget : r.plan.target = "bin" := by rw [hplan, htrim]
  have hresults := results_of_words (s := ⟨d, c, v⟩) (readable_of_reindexed h) hpath
  have hparent : r.plan.parent = "" := by
    rw [hplan]
    decide
  have hpasses : passes r.plan none secondBin = true := by
    rw [passes, hsize, inScope_of_words hpath, hparent]
    rfl
  rw [proposed_remade h v hpath hsize htarget, List.filter_cons_of_pos hpasses] at hresults
  have hsearch := search_of_results hresults
  obtain ⟨paths, hpaths, -, hfound, -⟩ := search_after_passes h v r
  obtain rfl := Except.ok.inj (hsearch.symm.trans hpaths)
  exact ⟨hserved, hwords, hsearch, (hfound hserved hwords).1, lastAt?_remade⟩

/-- Sizes alone find the file twice, and find it by the size that it had. -/
theorem search_remade_by_size : ∃ c d, Reindexed .absent remade c d ∧ ∀ v,
    search ⟨d, c, v⟩ ⟨"", "", 0, 0, some ⟨.gt, 5⟩⟩ = .ok ["/a.bin", "/a.bin"] ∧
    search ⟨d, c, v⟩ ⟨"", "", 0, 0, some ⟨.eq, 10⟩⟩ = .ok ["/a.bin"] ∧
    lastAt? remade "/a.bin" = some secondBin ∧ hasSize (some ⟨.eq, 10⟩) secondBin = false := by
  obtain ⟨c, d, h⟩ := reindexed_remade
  have hblank : trim "" = "" := by cbv
  have hfound (f : SizeFilter) (v : Volume) : search ⟨d, c, v⟩ ⟨"", "", 0, 0, some f⟩ =
      .ok (page (([firstBin, secondBin].filter fun e => hasSize (some f) e &&
        (SlashPath.slashes "").toList.isPrefixOf e.path.toList).map Entry.path) 0 (pageLimit 0)) := by
    rw [search_sizes (r := ⟨"", "", 0, 0, some f⟩) h v ⟨rfl, hblank⟩, sizeScan, byId_remade]
  refine ⟨c, d, h, fun v => ⟨?_, ?_, lastAt?_remade, by decide⟩⟩
  · rw [hfound]
    cbv
  · rw [hfound]
    cbv

end VolumeSearch.Search
