import Mathlib.Tactic.Common
import VolumeSearch.Proofs.Indexing.Harvests
import VolumeSearch.Proofs.Indexing.Histories
import VolumeSearch.Proofs.Volume.Listing

/-! Passes over a volume while the store refuses writes. An entry is counted as recorded when both its writes
come through, and only then gives its terms to the text families. The filter family is drawn from the store,
which also has the entries of which only the first write came through. -/
namespace VolumeSearch

namespace Indexing
open Catalog (OnlyWritesFail Lacks entryKey pathKey kept landed lands)
open Entry (DistinctIds DistinctPaths)
open Index (Fits Ready Holds Reader filesOf)

variable {σ : Type} [Index.Shelf σ] {o : Outage} {c : Catalog} {es : List Entry} {ws : List (String × Bytes)}

def Land (o : Outage) (es : List Entry) (ws : List (String × Bytes)) : Prop :=
  ∀ w, w ∈ ws ↔ ∃ e ∈ es, w ∈ landed o e

/-- The first write of an entry comes through unless it is refused. -/
theorem Land.entryKey_mem (h : Land o es ws) (hids : DistinctIds es) {e : Entry} (he : e ∈ es)
    (value : Bytes) : (entryKey e.id, value) ∈ ws ↔ kept o e = true ∧ value = e.toBytes := by
  rw [h]
  constructor
  · rintro ⟨e', he', hwrite⟩
    rcases Catalog.mem_landed.mp hwrite with ⟨hw, hkept⟩ | ⟨hw, -⟩
    · obtain ⟨hkey, rfl⟩ := Prod.mk.inj hw
      obtain rfl := Entry.eq_of_id_eq hids he he' (Catalog.entryKey_inj hkey)
      exact ⟨hkept, rfl⟩
    · exact absurd (Prod.mk.inj hw).1 (Catalog.entryKey_ne_pathKey _ _)
  · rintro ⟨hkept, rfl⟩
    exact ⟨e, he, Catalog.mem_landed.mpr (.inl ⟨rfl, hkept⟩)⟩

/-- The second write of an entry comes through when neither is refused. -/
theorem Land.pathKey_mem (h : Land o es ws) (hpaths : DistinctPaths es) {e : Entry} (he : e ∈ es)
    (value : Bytes) :
    (pathKey e.path, value) ∈ ws ↔ lands o e = true ∧ value = Bytes.ofText (toString e.id.toNat) := by
  rw [h]
  constructor
  · rintro ⟨e', he', hwrite⟩
    rcases Catalog.mem_landed.mp hwrite with ⟨hw, -⟩ | ⟨hw, hlands⟩
    · exact absurd (Prod.mk.inj hw).1.symm (Catalog.entryKey_ne_pathKey _ _)
    · obtain ⟨hkey, rfl⟩ := Prod.mk.inj hw
      obtain rfl := List.inj_on_of_nodup_map hpaths he he' (Catalog.pathKey_inj hkey)
      exact ⟨hlands, rfl⟩
  · rintro ⟨hlands, rfl⟩
    exact ⟨e, he, Catalog.mem_landed.mpr (.inr ⟨rfl, hlands⟩)⟩

/-- What the store has of a new entry afterwards: its record, unless the first write is refused, and its path,
unless one of the writes is refused. -/
theorem Land.stored (h : Land c.store.outage es ws) (hids : DistinctIds es) (hpaths : DistinctPaths es)
    (honly : OnlyWritesFail c.store.outage) {e : Entry} (he : e ∈ es) (hlacks : c.Lacks e) :
    (⟨c.store.put ws⟩ : Catalog).load e.id =
      .ok (if kept c.store.outage e then some e else none) ∧
    (⟨c.store.put ws⟩ : Catalog).idByPath e.path =
      .ok (if lands c.store.outage e then some e.id else none) := by
  have honly' : OnlyWritesFail (⟨c.store.put ws⟩ : Catalog).store.outage := honly
  have hentry := Store.getElem?_put_eq (h.entryKey_mem hids he) c.store
  have hpath := Store.getElem?_put_eq (h.pathKey_mem hpaths he) c.store
  rw [(Catalog.load_eq_none_iff honly e.id).mp hlacks.unloaded] at hentry
  rw [(Catalog.idByPath_eq_none_iff honly e.path).mp hlacks.unfound] at hpath
  constructor
  · cases hkept : kept c.store.outage e with
    | true => exact Catalog.load_of_value honly' (by rw [hentry, hkept]; rfl)
    | false => exact (Catalog.load_eq_none_iff honly' e.id).mpr (by rw [hentry, hkept]; rfl)
  · cases hlands : lands c.store.outage e with
    | true => exact Catalog.idByPath_of_value honly' (by rw [hpath, hlands]; rfl)
    | false => exact (Catalog.idByPath_eq_none_iff honly' e.path).mpr (by rw [hpath, hlands]; rfl)

/-- Of the records with the id of a new entry, the entry is met unless its first write is refused, and nothing
else is. -/
theorem Land.met (h : Land c.store.outage es ws) (hids : DistinctIds es)
    (honly : OnlyWritesFail c.store.outage) {e : Entry} (he : e ∈ es) (hlacks : c.Lacks e) {met : List Entry}
    (hmet : (⟨c.store.put ws⟩ : Catalog).entries = .ok met) (x : Entry) :
    x ∈ met ∧ x.id = e.id ↔ kept c.store.outage e = true ∧ x = e := by
  rw [Catalog.mem_of_entries hmet]
  constructor
  · rintro ⟨⟨key, bytes, hvalue, hstem, hread⟩, hid⟩
    by_cases hkey : ∃ w ∈ ws, w.1 = key
    · -- the key is that of an entry that came through, and holds it
      obtain ⟨w, hw, rfl⟩ := hkey
      obtain ⟨o, ho, hlanded⟩ := (h w).mp hw
      rcases Catalog.mem_landed.mp hlanded with ⟨rfl, hkept⟩ | ⟨rfl, -⟩
      · rw [Store.getElem?_put_eq (h.entryKey_mem hids ho), if_pos hkept] at hvalue
        obtain rfl := Option.some.inj hvalue
        obtain rfl := Option.some.inj (hread.symm.trans (Entry.ofBytes?_toBytes o))
        obtain rfl := Entry.eq_of_id_eq hids ho he hid
        exact ⟨hkept, rfl⟩
      · rw [Catalog.not_isPrefixOf_pathKey] at hstem
        cases hstem
    · -- the key is as it was, and had no record with the id
      rw [Store.getElem?_put_of_forall fun w hw heq => hkey ⟨w, hw, heq⟩] at hvalue
      obtain ⟨before, hbefore⟩ := Catalog.exists_entries honly
      have hx : x ∈ before := (Catalog.mem_of_entries hbefore).mpr ⟨key, bytes, hvalue, hstem, hread⟩
      exact absurd hid (hlacks.unmet before hbefore x hx)
  · rintro ⟨hkept, rfl⟩
    refine ⟨⟨entryKey x.id, x.toBytes, ?_, Catalog.isPrefixOf_entryKey x.id, Entry.ofBytes?_toBytes x⟩, rfl⟩
    rw [Store.getElem?_put_eq (h.entryKey_mem hids he), if_pos hkept]

def HasUnder (d : IndexDir) (f : Family) (id : FileId) (terms : List String) : Prop :=
  ∃ r, Reader.openIn d f = .ok r ∧ ∀ t, ∃ ids, r.termPosting t = .ok ids ∧ (id ∈ ids ↔ t ∈ terms)

/-- Of entries one of which at most has the id, the family has the terms of that one. -/
theorem hasUnder_of_holds {d : IndexDir} {f : Family} (hfits : Fits (.ofEntries f es))
    (hholds : Holds d f (filesOf (.ofEntries f es))) {e : Entry} {b : Prop} [Decidable b]
    (honly : ∀ x, x ∈ es ∧ x.id = e.id ↔ b ∧ x = e) : HasUnder d f e.id (if b then f.terms e else []) := by
  obtain ⟨r, hopen, hreads⟩ := Index.openIn_of_holds hfits hholds
  refine ⟨r, hopen, fun t => ⟨_, hreads.termPosting t, ?_⟩⟩
  rw [TermMap.mem_idsOf_ofEntries]
  constructor
  · rintro ⟨x, hx, hterm, hid⟩
    obtain ⟨hb, rfl⟩ := (honly x).mp ⟨hx, hid⟩
    rwa [if_pos hb]
  · intro hterm
    split at hterm
    · next hb =>
      obtain ⟨he, -⟩ := (honly e).mpr ⟨hb, rfl⟩
      exact ⟨e, he, hterm, rfl⟩
    · exact absurd hterm List.not_mem_nil

/-- An outcome of a pass while the store refuses some writes. Of each entry those come through that stand
before the first refused one; what comes through does so in any order, and the harvests are merged in any
order. -/
def FaultyPass (c : Catalog) (d : σ) (walks : List (List (Option Entry))) (out : Outcome σ) : Prop :=
  ∃ (ws : List (String × Bytes)) (hs : List Harvest),
    ws.Perm ((walks.flatten.filterMap id).flatMap (landed c.store.outage)) ∧
    hs.Perm (walks.map fun walk => (walk.map (taken c.store.outage)).foldl Harvest.take {}) ∧
    out = finish ⟨c.store.put ws⟩ d (hs.foldl Harvest.merge {})

/-- Walking roots one after the other is such a pass. -/
theorem faultyPass_run (v : Volume) (c : Catalog) (d : σ) (hidden : Bool) {roots : List String}
    (hroots : roots ≠ []) :
    FaultyPass c d (roots.map fun root => (v.walk hidden root).map Visit.entry?) (run v c d hidden roots) := by
  have hempty : ¬ roots.isEmpty = true := by simpa using hroots
  have hrecord := recordWalks_eq c (roots.map (v.walk hidden))
  rw [Catalog.persistAll_landed, List.map_map, List.map_map] at hrecord
  refine ⟨_, _, .refl _, .refl _, ?_⟩
  rw [run, if_neg hempty, hrecord, List.map_map]
  rfl

/-- What became of an entry in a pass in which the store had the outage. -/
structure Fate (o : Outage) (out : Outcome IndexDir) (e : Entry) : Prop where
  loaded : out.catalog.load e.id = .ok (if kept o e then some e else none)
  found : out.catalog.idByPath e.path = .ok (if lands o e then some e.id else none)
  text : ∀ f ∈ Family.text, HasUnder out.index f e.id (if lands o e then f.terms e else [])
  filter : HasUnder out.index .filter e.id (if kept o e then Family.filter.terms e else [])

/-- What a pass reports and leaves behind when the store has the outage: every visit whose entry comes through
whole is counted as recorded, and every other visit as skipped. -/
structure Accounted (o : Outage) (walks : List (List (Option Entry))) (es : List Entry)
    (out : Outcome IndexDir) (report : Report) : Prop where
  entries : report.entries = walks.flatten.countP fun visited => (taken o visited).isSome
  skipped : report.skipped = walks.flatten.countP fun visited => (taken o visited).isNone
  fate : ∀ e ∈ es, Fate o out e

variable {walks : List (List (Option Entry))}

private theorem land_of_perm (hwalks : Delivers walks es)
    (hperm : ws.Perm ((walks.flatten.filterMap id).flatMap (landed o))) : Land o es ws := by
  intro w
  rw [hperm.mem_iff, List.mem_flatMap]
  refine exists_congr fun e => and_congr_left fun _ => ?_
  rw [← hwalks e, List.mem_filterMap]
  exact ⟨fun ⟨visited, hmem, he⟩ => he ▸ hmem, fun hmem => ⟨some e, hmem, rfl⟩⟩

private theorem delivers_taken (hwalks : Delivers walks es) :
    Delivers (walks.map fun walk => walk.map (taken o)) (es.filter (lands o)) := by
  intro e
  rw [← List.map_flatten, List.mem_map, List.mem_filter, ← hwalks e]
  constructor
  · rintro ⟨visited, hmem, htaken⟩
    obtain ⟨rfl, hlands⟩ := Option.filter_eq_some_iff.mp htaken
    exact ⟨hmem, hlands⟩
  · rintro ⟨hmem, hlands⟩
    exact ⟨some e, hmem, Option.filter_eq_some_iff.mpr ⟨rfl, hlands⟩⟩

theorem FaultyPass.spec (hwalks : Delivers walks es) (honly : OnlyWritesFail c.store.outage) {d : σ}
    {out : Outcome σ} (h : FaultyPass c d walks out) :
    ∃ ws met, Land c.store.outage es ws ∧ out.catalog = ⟨c.store.put ws⟩ ∧ out.catalog.entries = .ok met ∧
      writeFamilies d [] (passMaps (es.filter (lands c.store.outage)) met) =
        (out.index, out.result.map Report.families) ∧
      ∀ report, out.result = .ok report →
        report.entries = walks.flatten.countP (fun visited => (taken c.store.outage visited).isSome) ∧
        report.skipped = walks.flatten.countP (fun visited => (taken c.store.outage visited).isNone) := by
  obtain ⟨ws, hs, hws, hperm, rfl⟩ := h
  have honly' : OnlyWritesFail (⟨c.store.put ws⟩ : Catalog).store.outage := honly
  have hflush : (⟨c.store.put ws⟩ : Catalog).flush = .ok () := by
    rw [Catalog.flush, Store.flush, honly'.flush]
    rfl
  obtain ⟨met, hmet⟩ := Catalog.exists_entries honly'
  obtain ⟨hwrite, hreport⟩ := finish_of_entries hflush hmet d (hs.foldl Harvest.merge {})
  have hcatalog := catalog_finish ⟨c.store.put ws⟩ d (hs.foldl Harvest.merge {})
  have htaken : hs.Perm ((walks.map fun walk => walk.map (taken c.store.outage)).map fun walk =>
      walk.foldl Harvest.take {}) := by
    rwa [List.map_map]
  rw [writeFamilies_harvests (delivers_taken hwalks) htaken] at hwrite
  obtain ⟨hentries, hskipped⟩ := counts_of_harvests htaken
  rw [← List.map_flatten, List.countP_map] at hentries hskipped
  refine ⟨ws, met, land_of_perm hwalks hws, hcatalog, by rw [hcatalog, hmet], hwrite, fun report hok => ?_⟩
  obtain ⟨hreported, hreported'⟩ := hreport report hok
  exact ⟨hreported.trans hentries, hreported'.trans hskipped⟩

theorem FaultyPass.ok (hwalks : Delivers walks es) (honly : OnlyWritesFail c.store.outage) {d : IndexDir}
    (hready : ∀ f, Ready d f) {out : Outcome IndexDir} (h : FaultyPass c d walks out)
    (htext : ∀ f ∈ Family.text, Fits (.ofEntries f (es.filter (lands c.store.outage))))
    (hfilter : ∀ met, out.catalog.entries = .ok met → Fits (filterTerms met)) :
    ∃ report, out.result = .ok report := by
  obtain ⟨ws, met, -, -, hmet, hwrite, -⟩ := h.spec hwalks honly
  exact report_of_fits hwrite hready htext (hfilter met hmet)

private theorem accounted_of_faultyPass (hids : DistinctIds es) (hpaths : DistinctPaths es)
    (honly : OnlyWritesFail c.store.outage) (hlacks : ∀ e ∈ es, c.Lacks e) {d : IndexDir}
    (hwalks : Delivers walks es) {out : Outcome IndexDir} (h : FaultyPass c d walks out) {report : Report}
    (hok : out.result = .ok report) : Accounted c.store.outage walks es out report := by
  obtain ⟨ws, met, hland, hcatalog, hmet, hwrite, hreport⟩ := h.spec hwalks honly
  obtain ⟨hentries, hskipped⟩ := hreport report hok
  rw [hok] at hwrite
  have hfiles := holds_of_writeFamilies (passMaps_nodup _ met) hwrite
  refine ⟨hentries, hskipped, fun e he => ?_⟩
  obtain ⟨hload, hfind⟩ := hland.stored hids hpaths honly he (hlacks e he)
  refine ⟨by rw [hcatalog, hload], by rw [hcatalog, hfind], fun f hf => ?_, ?_⟩
  · obtain ⟨hfits, hholds⟩ := hfiles (f, .ofEntries f (es.filter (lands c.store.outage)))
      (List.mem_append_left _ (List.mem_map_of_mem hf))
    refine hasUnder_of_holds hfits hholds fun x => ?_
    rw [List.mem_filter]
    constructor
    · rintro ⟨⟨hx, hlands⟩, hid⟩
      obtain rfl := Entry.eq_of_id_eq hids hx he hid
      exact ⟨hlands, rfl⟩
    · rintro ⟨hlands, rfl⟩
      exact ⟨⟨he, hlands⟩, rfl⟩
  · obtain ⟨hfits, hholds⟩ := hfiles (.filter, filterTerms met)
      (List.mem_append_right _ (List.mem_singleton_self _))
    rw [hcatalog] at hmet
    exact hasUnder_of_holds hfits hholds (hland.met hids honly he (hlacks e he) hmet)

/-- In a pass over new entries with distinct ids and paths, while the store refuses whatever writes it does and
nothing else fails, an entry whose record is refused is left out of everything. An entry of which only the path
is refused is counted as skipped as well, and is in no text family; yet its record stays, and the filter family
has its terms. All other entries are recorded and in every family. -/
theorem pass_accounts_for_refusals (hids : DistinctIds es) (hpaths : DistinctPaths es)
    (honly : OnlyWritesFail c.store.outage) (hlacks : ∀ e ∈ es, c.Lacks e) (d : IndexDir) :
    (∀ walks, Delivers walks es → ∀ out report, FaultyPass c d walks out → out.result = .ok report →
      Accounted c.store.outage walks es out report) ∧
    ∀ (v : Volume) (hidden : Bool) (roots : List String) (report : Report), roots ≠ [] →
      Delivers (roots.map fun root => (v.walk hidden root).map Visit.entry?) es →
      (run v c d hidden roots).result = .ok report →
      Accounted c.store.outage (roots.map fun root => (v.walk hidden root).map Visit.entry?) es
        (run v c d hidden roots) report := by
  constructor
  · intro walks hwalks out report hpass hok
    exact accounted_of_faultyPass hids hpaths honly hlacks hwalks hpass hok
  · intro v hidden roots report hroots hwalks hok
    exact accounted_of_faultyPass hids hpaths honly hlacks hwalks (faultyPass_run v c d hidden hroots) hok

def pathless : Catalog := ⟨{ outage := { set := fun key => key.toList.head? = some 'p' } }⟩

private theorem onlyWritesFail_pathless : OnlyWritesFail pathless.store.outage := ⟨fun _ => rfl, rfl, rfl⟩

private theorem kept_pathless (e : Entry) : kept pathless.store.outage e = true := by
  simp [kept, pathless, entryKey, Catalog.entryStem]

private theorem lands_pathless (e : Entry) : lands pathless.store.outage e = false := by
  simp [Catalog.lands_eq, pathless, pathKey]

def note : Entry := ⟨Origin.fileId ⟨1, 2, 3⟩, "/note", "note", "", 0, 0, false, false⟩

def noteVolume : Volume :=
  ⟨.dir ⟨⟨1, 1, 1⟩, 0⟩ [("note", .file ⟨⟨1, 2, 3⟩, 0⟩ .empty)], [], 3, 0⟩

private theorem walk_noteVolume : (noteVolume.walk false "/note").map Visit.entry? = [some note] := by
  have hsteps : Volume.steps "/note" = ["note"] := by decide
  have hrefused : Volume.refusal? "/note" = none := by decide
  have hname : SlashPath.fileName "/note" = "note" := by cbv
  have hext : extensionOf "note" = "" := by cbv
  have htime : Visit.seconds 0 = 0 := by decide
  obtain ⟨hfind, hlink⟩ := Volume.find?_of_lookup (v := noteVolume) rfl hrefused (by decide) hsteps
    (by decide) (by decide) (by decide) rfl (by simp)
  rw [Volume.walk_of_file false (by decide) hfind hlink, hname]
  simp only [List.map_cons, List.map_nil, Visit.entry?, Option.map_some, Node.stat, Node.isDir, hext, htime]
  rfl

private theorem entries_pathless_note : (pathless.persistAll [note]).entries = .ok [note] := by
  have hlanded : landed pathless.store.outage note = [(entryKey note.id, note.toBytes)] := by
    simp [landed, Catalog.writesOf, pathless, entryKey, pathKey, Catalog.entryStem]
  have hvalues (key : String) (value : Bytes) :
      (pathless.store.put [(key, value)]).values.toList = [(key, value)] := rfl
  have hiterate : ¬ (pathless.store.put [(entryKey note.id, note.toBytes)]).outage.iterate = true :=
    Bool.false_ne_true
  rw [Catalog.persistAll_landed, List.flatMap_singleton, hlanded, Catalog.entries, Store.withStem,
    if_neg hiterate, hvalues]
  simp [Catalog.isPrefixOf_entryKey, Entry.ofBytes?_toBytes, Except.map]

private theorem distinct_note : DistinctIds [note] ∧ DistinctPaths [note] :=
  ⟨List.nodup_singleton _, List.nodup_singleton _⟩

private theorem lacks_pathless (e : Entry) : pathless.Lacks e where
  unloaded := rfl
  unfound := rfl
  unmet met hmet o ho := by
    obtain rfl : [] = met := Except.ok.inj hmet
    exact absurd ho List.not_mem_nil

private theorem delivers_noteVolume :
    Delivers (["/note"].map fun root => (noteVolume.walk false root).map Visit.entry?) [note] := by
  rw [List.map_singleton, walk_noteVolume]
  exact fun e => by simp

private theorem run_pathless_ok :
    ∃ report, (run noteVolume pathless IndexDir.absent false ["/note"]).result = .ok report := by
  have hpass := faultyPass_run noteVolume pathless IndexDir.absent false (List.cons_ne_nil "/note" [])
  have hnone : [note].filter (lands pathless.store.outage) = [] := by simp [lands_pathless]
  refine hpass.ok delivers_noteVolume onlyWritesFail_pathless Index.ready_absent ?_ ?_
  · rw [hnone]
    have hfew : Postings.Varint.maxLength * (0 + 1) < Index.wordLimit := by decide
    exact fun f _ => TermMap.fits_ofEntries hfew
  · intro met hmet
    rw [catalog_run, List.map_singleton, walk_noteVolume] at hmet
    obtain rfl := Except.ok.inj (entries_pathless_note.symm.trans hmet)
    refine TermMap.fits_ofEntries ?_
    unfold note
    generalize Origin.fileId ⟨1, 2, 3⟩ = id
    cbv

theorem note_accounted : DistinctIds [note] ∧ DistinctPaths [note] ∧
    OnlyWritesFail pathless.store.outage ∧ (∀ e ∈ [note], pathless.Lacks e) ∧
    Delivers (["/note"].map fun root => (noteVolume.walk false root).map Visit.entry?) [note] ∧
    ∃ report, (run noteVolume pathless IndexDir.absent false ["/note"]).result = .ok report ∧
      Accounted pathless.store.outage
        (["/note"].map fun root => (noteVolume.walk false root).map Visit.entry?) [note]
        (run noteVolume pathless IndexDir.absent false ["/note"]) report := by
  obtain ⟨hids, hpaths⟩ := distinct_note
  have hlacks : ∀ e ∈ [note], pathless.Lacks e := fun e _ => lacks_pathless e
  obtain ⟨report, hok⟩ := run_pathless_ok
  have hroots : ["/note"] ≠ [] := List.cons_ne_nil _ _
  refine ⟨hids, hpaths, onlyWritesFail_pathless, hlacks, delivers_noteVolume, report, hok, ?_⟩
  exact (pass_accounts_for_refusals hids hpaths onlyWritesFail_pathless hlacks IndexDir.absent).2 noteVolume
    false ["/note"] report hroots delivers_noteVolume hok

/-- The one entry of the walk is counted as skipped. It is loaded by its id all the same, and the filter family
has it. -/
theorem skipped_note_stays : ∃ report,
    (run noteVolume pathless IndexDir.absent false ["/note"]).result = .ok report ∧
    report.entries = 0 ∧ report.skipped = 1 ∧
    (run noteVolume pathless IndexDir.absent false ["/note"]).catalog.load note.id = .ok (some note) ∧
    HasUnder (run noteVolume pathless IndexDir.absent false ["/note"]).index .filter note.id
      (Family.filter.terms note) ∧
    Family.filter.terms note ≠ [] := by
  obtain ⟨report, hok⟩ := run_pathless_ok
  have hpass := faultyPass_run noteVolume pathless IndexDir.absent false (List.cons_ne_nil "/note" [])
  obtain ⟨hentries, hskipped, hfate⟩ := accounted_of_faultyPass distinct_note.1 distinct_note.2
    onlyWritesFail_pathless (fun e _ => lacks_pathless e) delivers_noteVolume hpass hok
  obtain ⟨hload, -, -, hfilter⟩ := hfate note List.mem_cons_self
  rw [kept_pathless, if_pos rfl] at hload hfilter
  have hvisits : (["/note"].map fun root => (noteVolume.walk false root).map Visit.entry?).flatten =
      [some note] := by
    rw [List.map_singleton, walk_noteVolume, List.flatten_singleton]
  rw [hvisits, List.countP_singleton, taken, Option.filter_some, lands_pathless] at hentries hskipped
  exact ⟨report, hok, hentries, hskipped, hload, hfilter, List.append_ne_nil_of_right_ne_nil _
    (List.cons_ne_nil _ _)⟩

end Indexing

end VolumeSearch
