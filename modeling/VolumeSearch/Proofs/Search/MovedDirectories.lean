import Mathlib.Tactic.Common
import VolumeSearch.Proofs.Search.SharedIds
import VolumeSearch.Proofs.Volume.Listing

/-! Where a search by path looks after any history of records. The id of a path and the entry of an id are
kept under two keys, and each of them is replaced apart from the other. So a directory that was recorded
again elsewhere is still found at its old path, and a search for that path is confined to the new one. -/
namespace VolumeSearch.Search
open Indexing (recorded textMaps writeFamilies)
open Entry (byId latest)
open VolumeSearch.Text

/-- The path is the queried one, or begins with it and a slash, which the root has already. -/
def staysOn (q path : String) : Bool :=
  path = q || (SlashPath.asDirectory q).toList.isPrefixOf path.toList

/-- The directory that a path leads to: the last record of the id that was last recorded at the path, if
that is a directory with a path. -/
def directoryOf (es : List Entry) (q : String) : Option Entry :=
  ((Entry.atPath? (Entry.lastBy Entry.path es) q).bind fun o =>
    Entry.withId? (latest es) o.id).filter fun e => e.isDir && e.path ≠ ""

private theorem staysOn_of_onOrBelow {p : Plan} {path : String} (h : p.onOrBelow path = true) :
    staysOn p.target path = true := by
  rw [Plan.onOrBelow, Bool.or_eq_true, decide_eq_true_eq] at h
  rw [staysOn, Bool.or_eq_true, decide_eq_true_eq]
  refine h.imp_right fun hbelow => ?_
  rw [List.isPrefixOf_iff_prefix, String.toList_append] at hbelow
  rw [List.isPrefixOf_iff_prefix, SlashPath.asDirectory]
  split
  · exact (List.prefix_append _ _).trans hbelow
  · rwa [String.toList_append]

private theorem asDirectory_ne_empty {path : String} (h : path ≠ "") : SlashPath.asDirectory path ≠ "" := by
  rw [SlashPath.asDirectory]
  split
  · exact h
  · intro hempty
    have hlist := congrArg String.toList hempty
    rw [String.toList_append] at hlist
    exact absurd (List.append_eq_nil_iff.mp hlist).2 (by decide)

/-- What a path leads to is read from the catalog, and the scope of a search for the path lies there. -/
theorem inScope_recorded (es : List Entry) {p : Plan} (hpath : p.byPath = true) :
    ∃ directory, indexedDirectory (Catalog.empty.persistAll es) p.target = .ok directory ∧
      ∀ path, p.inScope directory path = match directoryOf es p.target with
        | some e => (SlashPath.asDirectory e.path).toList.isPrefixOf path.toList
        | none => p.onOrBelow path := by
  have hrecords := Catalog.records_persistAll es
  have hload (id : FileId) : loadEntry (Catalog.empty.persistAll es) id =
      .ok (Entry.withId? (latest es) id) := by
    rw [loadEntry, hrecords.load id]
  rw [indexedDirectory, (Catalog.reverses_persistAll es).idByPath hrecords.works, directoryOf]
  simp only [Plan.inScope, hpath, if_true]
  cases Entry.atPath? (Entry.lastBy Entry.path es) p.target with
  | none => exact ⟨none, rfl, fun path => rfl⟩
  | some o =>
    simp only [Option.map_some, hload, Option.bind_some]
    cases hlast : Entry.withId? (latest es) o.id with
    | none => exact ⟨none, rfl, fun path => rfl⟩
    | some e =>
      refine ⟨_, rfl, fun path => ?_⟩
      cases hdir : e.isDir with
      | false => simp [hdir, Option.filter_some]
      | true =>
        by_cases hempty : e.path = ""
        · simp [hdir, hempty, Option.filter_some, SlashPath.asDirectory]
        · have hne := asDirectory_ne_empty hempty
          simp [hdir, hempty, hne, Option.filter_some]

private theorem results_of_path {d : IndexDir} {c : Catalog} {v : Volume} (hc : c.Readable) {p : Plan}
    (hpath : p.byPath = true) (hlisting : v.listing? p.target = none) {directory : Option String}
    (hdirectory : indexedDirectory c p.target = .ok directory) :
    results ⟨d, c, v⟩ p = .ok (((proposed ⟨d, c, v⟩ p).filter (passes p directory)).map Entry.path) := by
  rw [results, hpath, if_pos rfl, hlisting]
  simp only [hdirectory, bind, Except.bind, indexed_of_readable (s := ⟨d, c, v⟩) hc]

private theorem search_in_scope {d : IndexDir} {c : Catalog} {v : Volume} (hc : c.Readable) {r : Request}
    (hpath : r.plan.byPath = true) (hlisting : v.listing? r.plan.target = none)
    {directory : Option String} (hdirectory : indexedDirectory c r.plan.target = .ok directory) :
    ∃ paths, search ⟨d, c, v⟩ r = .ok paths ∧
      ∀ path ∈ paths, r.plan.inScope directory path = true := by
  refine ⟨_, search_of_results (results_of_path hc hpath hlisting hdirectory), fun path hmem => ?_⟩
  obtain ⟨e, he, rfl⟩ := List.mem_map.mp ((page_sublist _ _ _).subset hmem)
  have hpasses := (List.mem_filter.mp he).2
  rw [passes, Bool.and_eq_true] at hpasses
  exact hpasses.2

/-- Whatever was recorded, in any order, and whatever the index is, a search for a path that leads to
nothing on the volume gives an answer. It stays on the path as long as the directory last recorded there
has not been recorded again elsewhere. Once it has, all that is found is below the place where the
directory was recorded last. -/
theorem search_stays_on_path (es : List Entry) (d : IndexDir) (v : Volume) {r : Request}
    (hslash : '/' ∈ (trim r.text).toList) :
    let q := targetPath (SlashPath.slashes r.parent) (trim r.text)
    v.listing? q = none →
      ∃ paths, search ⟨d, (recorded es).1, v⟩ r = .ok paths ∧
        ((∀ e, directoryOf es q = some e → e.path = q) → ∀ path ∈ paths, staysOn q path = true) ∧
        ∀ e, directoryOf es q = some e → ∀ path ∈ paths,
          (SlashPath.asDirectory e.path).toList <+: path.toList := by
  intro q hlisting
  have htarget : r.plan.target = q := target_of_path hslash
  have hpath : r.plan.byPath = true := (byPath_plan r).mpr hslash
  have hrecorded : (recorded es).1 = Catalog.empty.persistAll es := by
    rw [recorded, Indexing.foldl_recordEntry rfl]
  have hreadable := readable_of_records (Catalog.records_persistAll es)
  obtain ⟨directory, hdirectory, hscope⟩ := inScope_recorded es hpath
  rw [← htarget] at hlisting ⊢
  rw [hrecorded]
  obtain ⟨paths, hsearch, hin⟩ := search_in_scope (d := d) hreadable hpath hlisting hdirectory
  refine ⟨paths, hsearch, fun hstays path hmem => ?_, fun e he path hmem => ?_⟩
  · have hbelow := hin path hmem
    rw [hscope path] at hbelow
    cases hdir : directoryOf es r.plan.target with
    | none =>
      rw [hdir] at hbelow
      exact staysOn_of_onOrBelow hbelow
    | some e =>
      rw [hdir] at hbelow
      rw [staysOn, ← hstays e hdir, Bool.or_eq_true]
      exact .inr hbelow
  · -- the directory has moved, and the scope with it
    have hbelow := hin path hmem
    rw [hscope path, he] at hbelow
    exact List.isPrefixOf_iff_prefix.mp hbelow

def archive : Entry := ⟨2, "/DATA/Archive", "Archive", "", 4096, 0, true, false⟩

def photosFile : Entry := ⟨1, "/DATA/Archive/photos.zip", "photos.zip", "zip", 2048, 86400, false, false⟩

def movedAlbum : List Entry :=
  [⟨2, "/DATA/Photos", "Photos", "", 4096, 0, true, false⟩, photosFile, archive]

def emptyVolume : Volume := ⟨.dir ⟨⟨1, 1, 0⟩, 0⟩ [], [], 2, 0⟩

private theorem listing?_emptyVolume {path : String} (rest : List String)
    (hsteps : Volume.steps path = "DATA" :: rest) : emptyVolume.listing? path = none :=
  Volume.listing?_eq_none_of_lookup rfl hsteps (by decide) (by decide) rfl

private theorem latest_movedAlbum : latest movedAlbum = [photosFile, archive] := by
  decide

private theorem directoryOf_movedAlbum : directoryOf movedAlbum "/DATA/Photos" = some archive ∧
    directoryOf movedAlbum "/DATA/Archive" = some archive := by
  have hlast : Entry.lastBy Entry.path movedAlbum = movedAlbum := by decide
  rw [directoryOf, directoryOf, latest_movedAlbum, hlast]
  decide

private theorem serves_movedAlbum : ∃ d' counts,
    writeFamilies IndexDir.absent [] (textMaps (recorded movedAlbum).2.terms) = (d', .ok counts) ∧
    Serves d' movedAlbum .path := by
  have hfits : ∀ f ∈ Family.text, Index.Fits (.ofEntries f movedAlbum) := by
    intro f _
    cases f <;> exact TermMap.fits_ofEntries (by cbv)
  have hnodup : Family.text.Nodup := by decide
  have hmem : Family.path ∈ Family.text := by decide
  obtain ⟨d', hwrite, hholds⟩ := Indexing.writeFamilies_ofEntries hnodup hfits
    fun f _ => Index.ready_absent f
  rw [recorded, Indexing.foldl_recordEntry rfl, Indexing.textMaps_foldl_addEntry]
  exact ⟨d', _, hwrite, Index.openIn_of_holds (hfits _ hmem) (hholds _ hmem)⟩

/-- Of the two records that are left, the directory is not below itself. -/
private theorem passes_movedAlbum {p : Plan} (hsize : p.size = none) {directory : Option String}
    (hscope : ∀ path, p.inScope directory path =
      (SlashPath.asDirectory archive.path).toList.isPrefixOf path.toList) :
    passes p directory archive = false ∧ passes p directory photosFile = true := by
  rw [passes, passes, hsize, hscope, hscope]
  decide

/-- The file is found by every path that leads to the directory and has words of the file's path. -/
private theorem search_movedAlbum : ∃ d' counts,
    writeFamilies IndexDir.absent [] (textMaps (recorded movedAlbum).2.terms) = (d', .ok counts) ∧
    ∀ q, '/' ∈ (trim q).toList → targetPath "" (trim q) = q → emptyVolume.listing? q = none →
      directoryOf movedAlbum q = some archive → Term.tokens q ≠ [] →
      (∀ t ∈ Term.tokens q, t ∈ Family.path.terms photosFile) →
      search ⟨d', (recorded movedAlbum).1, emptyVolume⟩ ⟨q, "", 0, 0, none⟩ =
        .ok ["/DATA/Archive/photos.zip"] := by
  obtain ⟨d', counts, hwrite, hserves⟩ := serves_movedAlbum
  refine ⟨d', counts, hwrite, fun q hslash htarget hlisting hdir htokens hterms => ?_⟩
  let r : Request := ⟨q, "", 0, 0, none⟩
  have hpath : r.plan.byPath = true := (byPath_plan r).mpr hslash
  have hq : r.plan.target = q := (target_of_path (r := r) hslash).trans htarget
  have hexact : Serves d' movedAlbum (.exact r.plan.byPath) := by rwa [hpath]
  have hfile : (candidates d' r.plan).contains photosFile.id = true := by
    rw [List.contains_iff_mem]
    refine id_mem_candidates hexact rfl ?_ (by simp [movedAlbum]) ?_
    · rwa [hq]
    · rw [hq, hpath]
      exact hterms
  obtain ⟨directory, hdirectory, hscope⟩ := inScope_recorded movedAlbum hpath
  rw [hq, hdir] at hscope
  obtain ⟨hplace, hbelow⟩ := passes_movedAlbum (p := r.plan) rfl hscope
  have hrecords := Catalog.records_persistAll movedAlbum
  have hresults := results_of_path (d := d') (readable_of_records hrecords) hpath
    (hq.symm ▸ hlisting) hdirectory
  have hproposed := proposed_eq (s := ⟨d', Catalog.empty.persistAll movedAlbum, emptyVolume⟩) hrecords
    (Entry.distinctIds_latest movedAlbum) (candidates_pairwise_lt hexact)
  have hsorted : byId (latest movedAlbum) = [photosFile, archive] := by
    rw [latest_movedAlbum]
    exact List.mergeSort_of_pairwise (by decide)
  rw [hproposed, hsorted, List.filter_filter, List.filter_cons_of_pos (by rw [hbelow, hfile]; rfl),
    List.filter_cons_of_neg (by simp [hplace])] at hresults
  rw [recorded, Indexing.foldl_recordEntry rfl]
  exact search_of_results hresults

private theorem terms_photosFile :
    Family.path.terms photosFile = ["data", "archive", "photos", "zip"] := by
  cbv

/-- A search at the place of the last record stays there. -/
theorem search_new_place :
    '/' ∈ (trim "/DATA/Archive").toList ∧ emptyVolume.listing? "/DATA/Archive" = none ∧
    ∃ d' counts,
      writeFamilies IndexDir.absent [] (textMaps (recorded movedAlbum).2.terms) = (d', .ok counts) ∧
      search ⟨d', (recorded movedAlbum).1, emptyVolume⟩ ⟨"/DATA/Archive", "", 0, 0, none⟩ =
        .ok ["/DATA/Archive/photos.zip"] ∧
      staysOn "/DATA/Archive" "/DATA/Archive/photos.zip" = true := by
  have htext : trim "/DATA/Archive" = "/DATA/Archive" := by cbv
  have hslash : '/' ∈ (trim "/DATA/Archive").toList := by
    rw [htext]
    decide
  have htarget : targetPath "" (trim "/DATA/Archive") = "/DATA/Archive" := by cbv
  have hlisting : emptyVolume.listing? "/DATA/Archive" = none :=
    listing?_emptyVolume ["Archive"] (by decide)
  have htokens : Term.tokens "/DATA/Archive" = ["data", "archive"] := by cbv
  obtain ⟨d', counts, hwrite, hfound⟩ := search_movedAlbum
  have hsearch := hfound "/DATA/Archive" hslash htarget hlisting directoryOf_movedAlbum.2
    (by rw [htokens]; decide) (by rw [htokens, terms_photosFile]; decide)
  have hparent : SlashPath.slashes "" = "" := by decide
  have hscope := search_stays_on_path movedAlbum d' emptyVolume
    (r := ⟨"/DATA/Archive", "", 0, 0, none⟩) hslash
  rw [hparent, htarget] at hscope
  obtain ⟨paths, hpaths, hstays, -⟩ := hscope hlisting
  obtain rfl := Except.ok.inj (hsearch.symm.trans hpaths)
  refine ⟨hslash, hlisting, d', counts, hwrite, hsearch, hstays ?_ _ List.mem_cons_self⟩
  rintro e he
  rw [directoryOf_movedAlbum.2] at he
  obtain rfl := Option.some.inj he
  rfl

/-- A search at the old place leaves it: what is found neither is there nor lies below. -/
theorem search_leaves_path :
    '/' ∈ (trim "/DATA/Photos").toList ∧ emptyVolume.listing? "/DATA/Photos" = none ∧
    targetPath (SlashPath.slashes "") (trim "/DATA/Photos") = "/DATA/Photos" ∧
    staysOn "/DATA/Photos" "/DATA/Archive/photos.zip" = false ∧
    ∃ d' counts,
      writeFamilies IndexDir.absent [] (textMaps (recorded movedAlbum).2.terms) = (d', .ok counts) ∧
      search ⟨d', (recorded movedAlbum).1, emptyVolume⟩ ⟨"/DATA/Photos", "", 0, 0, none⟩ =
        .ok ["/DATA/Archive/photos.zip"] := by
  have htext : trim "/DATA/Photos" = "/DATA/Photos" := by cbv
  have hslash : '/' ∈ (trim "/DATA/Photos").toList := by
    rw [htext]
    decide
  have htarget : targetPath "" (trim "/DATA/Photos") = "/DATA/Photos" := by cbv
  have hlisting : emptyVolume.listing? "/DATA/Photos" = none :=
    listing?_emptyVolume ["Photos"] (by decide)
  have htokens : Term.tokens "/DATA/Photos" = ["data", "photos"] := by cbv
  have hapart : staysOn "/DATA/Photos" "/DATA/Archive/photos.zip" = false := by decide
  obtain ⟨d', counts, hwrite, hfound⟩ := search_movedAlbum
  exact ⟨hslash, hlisting, htarget, hapart, d', counts, hwrite,
    hfound "/DATA/Photos" hslash htarget hlisting directoryOf_movedAlbum.1
      (by rw [htokens]; decide) (by rw [htokens, terms_photosFile]; decide)⟩

end VolumeSearch.Search
