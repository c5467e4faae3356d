import Mathlib.Data.List.Basic
import Mathlib.Tactic.Common
import VolumeSearch.Search.Engine

/-! What a search finds when the store can be read, whatever the store and the files of the index
hold. The index only proposes ids: what is found are entries that the store has under such ids and
that pass. -/
namespace VolumeSearch

namespace Catalog

def Readable (c : Catalog) : Prop := ∀ key, c.store.outage.get key = false

def entryAt? (c : Catalog) (id : FileId) : Option Entry :=
  c.store.values[entryKey id]?.bind Entry.ofBytes?

end Catalog

namespace Search
open Index (Reader)
open VolumeSearch.Text

variable {c : Catalog} {s : Source}

theorem byPath_plan (r : Request) : r.plan.byPath = true ↔ '/' ∈ (trim r.text).toList := by
  simp [Request.plan]

theorem plan_of_words {r : Request} (h : '/' ∉ (trim r.text).toList) :
    r.plan = ⟨trim r.text, SlashPath.slashes r.parent, r.offset, pageLimit r.limit, r.size, false,
      trim r.text⟩ := by
  have hno : (trim r.text).toList.contains '/' = false := by simpa using h
  simp only [Request.plan, hno, Bool.false_eq_true, if_false]

theorem target_of_path {r : Request} (h : '/' ∈ (trim r.text).toList) :
    r.plan.target = targetPath (SlashPath.slashes r.parent) (trim r.text) := by
  have hyes : (trim r.text).toList.contains '/' = true := by simpa using h
  simp only [Request.plan, hyes, if_true]

theorem mapM_ok {α β : Type} {g : α → Except Fault β} {k : α → β} (xs : List α)
    (h : ∀ x, g x = .ok (k x)) : xs.mapM g = .ok (xs.map k) := by
  rw [funext h]
  exact List.mapM_pure

theorem mapM_cons_eq_ok {ε α β : Type} {g : α → Except ε β} {x : α} {xs : List α} {zs : List β}
    (h : (x :: xs).mapM g = .ok zs) : ∃ y ys, g x = .ok y ∧ xs.mapM g = .ok ys ∧ zs = y :: ys := by
  rw [List.mapM_cons] at h
  cases hx : g x with
  | error fault =>
    rw [hx] at h
    cases h
  | ok y =>
    cases hxs : xs.mapM g with
    | error fault =>
      rw [hx, hxs] at h
      cases h
    | ok ys =>
      rw [hx, hxs] at h
      exact ⟨y, ys, rfl, rfl, (Except.ok.inj h).symm⟩

/-- Each answer is that to one of the questions. -/
theorem exists_of_mapM {ε α β : Type} {g : α → Except ε β} {xs : List α} {ys : List β}
    (h : xs.mapM g = .ok ys) : ∀ y ∈ ys, ∃ x ∈ xs, g x = .ok y := by
  induction xs generalizing ys with
  | nil =>
    obtain rfl : [] = ys := Except.ok.inj h
    simp
  | cons x rest ih =>
    obtain ⟨y, zs, hx, hrest, rfl⟩ := mapM_cons_eq_ok h
    intro z hz
    rcases List.mem_cons.mp hz with rfl | hz
    · exact ⟨x, by simp, hx⟩
    · obtain ⟨x', hx', hg⟩ := ih hrest z hz
      exact ⟨x', by simp [hx'], hg⟩

/-- A part of the questions has a part of the answers, when all have one. -/
theorem mapM_sublist {α β : Type} {g : α → Except Fault β} {xs ys : List α} (h : xs.Sublist ys)
    {zs : List β} (hys : ys.mapM g = .ok zs) : ∃ ws, xs.mapM g = .ok ws ∧ ws.Sublist zs := by
  induction h generalizing zs with
  | slnil => exact ⟨zs, hys, .refl _⟩
  | cons y _ ih =>
    obtain ⟨_, rest, -, hrest, rfl⟩ := mapM_cons_eq_ok hys
    obtain ⟨ws, hws, hsub⟩ := ih hrest
    exact ⟨ws, hws, hsub.cons _⟩
  | cons_cons y _ ih =>
    obtain ⟨z, rest, hy, hrest, rfl⟩ := mapM_cons_eq_ok hys
    obtain ⟨ws, hws, hsub⟩ := ih hrest
    refine ⟨z :: ws, ?_, hsub.cons_cons z⟩
    rw [List.mapM_cons, hy, hws]
    rfl

private theorem get_of_readable (hc : c.Readable) (key : String) :
    c.store.get key = .ok c.store.values[key]? := by
  rw [Store.get, if_neg]
  simp [hc key]

theorem loadEntry_of_readable (hc : c.Readable) (id : FileId) :
    loadEntry c id = .ok (c.entryAt? id) := by
  unfold loadEntry Catalog.load Catalog.entryAt?
  simp only [get_of_readable hc, bind, Except.bind]
  cases c.store.values[Catalog.entryKey id]? with
  | none => rfl
  | some bytes => cases hentry : Entry.ofBytes? bytes <;> simp [hentry]

/-- What is collected are the paths of the entries that are found and pass, in the order of the
ids. -/
theorem collect_of_load {find : FileId → Option Entry} (h : ∀ id, loadEntry c id = .ok (find id))
    (p : Plan) (directory : Option String) (ids : List FileId) :
    collect c p directory ids =
      .ok (((ids.filterMap find).filter (passes p directory)).map Entry.path) := by
  have hfound (show? : Option Entry → Option String) (hnone : show? none = none)
      (hsome : ∀ e, show? (some e) = if passes p directory e then some e.path else none) :
      (ids.map find).filterMap show? =
        ((ids.filterMap find).filter (passes p directory)).map Entry.path := by
    rw [List.filterMap_map, ← List.filterMap_eq_map (f := Entry.path), List.filterMap_filter,
      List.filterMap_filterMap]
    refine List.filterMap_congr fun id _ => ?_
    rw [Function.comp_apply]
    cases find id with
    | none => exact hnone
    | some e => exact hsome e
  rw [collect, mapM_ok ids h]
  exact congrArg Except.ok (hfound _ rfl fun e => rfl)

/-- Of fewer ids in the same order fewer paths are collected, in the same order. -/
theorem collect_sublist {p : Plan} {directory : Option String} {ids ids' : List FileId}
    (h : ids.Sublist ids') {paths' : List String} (hpaths' : collect c p directory ids' = .ok paths') :
    ∃ paths, collect c p directory ids = .ok paths ∧ paths.Sublist paths' := by
  rw [collect] at hpaths'
  cases hfound' : ids'.mapM (loadEntry c) with
  | error fault =>
    rw [hfound'] at hpaths'
    cases hpaths'
  | ok found' =>
    rw [hfound'] at hpaths'
    obtain rfl := Except.ok.inj hpaths'
    obtain ⟨found, hfound, hsub⟩ := mapM_sublist h hfound'
    refine ⟨_, ?_, hsub.filterMap _⟩
    rw [collect, hfound]
    rfl

/-- The scope of a plan for words is what starts with its parent; everything starts with nothing. -/
theorem inScope_of_words {p : Plan} (hwords : p.byPath = false) (path : String) :
    p.inScope none path = p.parent.toList.isPrefixOf path.toList := by
  rw [Plan.inScope, hwords, if_neg Bool.false_ne_true]
  by_cases hparent : p.parent = ""
  · rw [hparent]
    rfl
  · rw [decide_eq_false hparent, Bool.false_or]

/-- The ids that the index proposes: those of the right size when only a size is asked for, and
otherwise those that match the words, of which there are none when they cannot be read. -/
def candidates (d : IndexDir) (p : Plan) : List FileId :=
  let sizeIds := match p.size with
    | some f => Index.sizeFilterIds d f.op f.bytes
    | none => []
  if p.size.isSome && p.text = "" then sizeIds
  else
    match Reader.openIn d (.exact p.byPath) with
    | .error _ => []
    | .ok r =>
      match exactIds r (Term.tokens p.target) with
      | .error _ => []
      | .ok exact => matching d p exact sizeIds

def sizeIds (d : IndexDir) (p : Plan) : List FileId :=
  match p.size with
  | some f => Index.sizeFilterIds d f.op f.bytes
  | none => []

theorem candidates_of_size (d : IndexDir) {p : Plan} (hblank : p.size.isSome = true ∧ p.text = "") :
    candidates d p = sizeIds d p := by
  rw [candidates, if_pos (by simpa using hblank)]
  rfl

theorem indexed_eq_collect (s : Source) (p : Plan) (directory : Option String) :
    indexed s p directory = collect s.catalog p directory (candidates s.index p) := by
  unfold indexed candidates
  dsimp only
  by_cases hblank : (p.size.isSome && p.text = "") = true
  · exact (if_pos hblank).trans
      (congrArg (collect s.catalog p directory) (if_pos hblank).symm)
  · rw [if_neg hblank, if_neg hblank]
    cases Reader.openIn s.index (.exact p.byPath) with
    | error fault => rfl
    | ok r =>
      dsimp only
      cases exactIds r (Term.tokens p.target) <;> rfl

/-- The entries that the store has under the ids that the index proposes. -/
def proposed (s : Source) (p : Plan) : List Entry :=
  (candidates s.index p).filterMap s.catalog.entryAt?

def shown (s : Source) (p : Plan) : List Entry := (proposed s p).filter (passes p none)

/-- Every entry that is found passes, and the store has it under an id. -/
theorem indexed_of_readable (hc : s.catalog.Readable) (p : Plan) (directory : Option String) :
    indexed s p directory =
      .ok (((proposed s p).filter (passes p directory)).map Entry.path) := by
  rw [indexed_eq_collect, collect_of_load (loadEntry_of_readable hc)]
  rfl

theorem indexedDirectory_of_readable (hc : c.Readable) (path : String) :
    ∃ directory, indexedDirectory c path = .ok directory := by
  unfold indexedDirectory Catalog.idByPath
  simp only [get_of_readable hc, bind, Except.bind]
  cases c.store.values[Catalog.pathKey path]? with
  | none => exact ⟨none, rfl⟩
  | some bytes =>
    cases hid : Catalog.idOfBytes? bytes with
    | none => exact ⟨none, by simp only [hid]⟩
    | some id => exact ⟨_, by simp only [hid, loadEntry_of_readable hc]; rfl⟩

/-- Where nothing on the volume is the answer, the proposed entries that pass are. -/
theorem results_of_readable (hc : s.catalog.Readable) {p : Plan}
    (hlisting : p.byPath = true → s.volume.listing? p.target = none) :
    ∃ directory, (p.byPath = false → directory = none) ∧
      results s p = .ok (((proposed s p).filter (passes p directory)).map Entry.path) := by
  cases hpath : p.byPath with
  | false =>
    refine ⟨none, fun _ => rfl, ?_⟩
    rw [results, hpath, if_neg Bool.false_ne_true, indexed_of_readable hc]
  | true =>
    obtain ⟨directory, hdirectory⟩ := indexedDirectory_of_readable hc p.target
    refine ⟨directory, fun h => (by cases h), ?_⟩
    rw [results, hpath, if_pos rfl, hlisting hpath]
    simp only [hdirectory, bind, Except.bind, indexed_of_readable hc]

theorem results_of_words (hc : s.catalog.Readable) {p : Plan} (hwords : p.byPath = false) :
    results s p = .ok (((proposed s p).filter (passes p none)).map Entry.path) := by
  obtain ⟨directory, hdirectory, hresults⟩ :=
    results_of_readable hc fun h : p.byPath = true => absurd hwords (by rw [h]; decide)
  rwa [hdirectory hwords] at hresults

/-- Whatever the index and the volume hold, there is an answer. -/
theorem exists_results_of_readable (hc : s.catalog.Readable) (p : Plan) : ∃ paths, results s p = .ok paths := by
  by_cases hlisting : p.byPath = true → s.volume.listing? p.target = none
  · obtain ⟨directory, -, hresults⟩ := results_of_readable hc hlisting
    exact ⟨_, hresults⟩
  · obtain ⟨hpath, hsome⟩ := Classical.not_imp.mp hlisting
    obtain ⟨paths, hpaths⟩ := Option.ne_none_iff_exists'.mp hsome
    refine ⟨paths, ?_⟩
    rw [results, hpath, if_pos rfl, hpaths]
    rfl

theorem page_sublist (paths : List String) (offset limit : Nat) :
    (page paths offset limit).Sublist paths :=
  (List.take_sublist _ _).trans (List.drop_sublist _ _)

theorem search_of_results {r : Request} {found : List String} (h : results s r.plan = .ok found) :
    search s r = .ok (page found r.offset (pageLimit r.limit)) := by
  rw [search, h]
  rfl

end Search

end VolumeSearch
