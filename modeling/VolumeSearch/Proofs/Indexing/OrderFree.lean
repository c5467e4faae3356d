import Mathlib.Tactic.Common
import VolumeSearch.Proofs.Index.Repeated
import VolumeSearch.Proofs.Indexing.Harvests

/-! What a pass leaves behind depends on which entries are met and on nothing else: not on their order, not
on how they are shared out among workers, nor on how these take turns, how often an entry is met, or in
which order the harvests are merged. A second pass over the same entries changes nothing. -/
namespace VolumeSearch

namespace Indexing
open Index (Ready)
open Entry (DistinctIds DistinctPaths)

variable {σ : Type} [Index.Shelf σ]

/-- An outcome of a pass with a worker for each walk: the workers act in turns until all are done, their
harvests are merged in any order, and the families are written. -/
def Pass (c : Catalog) (d : σ) (walks : List (List (Option Entry))) (o : Outcome σ) : Prop :=
  ∃ (p : Progress) (hs : List Harvest), Steps (begun c.store walks) p ∧ p.Done ∧
    hs.Perm (p.workers.map Worker.harvest) ∧ o = finish ⟨p.store⟩ d (hs.foldl Harvest.merge {})

private theorem steps_of_foldlM (before after : List Worker) (todo : List Action) {actions : List Action}
    {s s' : Store} (h : Harvest) (hact : actions.foldlM act s = .ok s') :
    Steps ⟨s, before ++ ⟨actions ++ todo, h⟩ :: after⟩
      ⟨s', before ++ ⟨todo, actions.foldl Harvest.after h⟩ :: after⟩ := by
  induction actions generalizing s h with
  | nil =>
    obtain rfl : s = s' := Except.ok.inj hact
    exact .refl
  | cons a rest ih =>
    rw [List.foldlM_cons] at hact
    cases ha : act s a with
    | error fault =>
      rw [ha] at hact
      cases hact
    | ok t =>
      rw [ha] at hact
      exact .head (.act before after (rest ++ todo) h ha) (ih (h.after a) hact)

/-- In a store that works, the actions of a walk record its entries. -/
private theorem foldlM_act {c : Catalog} (hworks : c.store.outage = {}) (walk : List (Option Entry)) :
    (walk.flatMap actionsOf).foldlM act c.store = .ok (c.persistAll (walk.filterMap id)).store := by
  induction walk generalizing c with
  | nil => rfl
  | cons visited rest ih =>
    rw [List.flatMap_cons, List.foldlM_append]
    cases visited with
    | none => exact ih hworks
    | some e =>
      have hrecord : (actionsOf (some e)).foldlM act c.store = .ok (c.persist e).1.store := by
        simp [actionsOf, Catalog.writesOf, act, Store.set, hworks, Catalog.persist_eq hworks e]
        rfl
      have hnext : (c.persist e).1.store.outage = {} := by rw [Catalog.persist_eq hworks e]
      rw [hrecord]
      exact ih hnext

theorem steps_in_order {c : Catalog} (hworks : c.store.outage = {}) (walks : List (List (Option Entry))) :
    Steps (begun c.store walks) ⟨(c.persistAll (walks.flatten.filterMap id)).store,
      walks.map fun walk => ⟨[], walk.foldl Harvest.take {}⟩⟩ := by
  -- the workers before the first walk that is left are done
  have hrest (before : List Worker) {c : Catalog} (hworks : c.store.outage = {}) :
      Steps ⟨c.store, before ++ walks.map fun walk => ⟨walk.flatMap actionsOf, {}⟩⟩
        ⟨(c.persistAll (walks.flatten.filterMap id)).store,
          before ++ walks.map fun walk => ⟨[], walk.foldl Harvest.take {}⟩⟩ := by
    induction walks generalizing before c with
    | nil => exact .refl
    | cons walk rest ih =>
      have hfirst := steps_of_foldlM before (rest.map fun walk => ⟨walk.flatMap actionsOf, {}⟩) [] {}
        (foldlM_act hworks walk)
      have hthen := ih (before ++ [⟨[], walk.foldl Harvest.take {}⟩])
        (Catalog.works_persistAll hworks (walk.filterMap id))
      have hyield : (walk.flatMap actionsOf).foldl Harvest.after {} = walk.foldl Harvest.take {} :=
        yield_begun walk
      rw [List.append_nil, hyield] at hfirst
      rw [List.append_assoc, List.append_assoc] at hthen
      rw [List.flatten_cons, List.filterMap_append, ← Catalog.persistAll_persistAll]
      exact hfirst.trans hthen
  exact hrest [] hworks

private theorem recordWalks_works {c : Catalog} (hworks : c.store.outage = {}) (walks : List (List Visit)) :
    recordWalks c walks =
      (c.persistAll ((walks.map fun visits => visits.map Visit.entry?).flatten.filterMap id),
        (walks.map fun visits => (visits.map Visit.entry?).foldl Harvest.take {}).foldl
          Harvest.merge {}) := by
  have htaken : taken c.store.outage = id := by
    funext visited
    rw [hworks]
    cases visited <;> rfl
  rw [recordWalks_eq, htaken]
  simp only [List.map_id]

/-- Workers that do their walks one after the other make a pass. -/
theorem pass_in_order {c : Catalog} (hworks : c.store.outage = {}) (d : σ)
    (walks : List (List (Option Entry))) :
    Pass c d walks (finish (c.persistAll (walks.flatten.filterMap id)) d
      ((walks.map fun walk => walk.foldl Harvest.take {}).foldl Harvest.merge {})) := by
  refine ⟨_, _, steps_in_order hworks walks, ?_, ?_, rfl⟩
  · intro w hw
    obtain ⟨walk, -, rfl⟩ := List.mem_map.mp hw
    rfl
  · rw [List.map_map]
    exact .refl _

/-- Walking roots one after the other is such a pass. -/
theorem pass_run (v : Volume) {c : Catalog} (hworks : c.store.outage = {}) (d : σ) (hidden : Bool)
    {roots : List String} (hroots : roots ≠ []) :
    Pass c d (roots.map fun root => (v.walk hidden root).map Visit.entry?) (run v c d hidden roots) := by
  have hempty : ¬ roots.isEmpty = true := by simpa using hroots
  have hpass := pass_in_order hworks d (roots.map fun root => (v.walk hidden root).map Visit.entry?)
  have hrecord := recordWalks_works hworks (roots.map (v.walk hidden))
  rw [List.map_map, List.map_map] at hrecord
  rw [List.map_map] at hpass
  rw [run, if_neg hempty, hrecord]
  exact hpass

theorem entries_congr {c c' : Catalog} (hworks : c.store.outage = {}) (hworks' : c'.store.outage = {})
    (hsame : c.store.values.toList = c'.store.values.toList) : c.entries = c'.entries := by
  rw [Catalog.entries, Catalog.entries, Store.withStem, Store.withStem, hworks, hworks', hsame]

variable {es : List Entry} {walks : List (List (Option Entry))} {c : Catalog} {d : σ} {o : Outcome σ}

/-- The store is settled, and the families are those of the entries and of the whole store. -/
theorem pass_spec (hids : DistinctIds es) (hpaths : DistinctPaths es) (hworks : c.store.outage = {})
    (hwalks : Delivers walks es) (h : Pass c d walks o) :
    Settled c.store es o.catalog.store ∧ ∃ entries, o.catalog.entries = .ok entries ∧
      writeFamilies d [] (passMaps es entries) = (o.index, o.result.map Report.families) := by
  obtain ⟨p, hs, hsteps, hdone, hperm, rfl⟩ := h
  have hsettled := settled_of_done hids hpaths hworks hwalks hsteps hdone
  rw [harvests_of_done hsteps hdone] at hperm
  obtain ⟨entries, hentries, hcatalog, hwrite⟩ :=
    finish_spec (c := ⟨p.store⟩) hsettled.works d (hs.foldl Harvest.merge {})
  rw [hcatalog]
  refine ⟨hsettled, entries, hentries, ?_⟩
  rw [← hwrite, writeFamilies_harvests hwalks hperm]

/-- The outcomes have the same store and the same files, byte by byte, and the same numbers of terms or
the same failure. -/
structure Agree (o o' : Outcome IndexDir) : Prop where
  store : o'.catalog.store.values.toList = o.catalog.store.values.toList
  files : ∀ f : Family, ∀ n ∈ f.files, o'.index.item? n = o.index.item? n
  families : o'.result.map Report.families = o.result.map Report.families

/-- Two passes over the same entries from the same place. -/
private theorem agree_of_pass (hids : DistinctIds es) (hpaths : DistinctPaths es)
    (hworks : c.store.outage = {}) {d : IndexDir} {walks walks' : List (List (Option Entry))}
    (hwalks : Delivers walks es) (hwalks' : Delivers walks' es) {o o' : Outcome IndexDir}
    (h : Pass c d walks o) (h' : Pass c d walks' o') : Agree o o' := by
  obtain ⟨hsettled, entries, hentries, hwrite⟩ := pass_spec hids hpaths hworks hwalks h
  obtain ⟨hsettled', entries', hentries', hwrite'⟩ := pass_spec hids hpaths hworks hwalks' h'
  have hstore := hsettled'.toList_eq hsettled
  have hmet := entries_congr hsettled'.works hsettled.works hstore
  obtain rfl := Except.ok.inj (hentries.symm.trans (hmet.symm.trans hentries'))
  obtain ⟨hindex, hresult⟩ := Prod.mk.inj (hwrite'.symm.trans hwrite)
  exact ⟨hstore, fun f n _ => by rw [hindex], hresult⟩

/-- A second pass over the same entries, from where the first one ended. -/
private theorem agree_of_pass_again (hids : DistinctIds es) (hpaths : DistinctPaths es)
    (hworks : c.store.outage = {}) {d : IndexDir} (hready : ∀ f, Ready d f)
    {walks again : List (List (Option Entry))} (hwalks : Delivers walks es)
    (hagain : Delivers again es) {o o' : Outcome IndexDir} (h : Pass c d walks o)
    (h' : Pass o.catalog o.index again o') : Agree o o' := by
  obtain ⟨hsettled, entries, hentries, hwrite⟩ := pass_spec hids hpaths hworks hwalks h
  obtain ⟨hsettled', entries', hentries', hwrite'⟩ := pass_spec hids hpaths hsettled.works hagain h'
  have hstore := (hsettled.again hsettled').toList_eq hsettled
  have hmet := entries_congr hsettled'.works hsettled.works hstore
  obtain rfl := Except.ok.inj (hentries.symm.trans (hmet.symm.trans hentries'))
  obtain ⟨d', hsecond, hfiles⟩ := writeFamilies_again hready hwrite
  obtain ⟨hindex, hresult⟩ := Prod.mk.inj (hwrite'.symm.trans hsecond)
  exact ⟨hstore, fun f n hn => by rw [hindex, hfiles f n hn], hresult⟩

/-- All passes that meet the same entries agree, and so does walking roots that hold these entries one
after the other. Any further pass over the entries leaves everything as it is. This holds for any store
and any index before, as long as the store works and nothing stands in the way of the files. -/
theorem pass_independent_of_order (hids : DistinctIds es) (hpaths : DistinctPaths es)
    (hworks : c.store.outage = {}) {d : IndexDir} (hready : ∀ f, Ready d f)
    {walks : List (List (Option Entry))} (hwalks : Delivers walks es) {o : Outcome IndexDir}
    (h : Pass c d walks o) :
    (∀ walks' o', Delivers walks' es → Pass c d walks' o' → Agree o o') ∧
    (∀ (v : Volume) (hidden : Bool) (roots : List String), roots ≠ [] →
      Delivers (roots.map fun root => (v.walk hidden root).map Visit.entry?) es →
      Agree o (run v c d hidden roots)) ∧
    ∀ again o', Delivers again es → Pass o.catalog o.index again o' → Agree o o' := by
  refine ⟨fun walks' o' hwalks' h' => ?_, fun v hidden roots hroots hmet => ?_,
    fun again o' hagain h' => ?_⟩
  · exact agree_of_pass hids hpaths hworks hwalks hwalks' h h'
  · exact agree_of_pass hids hpaths hworks hwalks hmet h (pass_run v hworks d hidden hroots)
  · exact agree_of_pass_again hids hpaths hworks hready hwalks hagain h h'

def albumAndPicture : List Entry :=
  [⟨3, "/a", "a", "", 4096, 0, true, false⟩, ⟨7, "/a/b.jpg", "b.jpg", "jpg", 2048, 86400, false, false⟩]

/-- One root is the directory; the other is the picture in it, which is met twice. -/
def overlappingWalks : List (List (Option Entry)) :=
  [albumAndPicture.map some, [none, albumAndPicture.getLast?]]

private theorem step_first {s s' : Store} {a : Action} {todo : List Action} {h : Harvest} {w : Worker}
    (hact : act s a = .ok s') : Step ⟨s, [⟨a :: todo, h⟩, w]⟩ ⟨s', [⟨todo, h.after a⟩, w]⟩ :=
  .act [] [w] todo h hact

private theorem step_second {s s' : Store} {a : Action} {todo : List Action} {h : Harvest} {w : Worker}
    (hact : act s a = .ok s') : Step ⟨s, [w, ⟨a :: todo, h⟩]⟩ ⟨s', [w, ⟨todo, h.after a⟩]⟩ :=
  .act [w] [] todo h hact

/-- The second worker begins with the picture while the first one is at the directory, and both are at the
picture when it ends. -/
private theorem steps_in_turns : ∃ p, Steps (begun .empty overlappingWalks) p ∧ p.Done := by
  refine ⟨_, .head (step_first rfl) (.head (step_second rfl) (.head (step_second rfl)
    (.head (step_first rfl) (.head (step_first rfl) (.head (step_first rfl) (.head (step_second rfl)
    (.head (step_first rfl) (.head (step_second rfl) (.head (step_first rfl) .refl))))))))), ?_⟩
  intro w hw
  simp only [List.mem_cons, List.not_mem_nil, or_false] at hw
  obtain rfl | rfl := hw <;> rfl

/-- Two workers in turns, one that meets the entries in the other order, and the two workers again. -/
theorem passes_over_album :
    DistinctIds albumAndPicture ∧ DistinctPaths albumAndPicture ∧ (∀ f, Ready .absent f) ∧
    Delivers overlappingWalks albumAndPicture ∧ Delivers [albumAndPicture.reverse.map some] albumAndPicture ∧
    ∃ o o' o'' : Outcome IndexDir, Pass .empty .absent overlappingWalks o ∧
      Pass .empty .absent [albumAndPicture.reverse.map some] o' ∧ Agree o o' ∧
      Pass o.catalog o.index overlappingWalks o'' ∧ Agree o o'' := by
  have hids : DistinctIds albumAndPicture := by
    unfold DistinctIds
    decide
  have hpaths : DistinctPaths albumAndPicture := by
    unfold DistinctPaths
    decide
  have hwalks : Delivers overlappingWalks albumAndPicture := fun e => by
    simp [overlappingWalks, albumAndPicture]
  have hreversed : Delivers [albumAndPicture.reverse.map some] albumAndPicture := fun e => by
    simp [albumAndPicture, or_comm]
  obtain ⟨p, hsteps, hdone⟩ := steps_in_turns
  have hturns : Pass .empty IndexDir.absent overlappingWalks
      (finish ⟨p.store⟩ .absent ((p.workers.map Worker.harvest).reverse.foldl Harvest.merge {})) :=
    ⟨p, _, hsteps, hdone, List.reverse_perm _, rfl⟩
  obtain ⟨hsettled, -⟩ := pass_spec hids hpaths rfl hwalks hturns
  obtain ⟨hsame, -, hagain⟩ :=
    pass_independent_of_order hids hpaths rfl Index.ready_absent hwalks hturns
  have hordered := pass_in_order (c := .empty) rfl IndexDir.absent [albumAndPicture.reverse.map some]
  have hsecond := pass_in_order hsettled.works (finish ⟨p.store⟩ IndexDir.absent
    ((p.workers.map Worker.harvest).reverse.foldl Harvest.merge {})).index overlappingWalks
  exact ⟨hids, hpaths, Index.ready_absent, hwalks, hreversed, _, _, _, hturns, hordered,
    hsame _ _ hreversed hordered, hsecond, hagain _ _ hwalks hsecond⟩

end Indexing

end VolumeSearch
