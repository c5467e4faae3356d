import Mathlib.Logic.Relation
import Mathlib.Tactic.Common
import VolumeSearch.Proofs.Indexing

/-! Workers that index side by side; between any two actions of one, others may act. What a worker gathers
does not depend on the others, and once all are done the store is settled, in one way only. -/
namespace VolumeSearch

namespace Indexing

inductive Action where
  | write (key : String) (value : Bytes)
  /-- A visited entry gives its terms; one that could not be looked at is counted. -/
  | take (visited : Option Entry)

/-- An entry is written under its two keys before its terms are taken. -/
def actionsOf : Option Entry → List Action
  | none => [.take none]
  | some e => (Catalog.writesOf e).map (fun w => .write w.1 w.2) ++ [.take (some e)]

def act (s : Store) : Action → Except Fault Store
  | .write key value => s.set key value
  | .take _ => .ok s

namespace Harvest

def take (h : Harvest) : Option Entry → Harvest
  | none => h.skip
  | some e => h.addEntry e

def after (h : Harvest) : Action → Harvest
  | .write _ _ => h
  | .take visited => h.take visited

end Harvest

structure Worker where
  todo : List Action
  harvest : Harvest := {}

structure Progress where
  store : Store
  workers : List Worker

/-- One of the workers does its next action. -/
inductive Step : Progress → Progress → Prop
  | act {s s' : Store} {a : Action} (before after : List Worker) (todo : List Action) (h : Harvest)
      (hact : act s a = .ok s') :
      Step ⟨s, before ++ ⟨a :: todo, h⟩ :: after⟩ ⟨s', before ++ ⟨todo, h.after a⟩ :: after⟩

def Steps : Progress → Progress → Prop := Relation.ReflTransGen Step

def begun (s : Store) (walks : List (List (Option Entry))) : Progress :=
  ⟨s, walks.map fun walk => ⟨walk.flatMap actionsOf, {}⟩⟩

def Progress.Done (p : Progress) : Prop := ∀ w ∈ p.workers, w.todo = []

variable {p q : Progress} {s : Store} {walks : List (List (Option Entry))}

/-- What the worker will have gathered in the end. -/
def Worker.yield (w : Worker) : Harvest := w.todo.foldl Harvest.after w.harvest

theorem yields_of_step (h : Step p q) : q.workers.map Worker.yield = p.workers.map Worker.yield := by
  cases h with
  | act before after todo h hact =>
    simp only [List.map_append, List.map_cons]
    rfl

theorem yields_of_steps (h : Steps p q) : q.workers.map Worker.yield = p.workers.map Worker.yield := by
  induction h with
  | refl => rfl
  | tail _ hstep ih => rw [yields_of_step hstep, ih]

private theorem foldl_after_actionsOf (h : Harvest) (visited : Option Entry) :
    (actionsOf visited).foldl Harvest.after h = h.take visited := by
  cases visited <;> rfl

theorem yield_begun (walk : List (Option Entry)) :
    Worker.yield ⟨walk.flatMap actionsOf, {}⟩ = walk.foldl Harvest.take {} := by
  rw [Worker.yield, List.foldl_flatMap]
  exact congrArg (List.foldl · {} walk) (funext fun h => funext (foldl_after_actionsOf h))

/-- Each worker gathers what its walk holds. -/
theorem harvests_of_done (h : Steps (begun s walks) p) (hdone : p.Done) :
    p.workers.map Worker.harvest = walks.map fun walk => walk.foldl Harvest.take {} := by
  have hyields := yields_of_steps h
  have hfinal : p.workers.map Worker.yield = p.workers.map Worker.harvest :=
    List.map_congr_left fun w hw => by rw [Worker.yield, hdone w hw]; rfl
  rw [← hfinal, hyields, begun, List.map_map]
  exact List.map_congr_left fun walk _ => yield_begun walk

def Writes (es : List Entry) (key : String) (value : Bytes) : Prop :=
  ∃ e ∈ es, (key, value) ∈ Catalog.writesOf e

/-- With distinct ids and paths, every key is given one value only. -/
theorem Writes.unique {es : List Entry} (hids : Entry.DistinctIds es) (hpaths : Entry.DistinctPaths es)
    {key : String} {a b : Bytes} (ha : Writes es key a) (hb : Writes es key b) : a = b := by
  obtain ⟨e, he, hea⟩ := ha
  obtain ⟨o, ho, hob⟩ := hb
  simp only [Catalog.writesOf, List.mem_cons, List.not_mem_nil, or_false, Prod.mk.injEq] at hea hob
  rcases hea with ⟨rfl, rfl⟩ | ⟨rfl, rfl⟩
  · rcases hob with ⟨hkey, rfl⟩ | ⟨hkey, rfl⟩
    · rw [Entry.eq_of_id_eq hids he ho (Catalog.entryKey_inj hkey)]
    · exact absurd hkey (Catalog.entryKey_ne_pathKey _ _)
  · rcases hob with ⟨hkey, rfl⟩ | ⟨hkey, rfl⟩
    · exact absurd hkey.symm (Catalog.entryKey_ne_pathKey _ _)
    · rw [List.inj_on_of_nodup_map hpaths he ho (Catalog.pathKey_inj hkey)]

def Progress.Pending (p : Progress) (key : String) (value : Bytes) : Prop :=
  ∃ w ∈ p.workers, .write key value ∈ w.todo

/-- Of the writes of the entries, each is done or to come, and there are no others. -/
structure Ongoing (s : Store) (es : List Entry) (p : Progress) : Prop where
  works : p.store.outage = {}
  pending : ∀ key value, p.Pending key value → Writes es key value
  written : ∀ key value, Writes es key value →
    p.store.values[key]? = some value ∨ p.Pending key value
  kept : ∀ key, (∀ value, ¬ Writes es key value) → p.store.values[key]? = s.values[key]?

/-- The store has what the entries write, and is otherwise as it was. -/
structure Settled (s : Store) (es : List Entry) (s' : Store) : Prop where
  works : s'.outage = {}
  written : ∀ key value, Writes es key value → s'.values[key]? = some value
  kept : ∀ key, (∀ value, ¬ Writes es key value) → s'.values[key]? = s.values[key]?

/-- The walks meet just these entries, any of them any number of times. -/
def Delivers (walks : List (List (Option Entry))) (es : List Entry) : Prop :=
  ∀ e, some e ∈ walks.flatten ↔ e ∈ es

variable {es : List Entry}

private theorem write_mem_actionsOf (key : String) (value : Bytes) (visited : Option Entry) :
    .write key value ∈ actionsOf visited ↔ ∃ e, visited = some e ∧ (key, value) ∈ Catalog.writesOf e := by
  cases visited with
  | none => simp [actionsOf]
  | some e => simp [actionsOf, Catalog.writesOf]

private theorem pending_begun (hwalks : Delivers walks es) (key : String) (value : Bytes) :
    (begun s walks).Pending key value ↔ Writes es key value := by
  simp only [Progress.Pending, begun, List.mem_map, Writes]
  constructor
  · rintro ⟨-, ⟨walk, hwalk, rfl⟩, hwrite⟩
    obtain ⟨visited, hvisited, hmem⟩ := List.mem_flatMap.mp hwrite
    obtain ⟨e, rfl, he⟩ := (write_mem_actionsOf key value visited).mp hmem
    exact ⟨e, (hwalks e).mp (List.mem_flatten.mpr ⟨walk, hwalk, hvisited⟩), he⟩
  · rintro ⟨e, he, hmem⟩
    obtain ⟨walk, hwalk, hvisited⟩ := List.mem_flatten.mp ((hwalks e).mpr he)
    refine ⟨_, ⟨walk, hwalk, rfl⟩, List.mem_flatMap.mpr ⟨some e, hvisited, ?_⟩⟩
    exact (write_mem_actionsOf key value _).mpr ⟨e, rfl, hmem⟩

theorem ongoing_begun (hworks : s.outage = {}) (hwalks : Delivers walks es) :
    Ongoing s es (begun s walks) where
  works := hworks
  pending key value := (pending_begun hwalks key value).mp
  written key value h := .inr ((pending_begun hwalks key value).mpr h)
  kept _ _ := rfl

/-- What is to come after an action is what was to come before it, but for the action. -/
private theorem pending_cons (s s' : Store) (before after : List Worker) (a : Action)
    (todo : List Action) (h h' : Harvest) (key : String) (value : Bytes) :
    Progress.Pending ⟨s, before ++ ⟨a :: todo, h⟩ :: after⟩ key value ↔
      a = .write key value ∨ Progress.Pending ⟨s', before ++ ⟨todo, h'⟩ :: after⟩ key value := by
  simp only [Progress.Pending, List.mem_append, List.mem_cons]
  grind

/-- An action leaves every write of the entries done or to come. -/
theorem Ongoing.step (hids : Entry.DistinctIds es) (hpaths : Entry.DistinctPaths es)
    (h : Ongoing s es p) (hstep : Step p q) : Ongoing s es q := by
  cases hstep with
  | @act t t' a before after todo harvest hact =>
    have hpending := pending_cons t t' before after a todo harvest (harvest.after a)
    cases a with
    | take visited =>
      -- nothing is written, so no write goes
      obtain rfl : t = t' := Except.ok.inj hact
      refine ⟨h.works, fun key value hto => ?_, fun key value hwrites => ?_, h.kept⟩
      · exact h.pending key value ((hpending key value).mpr (.inr hto))
      · refine (h.written key value hwrites).imp_right fun hto => ?_
        exact ((hpending key value).mp hto).resolve_left (by simp)
    | write k v =>
      have hworks : t.outage = {} := h.works
      have hset : t' = ⟨t.values.insert k v, {}⟩ := by
        simp only [act, Store.set, hworks] at hact
        exact (Except.ok.inj hact).symm
      have hget (key : String) : t'.values[key]? = if k = key then some v else t.values[key]? := by
        rw [hset, Std.TreeMap.getElem?_insert]
        simp only [Std.compare_eq_iff_eq]
      have hwritten : Writes es k v := h.pending k v ((hpending k v).mpr (.inl rfl))
      refine ⟨by rw [hset], fun key value hto => ?_, fun key value hwrites => ?_,
        fun key hnone => ?_⟩
      · exact h.pending key value ((hpending key value).mpr (.inr hto))
      · show t'.values[key]? = some value ∨ _
        -- a value written under this key before is the one that is written now
        rw [hget]
        split
        · next hkey => exact .inl (congrArg some (hwritten.unique hids hpaths (hkey ▸ hwrites)))
        · next hkey =>
          refine (h.written key value hwrites).imp_right fun hto => ?_
          exact ((hpending key value).mp hto).resolve_left fun he => hkey (Action.write.inj he).1
      · show t'.values[key]? = _
        have hother : k ≠ key := fun hkey => hnone v (hkey ▸ hwritten)
        rw [hget, if_neg hother]
        exact h.kept key hnone

theorem Ongoing.steps (hids : Entry.DistinctIds es) (hpaths : Entry.DistinctPaths es)
    (h : Ongoing s es p) (hsteps : Steps p q) : Ongoing s es q := by
  induction hsteps with
  | refl => exact h
  | tail _ hstep ih => exact ih.step hids hpaths hstep

theorem Ongoing.settled (h : Ongoing s es p) (hdone : p.Done) : Settled s es p.store where
  works := h.works
  written key value hwrites := by
    refine (h.written key value hwrites).resolve_right ?_
    rintro ⟨w, hw, hto⟩
    rw [hdone w hw] at hto
    exact List.not_mem_nil hto
  kept := h.kept

/-- However the workers take turns, in the end the store is settled. -/
theorem settled_of_done (hids : Entry.DistinctIds es) (hpaths : Entry.DistinctPaths es)
    (hworks : s.outage = {}) (hwalks : Delivers walks es) (h : Steps (begun s walks) p) (hdone : p.Done) :
    Settled s es p.store :=
  ((ongoing_begun hworks hwalks).steps hids hpaths h).settled hdone

/-- A store is settled in one way only. -/
theorem Settled.toList_eq {a b : Store} (ha : Settled s es a) (hb : Settled s es b) :
    a.values.toList = b.values.toList := by
  refine (Std.TreeMap.Equiv.of_forall_constGet?_eq fun key => ?_).toList_eq
  by_cases hsome : ∃ value, Writes es key value
  · obtain ⟨value, hvalue⟩ := hsome
    exact (ha.written key value hvalue).trans (hb.written key value hvalue).symm
  · have hnone := not_exists.mp hsome
    exact (ha.kept key hnone).trans (hb.kept key hnone).symm

/-- What settles a settled store settles the store before it. -/
theorem Settled.again {a b : Store} (ha : Settled s es a) (hb : Settled a es b) : Settled s es b where
  works := hb.works
  written := hb.written
  kept key hnone := (hb.kept key hnone).trans (ha.kept key hnone)

end Indexing

end VolumeSearch
