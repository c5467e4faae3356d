import Mathlib.Tactic.Common
import VolumeSearch.Proofs.Catalog.Records

/-! A catalog whose store refuses some writes. An entry has two writes, and the first stays when the second is
refused. -/
namespace VolumeSearch

namespace Store

/-- The store with values that it does not refuse, one after the other. -/
def put (s : Store) (ws : List (String × Bytes)) : Store :=
  { s with values := ws.foldl (fun m w => m.insert w.1 w.2) s.values }

variable {s : Store} {ws : List (String × Bytes)} {key : String}

theorem put_put (s : Store) (ws later : List (String × Bytes)) :
    (s.put ws).put later = s.put (ws ++ later) := by
  rw [put, put, put, List.foldl_append]

/-- Writes in order come through up to the first that is refused. -/
theorem setAll_eq (s : Store) (ws : List (String × Bytes)) :
    s.setAll ws = (s.put (ws.takeWhile fun w => !s.outage.set w.1),
      if ws.all fun w => !s.outage.set w.1 then .ok () else .error .io) := by
  induction ws generalizing s with
  | nil => rfl
  | cons w rest ih =>
    obtain ⟨key, value⟩ := w
    cases hset : s.outage.set key with
    | true => simp [setAll, set, put, hset]
    | false =>
      have hnext : s.set key value = .ok { s with values := s.values.insert key value } := by
        simp [set, hset]
      simp only [setAll, hnext, ih, List.takeWhile_cons, List.all_cons, hset, Bool.not_false, if_true,
        Bool.true_and]
      rfl

theorem getElem?_put_append (s : Store) (ws : List (String × Bytes)) (w : String × Bytes) (key : String) :
    (s.put (ws ++ [w])).values[key]? = if w.1 = key then some w.2 else (s.put ws).values[key]? := by
  rw [← put_put]
  exact Catalog.getElem?_insert _ _ _ _

theorem getElem?_put_of_forall (h : ∀ w ∈ ws, w.1 ≠ key) : (s.put ws).values[key]? = s.values[key]? := by
  induction ws using List.reverseRecOn with
  | nil => rfl
  | append_singleton ws w ih =>
    rw [List.forall_mem_append, List.forall_mem_singleton] at h
    rw [getElem?_put_append, if_neg h.2, ih h.1]

theorem getElem?_put_of_mem {value : Bytes} (hsame : ∀ w ∈ ws, w.1 = key → w.2 = value)
    (h : (key, value) ∈ ws) : (s.put ws).values[key]? = some value := by
  induction ws using List.reverseRecOn with
  | nil => exact absurd h List.not_mem_nil
  | append_singleton ws w ih =>
    rw [List.forall_mem_append, List.forall_mem_singleton] at hsame
    rw [getElem?_put_append]
    by_cases hkey : w.1 = key
    · rw [if_pos hkey, hsame.2 hkey]
    · rw [if_neg hkey]
      refine ih hsame.1 ((List.mem_append.mp h).resolve_right fun hlast => hkey ?_)
      rw [← List.mem_singleton.mp hlast]

theorem getElem?_put_eq {value : Bytes} {b : Prop} [Decidable b]
    (hwrites : ∀ v, (key, v) ∈ ws ↔ b ∧ v = value) (s : Store) :
    (s.put ws).values[key]? = if b then some value else s.values[key]? := by
  split
  · next hb =>
    refine getElem?_put_of_mem ?_ ((hwrites value).mpr ⟨hb, rfl⟩)
    intro w hw hkey
    exact ((hwrites w.2).mp (hkey ▸ hw)).2
  · next hb =>
    refine getElem?_put_of_forall ?_
    intro w hw hkey
    exact hb ((hwrites w.2).mp (hkey ▸ hw)).1

end Store

namespace Catalog

/-- The writes of an entry that come through: those before the first that is refused. -/
def landed (o : Outage) (e : Entry) : List (String × Bytes) := (writesOf e).takeWhile fun w => !o.set w.1

def kept (o : Outage) (e : Entry) : Bool := !o.set (entryKey e.id)

def lands (o : Outage) (e : Entry) : Bool := (writesOf e).all fun w => !o.set w.1

variable {o : Outage} {e : Entry}

theorem lands_eq (o : Outage) (e : Entry) : lands o e = (kept o e && !o.set (pathKey e.path)) := by
  simp [lands, kept, writesOf]

/-- The record of an entry may come through by itself, its path only after it. -/
theorem mem_landed {w : String × Bytes} : w ∈ landed o e ↔
    w = (entryKey e.id, e.toBytes) ∧ kept o e = true ∨
    w = (pathKey e.path, Bytes.ofText (toString e.id.toNat)) ∧ lands o e = true := by
  rw [lands_eq, kept]
  cases hentry : o.set (entryKey e.id) <;> cases hpath : o.set (pathKey e.path) <;>
    simp [landed, writesOf, hentry, hpath]

theorem persist_landed (c : Catalog) (e : Entry) :
    c.persist e = (⟨c.store.put (landed c.store.outage e)⟩,
      if lands c.store.outage e then .ok () else .error .io) := by
  rw [persist, Store.setAll_eq]
  rfl

theorem outage_persistAll (c : Catalog) (es : List Entry) :
    (c.persistAll es).store.outage = c.store.outage := by
  induction es using List.reverseRecOn with
  | nil => rfl
  | append_singleton es e ih => rw [persistAll_append, persist_landed, ← ih]; rfl

theorem persistAll_landed (c : Catalog) (es : List Entry) :
    c.persistAll es = ⟨c.store.put (es.flatMap (landed c.store.outage))⟩ := by
  induction es using List.reverseRecOn with
  | nil => rfl
  | append_singleton es e ih =>
    rw [persistAll_append, persist_landed, outage_persistAll, ih, Store.put_put, List.flatMap_append,
      List.flatMap_singleton]

structure OnlyWritesFail (o : Outage) : Prop where
  get : ∀ key, o.get key = false
  iterate : o.iterate = false
  flush : o.flush = false

variable {c : Catalog}

private theorem get_eq (h : OnlyWritesFail c.store.outage) (key : String) :
    c.store.get key = .ok c.store.values[key]? := by
  simp [Store.get, h.get key]

theorem load_eq_none_iff (h : OnlyWritesFail c.store.outage) (id : FileId) :
    c.load id = .ok none ↔ c.store.values[entryKey id]? = none := by
  simp only [load, get_eq h, bind, Except.bind]
  cases c.store.values[entryKey id]? with
  | none => simp
  | some bytes => cases hread : Entry.ofBytes? bytes <;> simp [hread]

theorem load_of_value (h : OnlyWritesFail c.store.outage)
    (hvalue : c.store.values[entryKey e.id]? = some e.toBytes) : c.load e.id = .ok (some e) := by
  simp only [load, get_eq h, bind, Except.bind, hvalue, Entry.ofBytes?_toBytes]

theorem idByPath_eq_none_iff (h : OnlyWritesFail c.store.outage) (path : String) :
    c.idByPath path = .ok none ↔ c.store.values[pathKey path]? = none := by
  simp only [idByPath, get_eq h, bind, Except.bind]
  cases c.store.values[pathKey path]? with
  | none => simp
  | some bytes => cases hread : idOfBytes? bytes <;> simp [hread]

theorem idByPath_of_value (h : OnlyWritesFail c.store.outage) {path : String} {id : FileId}
    (hvalue : c.store.values[pathKey path]? = some (Bytes.ofText (toString id.toNat))) :
    c.idByPath path = .ok (some id) := by
  simp only [idByPath, get_eq h, bind, Except.bind, hvalue, idOfBytes?_ofText]

theorem exists_entries (h : OnlyWritesFail c.store.outage) : ∃ met, c.entries = .ok met := by
  rw [entries, Store.withStem, h.iterate]
  exact ⟨_, rfl⟩

/-- What is met are the entries that the values hold whose keys start as those of ids do. -/
theorem mem_of_entries {met : List Entry} (h : c.entries = .ok met) {x : Entry} :
    x ∈ met ↔ ∃ (key : String) (bytes : Bytes), c.store.values[key]? = some bytes ∧
      entryStem.toList.isPrefixOf key.toList = true ∧ Entry.ofBytes? bytes = some x := by
  unfold entries Store.withStem at h
  split at h
  · cases h
  · obtain rfl := Except.ok.inj h
    simp only [List.mem_filterMap, List.mem_filter, Std.TreeMap.mem_toList_iff_getElem?_eq_some, Prod.exists,
      and_assoc]

/-- The catalog has nothing of the entry, under its keys or elsewhere. -/
structure Lacks (c : Catalog) (e : Entry) : Prop where
  unloaded : c.load e.id = .ok none
  unfound : c.idByPath e.path = .ok none
  unmet : ∀ met, c.entries = .ok met → ∀ o ∈ met, o.id ≠ e.id

end Catalog

end VolumeSearch
