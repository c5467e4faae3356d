import Mathlib.Tactic.Common
import VolumeSearch.Catalog
import VolumeSearch.Proofs.Bytes
import VolumeSearch.Proofs.Entry.Latest
import VolumeSearch.Proofs.Entry.Stored
import VolumeSearch.Proofs.Text.Blank
import VolumeSearch.Proofs.Text.Numeral

namespace VolumeSearch
open VolumeSearch.Text

namespace Catalog

private theorem toString_inj {m n : Nat} (h : toString m = toString n) : m = n := by
  have hdigits : Nat.toDigits 10 m = Nat.toDigits 10 n := by
    have hlist := congrArg String.toList h
    simpa only [Nat.toString_eq_repr, Nat.toList_repr] using hlist
  have hm := Numeral.digitsFrom_toDigits m
  rw [hdigits, Numeral.digitsFrom_toDigits] at hm
  exact (Option.some.inj hm).symm

theorem entryKey_inj {a b : FileId} (h : entryKey a = entryKey b) : a = b := by
  have hlist := congrArg String.toList h
  rw [entryKey, entryKey, String.toList_append, String.toList_append] at hlist
  exact UInt64.toNat_inj.mp (toString_inj (String.toList_inj.mp (List.append_cancel_left hlist)))

theorem pathKey_inj {p q : String} (h : pathKey p = pathKey q) : p = q := by
  have hlist := congrArg String.toList h
  rw [pathKey, pathKey, String.toList_append, String.toList_append] at hlist
  exact String.toList_inj.mp (List.append_cancel_left hlist)

theorem entryKey_ne_pathKey (id : FileId) (path : String) : entryKey id ≠ pathKey path := by
  intro h
  have hlist := congrArg String.toList h
  rw [entryKey, pathKey, String.toList_append, String.toList_append] at hlist
  have hstem : entryStem.toList = ['f', ':'] := rfl
  have hpath : "p:".toList = ['p', ':'] := rfl
  rw [hstem, hpath] at hlist
  exact absurd (List.cons.inj hlist).1 (by decide)

def persistAll (c : Catalog) (es : List Entry) : Catalog := es.foldl (fun c e => (c.persist e).1) c

theorem persistAll_append (c : Catalog) (es : List Entry) (e : Entry) :
    c.persistAll (es ++ [e]) = ((c.persistAll es).persist e).1 := by
  rw [persistAll, List.foldl_append]
  rfl

theorem persistAll_persistAll (c : Catalog) (es later : List Entry) :
    (c.persistAll es).persistAll later = c.persistAll (es ++ later) :=
  List.foldl_append.symm

/-- The catalog works, and under the ids it has the entries of the list. -/
structure Records (c : Catalog) (es : List Entry) : Prop where
  works : c.store.outage = {}
  get : ∀ id, c.store.values[entryKey id]? = (Entry.withId? es id).map Entry.toBytes

def Reverses (c : Catalog) (es : List Entry) : Prop :=
  ∀ path, c.store.values[pathKey path]? =
    (Entry.atPath? es path).map fun e => Bytes.ofText (toString e.id.toNat)

variable {c : Catalog} {es : List Entry}

/-- A catalog that works records an entry under its id and its id under its path. -/
theorem persist_eq (h : c.store.outage = {}) (e : Entry) :
    c.persist e = (⟨⟨(c.store.values.insert (entryKey e.id) e.toBytes).insert (pathKey e.path)
      (Bytes.ofText (toString e.id.toNat)), {}⟩⟩, .ok ()) := by
  simp [persist, writesOf, Store.setAll, Store.set, h]

theorem works_persistAll (h : c.store.outage = {}) (es : List Entry) :
    (c.persistAll es).store.outage = {} := by
  induction es using List.reverseRecOn with
  | nil => exact h
  | append_singleton es e ih => rw [persistAll_append, persist_eq ih]

theorem getElem?_insert {β : Type} (m : Std.TreeMap String β) (key k : String) (value : β) :
    (m.insert key value)[k]? = if key = k then some value else m[k]? := by
  rw [Std.TreeMap.getElem?_insert]
  by_cases hk : key = k
  · rw [if_pos (Std.compare_eq_iff_eq.mpr hk), if_pos hk]
  · rw [if_neg fun h => hk (Std.compare_eq_iff_eq.mp h), if_neg hk]

/-- Under an id is the last entry recorded with it, or else what was there before. -/
theorem getElem?_entryKey_persistAll (h : c.store.outage = {}) (es : List Entry) (id : FileId) :
    (c.persistAll es).store.values[entryKey id]? =
      ((Entry.withId? (Entry.latest es) id).map Entry.toBytes).or c.store.values[entryKey id]? := by
  induction es using List.reverseRecOn with
  | nil => rfl
  | append_singleton es e ih =>
    rw [persistAll_append, persist_eq (works_persistAll h es), getElem?_insert,
      if_neg (entryKey_ne_pathKey id e.path).symm, getElem?_insert, ih, Entry.withId?_latest_append]
    by_cases he : e.id = id
    · rw [if_pos (congrArg entryKey he), if_pos he, Option.map_some, Option.some_or]
    · rw [if_neg fun h => he (entryKey_inj h), if_neg he]

/-- Under a path is the id of the last entry recorded at it. -/
theorem getElem?_pathKey_persistAll (h : c.store.outage = {}) (es : List Entry) (path : String) :
    (c.persistAll es).store.values[pathKey path]? =
      ((Entry.atPath? (Entry.lastBy Entry.path es) path).map fun e =>
        Bytes.ofText (toString e.id.toNat)).or c.store.values[pathKey path]? := by
  induction es using List.reverseRecOn with
  | nil => rfl
  | append_singleton es e ih =>
    rw [persistAll_append, persist_eq (works_persistAll h es), getElem?_insert, getElem?_insert,
      if_neg (entryKey_ne_pathKey e.id path), ih, Entry.atPath?_lastBy_append]
    by_cases he : e.path = path
    · rw [if_pos (congrArg pathKey he), if_pos he, Option.map_some, Option.some_or]
    · rw [if_neg fun h => he (pathKey_inj h), if_neg he]

theorem records_persistAll (es : List Entry) : (empty.persistAll es).Records (Entry.latest es) where
  works := works_persistAll rfl es
  get id := by
    rw [getElem?_entryKey_persistAll rfl]
    exact Option.or_none

theorem reverses_persistAll (es : List Entry) :
    (empty.persistAll es).Reverses (Entry.lastBy Entry.path es) := fun path => by
  rw [getElem?_pathKey_persistAll rfl]
  exact Option.or_none

theorem Records.load (h : Records c es) (id : FileId) : c.load id = .ok (Entry.withId? es id) := by
  have hget : c.store.get (entryKey id) = .ok ((Entry.withId? es id).map Entry.toBytes) := by
    rw [Store.get, h.works, h.get id]
    rfl
  simp only [Catalog.load, hget, bind, Except.bind]
  cases Entry.withId? es id with
  | none => rfl
  | some e => simp only [Option.map_some, Entry.ofBytes?_toBytes]

theorem idOfBytes?_ofText (id : FileId) :
    idOfBytes? (Bytes.ofText (toString id.toNat)) = some id := by
  have hblank : ∀ c ∈ Nat.toDigits 10 id.toNat, isBlank c = false := fun c hc =>
    isBlank_of_isDigit (Numeral.toDigits_isDigit hc)
  rw [idOfBytes?, Bytes.text?_ofText, Option.bind_some, Nat.toString_eq_repr, Nat.toList_repr,
    trimChars_of_forall hblank, Numeral.unsigned?_toDigits]

/-- The id under a path is read as a number again. -/
theorem Reverses.idByPath (h : Reverses c es) (hworks : c.store.outage = {}) (path : String) :
    c.idByPath path = .ok ((Entry.atPath? es path).map Entry.id) := by
  have hget : c.store.get (pathKey path) =
      .ok ((Entry.atPath? es path).map fun e => Bytes.ofText (toString e.id.toNat)) := by
    rw [Store.get, hworks, h path]
    rfl
  simp only [Catalog.idByPath, hget, bind, Except.bind]
  cases Entry.atPath? es path with
  | none => rfl
  | some e =>
    simp only [Option.map_some, idOfBytes?_ofText]

theorem exists_idByPath_persistAll {e : Entry} (he : e ∈ es) :
    ∃ id, (empty.persistAll es).idByPath e.path = .ok (some id) := by
  obtain ⟨o, ho, hpath⟩ := Entry.exists_mem_lastBy Entry.path he
  have hsome : (Entry.atPath? (Entry.lastBy Entry.path es) e.path).isSome :=
    List.find?_isSome.mpr ⟨o, ho, decide_eq_true hpath⟩
  obtain ⟨found, hfound⟩ := Option.isSome_iff_exists.mp hsome
  refine ⟨found.id, ?_⟩
  rw [(reverses_persistAll es).idByPath (works_persistAll rfl es), hfound, Option.map_some]

theorem Records.congr {es' : List Entry} (h : Records c es) (hids : Entry.DistinctIds es)
    (hids' : Entry.DistinctIds es') (hmem : ∀ e, e ∈ es' ↔ e ∈ es) : Records c es' where
  works := h.works
  get id := by rw [h.get, Entry.withId?_congr hids' hids hmem]

/-- Nothing but the key of an id starts as those do. -/
def KeyedById (c : Catalog) : Prop :=
  ∀ key bytes, c.store.values[key]? = some bytes → entryStem.toList.isPrefixOf key.toList = true →
    ∃ id, key = entryKey id

theorem isPrefixOf_entryKey (id : FileId) : entryStem.toList.isPrefixOf (entryKey id).toList = true := by
  rw [entryKey, String.toList_append]
  exact List.isPrefixOf_iff_prefix.mpr (List.prefix_append _ _)

theorem not_isPrefixOf_pathKey (path : String) :
    entryStem.toList.isPrefixOf (pathKey path).toList = false := by
  have hpath : "p:".toList = ['p', ':'] := rfl
  rw [pathKey, String.toList_append, hpath]
  rfl

theorem keyedById_persistAll (es : List Entry) : (empty.persistAll es).KeyedById := by
  induction es using List.reverseRecOn with
  | nil =>
    intro key bytes h
    exact absurd h (by simp [persistAll, empty, Store.empty])
  | append_singleton es e ih =>
    intro key bytes h hstem
    rw [persistAll_append, persist_eq (works_persistAll rfl es), getElem?_insert, getElem?_insert] at h
    split at h
    · next hkey =>
      rw [← hkey, not_isPrefixOf_pathKey] at hstem
      cases hstem
    · split at h
      · next hkey => exact ⟨e.id, hkey.symm⟩
      · exact ih key bytes h hstem

/-- A value whose key starts as those of ids do holds the entry with that id. -/
private theorem Records.entry_of_stem (h : Records c es) (hkeys : c.KeyedById)
    (hids : Entry.DistinctIds es) {pair : String × Bytes} (hpair : pair ∈ c.store.values.toList)
    (hstem : entryStem.toList.isPrefixOf pair.1.toList = true) :
    ∃ e ∈ es, pair.1 = entryKey e.id ∧ Entry.ofBytes? pair.2 = some e := by
  have hvalue := Std.TreeMap.mem_toList_iff_getElem?_eq_some.mp hpair
  obtain ⟨id, hid⟩ := hkeys _ _ hvalue hstem
  rw [hid, h.get id, Option.map_eq_some_iff] at hvalue
  obtain ⟨e, he, hbytes⟩ := hvalue
  obtain ⟨hes, rfl⟩ := (Entry.withId?_eq_some hids).mp he
  refine ⟨e, hes, hid, ?_⟩
  rw [← hbytes, Entry.ofBytes?_toBytes]

/-- Going through the catalog, every entry is met, in the order of the keys. -/
theorem Records.entries_in_order (h : Records c es) (hkeys : c.KeyedById) (hids : Entry.DistinctIds es) :
    ∃ met, c.entries = .ok met ∧ (met.map fun e => entryKey e.id).Pairwise (· < ·) ∧
      ∀ e, e ∈ met ↔ e ∈ es := by
  let kept := c.store.values.toList.filter fun pair => entryStem.toList.isPrefixOf pair.1.toList
  let read (pair : String × Bytes) : Option Entry := Entry.ofBytes? pair.2
  have hread {pair : String × Bytes} (hpair : pair ∈ kept) :
      ∃ e ∈ es, pair.1 = entryKey e.id ∧ read pair = some e := by
    obtain ⟨hlist, hstem⟩ := List.mem_filter.mp hpair
    exact h.entry_of_stem hkeys hids hlist hstem
  refine ⟨kept.filterMap read, ?_, ?_, fun e => ?_⟩
  · rw [Catalog.entries, Store.withStem, h.works]
    rfl
  · -- the keys of the store are in order, and each is that of the entry under it
    have hordered : c.store.values.toList.Pairwise fun a b => compare a.1 b.1 = .lt :=
      Std.TreeMap.ordered_keys_toList
    rw [List.pairwise_map, List.pairwise_filterMap]
    refine (hordered.filter _).imp_of_mem ?_
    intro a b ha hb hlt e he o ho
    obtain ⟨x, -, hax, hx⟩ := hread ha
    obtain ⟨y, -, hby, hy⟩ := hread hb
    obtain rfl := Option.some.inj (he.symm.trans hx)
    obtain rfl := Option.some.inj (ho.symm.trans hy)
    rw [← hax, ← hby]
    exact compareOfLessAndEq_eq_lt.mp hlt
  · rw [List.mem_filterMap]
    constructor
    · rintro ⟨pair, hpair, he⟩
      obtain ⟨o, ho, -, hfound⟩ := hread hpair
      obtain rfl := Option.some.inj (he.symm.trans hfound)
      exact ho
    · intro he
      have hvalue : c.store.values[entryKey e.id]? = some e.toBytes := by
        rw [h.get, (Entry.withId?_eq_some hids).mpr ⟨he, rfl⟩, Option.map_some]
      exact ⟨(entryKey e.id, e.toBytes), List.mem_filter.mpr
        ⟨Std.TreeMap.mem_toList_iff_getElem?_eq_some.mpr hvalue, isPrefixOf_entryKey e.id⟩,
        Entry.ofBytes?_toBytes e⟩

/-- So each id is met once. -/
theorem Records.entries (h : Records c es) (hkeys : c.KeyedById) (hids : Entry.DistinctIds es) :
    ∃ met, c.entries = .ok met ∧ Entry.DistinctIds met ∧ ∀ e, e ∈ met ↔ e ∈ es := by
  obtain ⟨met, hmet, hordered, hmem⟩ := h.entries_in_order hkeys hids
  refine ⟨met, hmet, List.pairwise_map.mpr ((List.pairwise_map.mp hordered).imp ?_), hmem⟩
  intro a b hlt hid
  rw [hid] at hlt
  exact Std.lt_irrefl hlt

/-- What the store is asked of an id is the last entry with the id, of a path the id of the last entry at the
path, and of everything the last entries of all ids, each once and in the order of the bytes of the keys. No
entry is refused, whatever was recorded before it. -/
theorem persistAll_refines (history : List Entry) :
    (∀ e, ((empty.persistAll history).persist e).2 = .ok ()) ∧
    (∀ id, (empty.persistAll history).load id = .ok (history.reverse.find? fun e => e.id = id)) ∧
    (∀ path, (empty.persistAll history).idByPath path =
      .ok ((history.reverse.find? fun e => e.path = path).map Entry.id)) ∧
    ∃ met, (empty.persistAll history).entries = .ok met ∧
      (met.map fun e => Bytes.ofText (entryKey e.id)).Pairwise (· < ·) ∧
      ∀ e, e ∈ met ↔ history.reverse.find? (fun o => o.id = e.id) = some e := by
  have hworks := works_persistAll (c := empty) rfl history
  have hrecords := records_persistAll history
  have hids := Entry.distinctIds_latest history
  have hlast (id : FileId) :
      Entry.withId? (Entry.latest history) id = history.reverse.find? fun e => e.id = id :=
    Entry.find?_lastBy Entry.id history id
  have hlastAt (path : String) : Entry.atPath? (Entry.lastBy Entry.path history) path =
      history.reverse.find? fun e => e.path = path :=
    Entry.find?_lastBy Entry.path history path
  refine ⟨fun e => ?_, fun id => ?_, fun path => ?_, ?_⟩
  · rw [persist_eq hworks]
  · rw [hrecords.load, hlast]
  · rw [(reverses_persistAll history).idByPath hworks, hlastAt]
  · obtain ⟨met, hmet, hordered, hmem⟩ := hrecords.entries_in_order (keyedById_persistAll history) hids
    refine ⟨met, hmet, ?_, fun e => ?_⟩
    · rw [List.pairwise_map] at hordered ⊢
      exact hordered.imp Bytes.ofText_lt
    · rw [hmem, ← hlast, Entry.withId?_eq_some hids, and_iff_left rfl]

end Catalog

end VolumeSearch
