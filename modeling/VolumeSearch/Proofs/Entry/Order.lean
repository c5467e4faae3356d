import Mathlib.Tactic.Common
import VolumeSearch.Entry
import VolumeSearch.Proofs.IdSet

/-! Entries in the order of their ids. With distinct ids a set of entries and the ascending list of its
ids say the same. -/
namespace VolumeSearch.Entry

def byId (es : List Entry) : List Entry := es.mergeSort fun a b => a.id ≤ b.id

def DistinctIds (es : List Entry) : Prop := (es.map Entry.id).Nodup

def DistinctPaths (es : List Entry) : Prop := (es.map Entry.path).Nodup

variable {es : List Entry}

@[simp] theorem mem_byId (e : Entry) : e ∈ byId es ↔ e ∈ es := List.mem_mergeSort

theorem eq_of_id_eq (h : DistinctIds es) {a b : Entry} (ha : a ∈ es) (hb : b ∈ es)
    (hid : a.id = b.id) : a = b :=
  List.inj_on_of_nodup_map h ha hb hid

theorem byId_pairwise_lt (h : DistinctIds es) : (byId es).Pairwise fun a b => a.id < b.id := by
  have htrans (a b c : Entry) (hab : decide (a.id ≤ b.id) = true) (hbc : decide (b.id ≤ c.id) = true) :
      decide (a.id ≤ c.id) = true :=
    decide_eq_true (UInt64.le_trans (of_decide_eq_true hab) (of_decide_eq_true hbc))
  have htotal (a b : Entry) : (decide (a.id ≤ b.id) || decide (b.id ≤ a.id)) = true := by
    simpa using UInt64.le_total a.id b.id
  have hsorted := List.pairwise_mergeSort htrans htotal es
  have hnodup : (byId es).Pairwise fun a b => a.id ≠ b.id :=
    List.pairwise_map.mp (((List.mergeSort_perm es _).map Entry.id).nodup_iff.mpr h)
  exact (hsorted.and hnodup).imp fun ⟨hle, hne⟩ =>
    Std.lt_of_le_of_ne (of_decide_eq_true hle) hne

theorem eq_of_mem_iff {xs ys : List Entry} (hx : xs.Pairwise fun a b => a.id < b.id)
    (hy : ys.Pairwise fun a b => a.id < b.id) (h : ∀ e, e ∈ xs ↔ e ∈ ys) : xs = ys :=
  have : Std.Antisymm fun a b : Entry => a.id < b.id :=
    ⟨fun _ _ hab hba => absurd hba (Std.not_gt_of_lt hab)⟩
  have : Std.Irrefl fun a b : Entry => a.id < b.id := ⟨fun _ => Std.lt_irrefl⟩
  hx.eq_of_mem_iff hy h

theorem byId_congr {es' : List Entry} (h : DistinctIds es) (h' : DistinctIds es')
    (hmem : ∀ e, e ∈ es ↔ e ∈ es') : byId es = byId es' :=
  eq_of_mem_iff (byId_pairwise_lt h) (byId_pairwise_lt h') fun e => by rw [mem_byId, mem_byId, hmem]

def idsWhere (es : List Entry) (p : Entry → Bool) : List FileId := ((byId es).filter p).map Entry.id

theorem mem_idsWhere (p : Entry → Bool) (id : FileId) :
    id ∈ idsWhere es p ↔ ∃ e ∈ es, p e = true ∧ e.id = id := by
  simp only [idsWhere, List.mem_map, List.mem_filter, mem_byId, and_assoc]

theorem id_mem_idsWhere (h : DistinctIds es) (p : Entry → Bool) {e : Entry} (he : e ∈ es) :
    e.id ∈ idsWhere es p ↔ p e = true := by
  rw [mem_idsWhere]
  constructor
  · rintro ⟨o, ho, hp, hid⟩
    exact eq_of_id_eq h ho he hid ▸ hp
  · intro hp
    exact ⟨e, he, hp, rfl⟩

theorem idsWhere_pairwise_lt (h : DistinctIds es) (p : Entry → Bool) :
    (idsWhere es p).Pairwise (· < ·) :=
  List.pairwise_map.mpr ((byId_pairwise_lt h).filter p)

/-- Ascending ids are those of the entries with a property when they have the same elements. -/
theorem eq_idsWhere (h : DistinctIds es) {ids : List FileId} (p : Entry → Bool)
    (hasc : ids.Pairwise (· < ·)) (hmem : ∀ id, id ∈ ids ↔ ∃ e ∈ es, p e = true ∧ e.id = id) :
    ids = idsWhere es p :=
  Ascending.eq_of_mem_iff hasc (idsWhere_pairwise_lt h p) fun id => by rw [hmem, mem_idsWhere]

def withId? (es : List Entry) (id : FileId) : Option Entry := es.find? fun e => e.id = id

def atPath? (es : List Entry) (path : String) : Option Entry := es.find? fun e => e.path = path

variable {κ : Type} [DecidableEq κ] (key : Entry → κ)

/-- With distinct keys, what is found under a key is the one entry that has it. -/
private theorem find?_eq_some_of_nodup (h : (es.map key).Nodup) {k : κ} {e : Entry} :
    es.find? (fun o => key o = k) = some e ↔ e ∈ es ∧ key e = k := by
  constructor
  · intro hfound
    exact ⟨List.mem_of_find?_eq_some hfound, by simpa using List.find?_some hfound⟩
  · rintro ⟨he, rfl⟩
    cases hfound : es.find? (fun o => key o = key e) with
    | none => simpa using List.find?_eq_none.mp hfound e he
    | some o =>
      have ho := List.mem_of_find?_eq_some hfound
      have hkey : key o = key e := by simpa using List.find?_some hfound
      rw [List.inj_on_of_nodup_map h ho he hkey]

theorem withId?_eq_some (h : DistinctIds es) {id : FileId} {e : Entry} :
    withId? es id = some e ↔ e ∈ es ∧ e.id = id :=
  find?_eq_some_of_nodup Entry.id h

theorem atPath?_eq_some (h : DistinctPaths es) {path : String} {e : Entry} :
    atPath? es path = some e ↔ e ∈ es ∧ e.path = path :=
  find?_eq_some_of_nodup Entry.path h

theorem withId?_congr {es' : List Entry} (h : DistinctIds es) (h' : DistinctIds es')
    (hmem : ∀ e, e ∈ es ↔ e ∈ es') (id : FileId) : withId? es id = withId? es' id :=
  Option.ext fun e => by rw [withId?_eq_some h, withId?_eq_some h', hmem]

/-- The entries of ascending ids are found in the order of the ids; ids without an entry are passed
over. -/
theorem filterMap_withId? (h : DistinctIds es) {ids : List FileId} (hasc : ids.Pairwise (· < ·)) :
    ids.filterMap (withId? es) = (byId es).filter fun e => ids.contains e.id := by
  have hleft : (ids.filterMap (withId? es)).Pairwise fun a b => a.id < b.id := by
    refine List.pairwise_filterMap.mpr (hasc.imp ?_)
    intro i j hij a ha b hb
    rw [((withId?_eq_some h).mp ha).2, ((withId?_eq_some h).mp hb).2]
    exact hij
  have hright := (byId_pairwise_lt h).filter fun e => ids.contains e.id
  refine eq_of_mem_iff hleft hright fun e => ?_
  simp only [List.mem_filterMap, withId?_eq_some h, List.mem_filter, mem_byId, List.contains_iff_mem]
  constructor
  · rintro ⟨id, hid, he, rfl⟩
    exact ⟨he, hid⟩
  · rintro ⟨he, hid⟩
    exact ⟨e.id, hid, he, rfl⟩

end VolumeSearch.Entry
