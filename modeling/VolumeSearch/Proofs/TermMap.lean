import Mathlib.Tactic.Common
import VolumeSearch.Terms

namespace VolumeSearch

namespace TermMap
variable {m other : TermMap} {term : String} {id : FileId}

@[simp] theorem get_empty (term : String) : empty.get term = [] := rfl

theorem get_addAll (m : TermMap) (term t : String) (ids : List FileId) :
    (m.addAll term ids).get t = if t = term then m.get t ++ ids else m.get t := by
  rw [addAll]
  by_cases hids : ids = []
  · subst hids
    simp
  · rw [if_neg (by simpa using hids)]
    by_cases ht : t = term
    · subst ht
      simp [get]
    · have hne : compare term t ≠ .eq := fun h => ht (Std.compare_eq_iff_eq.mp h).symm
      rw [if_neg ht, get, Std.TreeMap.getD_insert, if_neg hne, get]

theorem mem_get_addAll (t : String) (ids : List FileId) :
    id ∈ (m.addAll term ids).get t ↔ id ∈ m.get t ∨ t = term ∧ id ∈ ids := by
  rw [get_addAll]
  split
  · next h => simp [h]
  · next h => simp [h]

theorem mem_get_add (t : String) (i : FileId) :
    id ∈ (m.add term i).get t ↔ id ∈ m.get t ∨ t = term ∧ id = i := by
  rw [add, mem_get_addAll, List.mem_singleton]

private theorem mem_get_foldl_addAll (l : List (String × List FileId)) (t : String) :
    id ∈ (l.foldl (fun m (term, ids) => m.addAll term ids) m).get t ↔
      id ∈ m.get t ∨ ∃ ids, (t, ids) ∈ l ∧ id ∈ ids := by
  induction l generalizing m with
  | nil => simp
  | cons p rest ih =>
    obtain ⟨term, ids⟩ := p
    rw [List.foldl_cons, ih, mem_get_addAll]
    simp only [List.mem_cons, Prod.mk.injEq]
    grind

theorem mem_toList_iff (m : TermMap) (t : String) (ids : List FileId) :
    (t, ids) ∈ m.toList ↔ m.ids[t]? = some ids :=
  Std.TreeMap.mem_toList_iff_getElem?_eq_some

theorem get_eq (m : TermMap) (t : String) : m.get t = m.ids[t]?.getD [] :=
  Std.TreeMap.getD_eq_getD_getElem?

theorem mem_get_merge (t : String) : id ∈ (m.merge other).get t ↔ id ∈ m.get t ∨ id ∈ other.get t := by
  rw [merge, mem_get_foldl_addAll]
  simp only [mem_toList_iff, get_eq other]
  cases other.ids[t]? <;> simp

private theorem mem_get_foldl_add (terms : List String) (i : FileId) (t : String) :
    id ∈ (terms.foldl (fun m term => m.add term i) m).get t ↔ id ∈ m.get t ∨ id = i ∧ t ∈ terms := by
  induction terms generalizing m with
  | nil => simp
  | cons term rest ih =>
    rw [List.foldl_cons, ih, mem_get_add, List.mem_cons]
    grind

theorem mem_get_addEntry (f : Family) (e : Entry) (t : String) :
    id ∈ (m.addEntry f e).get t ↔ id ∈ m.get t ∨ id = e.id ∧ t ∈ f.terms e :=
  mem_get_foldl_add (f.terms e) e.id t

def terms (m : TermMap) : List String := m.toList.map (·.1)

@[simp] theorem length_terms (m : TermMap) : m.terms.length = m.size := by
  rw [terms, List.length_map]
  exact Std.TreeMap.length_toList

theorem terms_pairwise_lt (m : TermMap) : m.terms.Pairwise (· < ·) := by
  have hkeys : m.toList.Pairwise fun a b => compare a.1 b.1 = .lt := Std.TreeMap.ordered_keys_toList
  refine List.pairwise_map.mpr (hkeys.imp ?_)
  intro a b hab
  exact compareOfLessAndEq_eq_lt.mp hab

theorem terms_nodup (m : TermMap) : m.terms.Nodup := by
  refine m.terms_pairwise_lt.imp ?_
  intro a b hlt heq
  exact Std.lt_irrefl (heq ▸ hlt)

def Filled (m : TermMap) : Prop :=
  ∀ (t : String) (ids : List FileId), m.ids[t]? = some ids → ids ≠ []

theorem filled_empty : empty.Filled := by
  intro t ids h
  cases h

theorem Filled.addAll (h : m.Filled) (term : String) (ids : List FileId) :
    (m.addAll term ids).Filled := by
  rw [TermMap.addAll]
  split
  · exact h
  · next hids =>
    intro t found hfound
    rw [Std.TreeMap.getElem?_insert] at hfound
    split at hfound
    · rw [← Option.some.inj hfound]
      simpa using fun _ => hids
    · exact h t found hfound

theorem Filled.add (h : m.Filled) (term : String) (id : FileId) : (m.add term id).Filled :=
  h.addAll term [id]

theorem Filled.addEntry (h : m.Filled) (f : Family) (e : Entry) : (m.addEntry f e).Filled := by
  rw [TermMap.addEntry]
  induction f.terms e generalizing m with
  | nil => exact h
  | cons term rest ih => exact ih (h.add term e.id)

theorem Filled.merge (h : m.Filled) (other : TermMap) : (m.merge other).Filled := by
  rw [TermMap.merge]
  generalize other.toList = l
  induction l generalizing m with
  | nil => exact h
  | cons p rest ih => exact ih (h.addAll p.1 p.2)

theorem Filled.mem_terms_iff (h : m.Filled) (t : String) : t ∈ m.terms ↔ ∃ id, id ∈ m.get t := by
  rw [terms, List.mem_map]
  constructor
  · rintro ⟨⟨t, ids⟩, hmem, rfl⟩
    have hids := (mem_toList_iff m t ids).mp hmem
    obtain ⟨id, rest, rfl⟩ := List.exists_cons_of_ne_nil (h t ids hids)
    exact ⟨id, by simp [get_eq, hids]⟩
  · rintro ⟨id, hid⟩
    rw [get_eq] at hid
    cases hids : m.ids[t]? with
    | none => simp [hids] at hid
    | some ids => exact ⟨(t, ids), (mem_toList_iff m t ids).mpr hids, rfl⟩

end TermMap

/-- A way to gather ids under terms: one by one, and by merging what was gathered elsewhere. -/
inductive Gathering where
  | nothing
  | add (g : Gathering) (term : String) (id : FileId)
  | merge (g other : Gathering)

namespace Gathering

def map : Gathering → TermMap
  | nothing => .empty
  | add g term id => g.map.add term id
  | merge g other => g.map.merge other.map

/-- The id was added under the term, here or in something merged into this. -/
def Added (term : String) (id : FileId) : Gathering → Prop
  | nothing => False
  | add g t i => g.Added term id ∨ term = t ∧ id = i
  | merge g other => g.Added term id ∨ other.Added term id

theorem mem_get_map (g : Gathering) (term : String) (id : FileId) :
    id ∈ g.map.get term ↔ g.Added term id := by
  induction g with
  | nothing => simp [map, Added]
  | add g t i ih => rw [map, TermMap.mem_get_add, ih, Added]
  | merge g other ih ih' => rw [map, TermMap.mem_get_merge, ih, ih', Added]

/-- The same ids were added under each term, in whatever order, however often and by whatever mergers. -/
def Agrees (g g' : Gathering) : Prop := ∀ t id, g.Added t id ↔ g'.Added t id

theorem agrees_iff {g g' : Gathering} :
    g.Agrees g' ↔ ∀ t id, id ∈ g.map.get t ↔ id ∈ g'.map.get t := by
  simp only [mem_get_map, Agrees]

theorem filled_map (g : Gathering) : g.map.Filled := by
  induction g with
  | nothing => exact TermMap.filled_empty
  | add g t i ih => exact ih.add t i
  | merge g other ih _ => exact ih.merge other.map

end Gathering

end VolumeSearch
