import Mathlib.Data.List.Induction
import Mathlib.Tactic.Common
import VolumeSearch.Proofs.Entry.Order

namespace VolumeSearch.Entry
variable {κ : Type} [DecidableEq κ] (key : Entry → κ)

/-- The entries that no later one has the key of. -/
def lastBy : List Entry → List Entry
  | [] => []
  | e :: rest => if rest.any fun o => key o = key e then lastBy rest else e :: lastBy rest

def latest (es : List Entry) : List Entry := lastBy Entry.id es

/-- One more entry takes the place of the one with its key. -/
theorem lastBy_append (es : List Entry) (e : Entry) :
    lastBy key (es ++ [e]) = (lastBy key es).filter (fun o => key o ≠ key e) ++ [e] := by
  induction es with
  | nil => rfl
  | cons o rest ih =>
    have hany : ((rest ++ [e]).any fun x => key x = key o) =
        ((rest.any fun x => key x = key o) || decide (key e = key o)) := by simp
    rw [List.cons_append, lastBy, lastBy, hany, ih]
    by_cases hlater : (rest.any fun x => key x = key o) = true
    · rw [hlater, Bool.true_or, if_pos rfl, if_pos rfl]
    · rw [if_neg hlater, Bool.eq_false_iff.mpr hlater, Bool.false_or]
      by_cases he : key e = key o
      · rw [if_pos (decide_eq_true he), List.filter_cons_of_neg (by simp [he])]
      · rw [if_neg (by simpa using he), List.filter_cons_of_pos (by simpa using fun h => he h.symm),
          List.cons_append]

theorem lastBy_nodup (es : List Entry) : ((lastBy key es).map key).Nodup := by
  induction es using List.reverseRecOn with
  | nil => exact List.nodup_nil
  | append_singleton es e ih =>
    rw [lastBy_append, List.map_append, List.nodup_append]
    refine ⟨ih.sublist (List.filter_sublist.map key), by simp, ?_⟩
    intro a ha b hb
    obtain ⟨o, ho, rfl⟩ := List.mem_map.mp ha
    obtain rfl : b = key e := by simpa using hb
    simpa using (List.mem_filter.mp ho).2

theorem lastBy_of_nodup {es : List Entry} (h : (es.map key).Nodup) : lastBy key es = es := by
  induction es with
  | nil => rfl
  | cons e rest ih =>
    obtain ⟨he, hrest⟩ := List.nodup_cons.mp h
    have hlater : ¬ (rest.any fun o => key o = key e) = true := by
      rw [List.any_eq_true]
      rintro ⟨o, ho, hkey⟩
      exact he (List.mem_map.mpr ⟨o, ho, of_decide_eq_true hkey⟩)
    rw [lastBy, if_neg hlater, ih hrest]

theorem exists_mem_lastBy {es : List Entry} {o : Entry} (h : o ∈ es) :
    ∃ e ∈ lastBy key es, key e = key o := by
  induction es using List.reverseRecOn with
  | nil => exact absurd h List.not_mem_nil
  | append_singleton es e ih =>
    rw [lastBy_append]
    by_cases he : key e = key o
    · exact ⟨e, List.mem_append_right _ List.mem_cons_self, he⟩
    · have ho : o ∈ es := by
        rcases List.mem_append.mp h with ho | ho
        · exact ho
        · exact absurd (congrArg key (List.mem_singleton.mp ho)).symm he
      obtain ⟨x, hx, hxo⟩ := ih ho
      have hkept : key x ≠ key e := fun hxe => he (hxe.symm.trans hxo)
      exact ⟨x, List.mem_append_left _ (List.mem_filter.mpr ⟨hx, decide_eq_true hkept⟩), hxo⟩

/-- What is looked for by a key is the last entry, if that has the key, or what was there before. -/
theorem find?_lastBy_append (es : List Entry) (e : Entry) (k : κ) :
    (lastBy key (es ++ [e])).find? (fun o => key o = k) =
      if key e = k then some e else (lastBy key es).find? fun o => key o = k := by
  rw [lastBy_append, List.find?_append]
  by_cases he : key e = k
  · have hnone : ((lastBy key es).filter fun o => key o ≠ key e).find? (fun o => key o = k) = none := by
      rw [List.find?_eq_none]
      intro o ho
      have hne : key o ≠ key e := of_decide_eq_true (List.mem_filter.mp ho).2
      simpa using he ▸ hne
    rw [hnone, Option.none_or, if_pos he]
    simp [he]
  · have hsame : (fun o => decide (decide (key o ≠ key e) = true ∧ decide (key o = k) = true)) =
        fun o => decide (key o = k) := by
      funext o
      grind
    rw [List.find?_filter, hsame]
    simp [he]

/-- The entry that is left with a key is the first one with it from the end. -/
theorem find?_lastBy (es : List Entry) (k : κ) :
    (lastBy key es).find? (fun o => key o = k) = es.reverse.find? fun o => key o = k := by
  induction es using List.reverseRecOn with
  | nil => rfl
  | append_singleton es e ih =>
    rw [find?_lastBy_append, List.reverse_append, List.reverse_singleton, List.singleton_append,
      List.find?_cons, ih]
    by_cases he : key e = k <;> simp [he]

theorem find?_lastBy_of_mem (before : List Entry) {es : List Entry} (h : (es.map key).Nodup) {e : Entry}
    (he : e ∈ es) : (lastBy key (before ++ es)).find? (fun o => key o = key e) = some e := by
  induction es using List.reverseRecOn with
  | nil => exact absurd he List.not_mem_nil
  | append_singleton es last ih =>
    rw [List.map_append, List.nodup_append] at h
    obtain ⟨hes, -, hapart⟩ := h
    rw [← List.append_assoc, find?_lastBy_append]
    rcases List.mem_append.mp he with he | he
    · have hne : key last ≠ key e := (hapart _ (List.mem_map_of_mem he) _ (by simp)).symm
      rw [if_neg hne]
      exact ih hes he
    · rw [List.mem_singleton.mp he, if_pos rfl]

theorem withId?_latest_append (es : List Entry) (e : Entry) (id : FileId) :
    withId? (latest (es ++ [e])) id = if e.id = id then some e else withId? (latest es) id :=
  find?_lastBy_append Entry.id es e id

theorem atPath?_lastBy_append (es : List Entry) (e : Entry) (path : String) :
    atPath? (lastBy Entry.path (es ++ [e])) path =
      if e.path = path then some e else atPath? (lastBy Entry.path es) path :=
  find?_lastBy_append Entry.path es e path

theorem distinctIds_latest (es : List Entry) : DistinctIds (latest es) := lastBy_nodup Entry.id es

end VolumeSearch.Entry
