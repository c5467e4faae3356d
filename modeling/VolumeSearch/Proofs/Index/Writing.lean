import Mathlib.Logic.Function.Basic
import Mathlib.Tactic.Common
import VolumeSearch.Proofs.Index.Files

/-! Writing a family into a directory, up to any of the three renames. A directory is seen as what it
shows under each name, and every step changes that at its own names only. -/
namespace VolumeSearch

namespace IndexDir

/-- The directory is there, and has `shown` under each name. -/
def Shows (d : IndexDir) (shown : String → Option IndexItem) : Prop :=
  ∃ named, d = files named ∧ ∀ n, named[n]? = shown n

variable {d : IndexDir} {shown : String → Option IndexItem}

theorem Shows.item? (h : d.Shows shown) (n : String) : d.item? n = shown n := by
  obtain ⟨named, rfl, hnamed⟩ := h
  exact hnamed n

theorem shows_insert {named : Std.TreeMap String IndexItem}
    (hnamed : ∀ n, named[n]? = shown n) (name : String) (item : IndexItem) :
    Shows (files (named.insert name item)) (Function.update shown name (some item)) := by
  refine ⟨_, rfl, fun n => ?_⟩
  rw [Std.TreeMap.getElem?_insert, hnamed n]
  by_cases hn : n = name
  · rw [if_pos (Std.compare_eq_iff_eq.mpr hn.symm), hn, Function.update_self]
  · rw [if_neg fun h => hn (Std.compare_eq_iff_eq.mp h).symm, Function.update_of_ne hn]

theorem shows_erase {named : Std.TreeMap String IndexItem}
    (hnamed : ∀ n, named[n]? = shown n) (name n : String) :
    (named.erase name)[n]? = Function.update shown name none n := by
  rw [Std.TreeMap.getElem?_erase, hnamed n]
  by_cases hn : n = name
  · rw [if_pos (Std.compare_eq_iff_eq.mpr hn.symm), hn, Function.update_self]
  · rw [if_neg fun h => hn (Std.compare_eq_iff_eq.mp h).symm, Function.update_of_ne hn]

def FreeIn (shown : String → Option IndexItem) (name : String) : Prop :=
  ∀ size, shown name ≠ some (.other size)

theorem FreeIn.update {name n : String} (h : FreeIn shown n) (c : Contents) :
    FreeIn (Function.update shown name (some (.file c))) n := by
  intro size
  by_cases hn : n = name
  · subst hn
    simp
  · rw [Function.update_of_ne hn]
    exact h size

end IndexDir

namespace Index
open IndexDir (Shows FreeIn)

/-- The steps all succeed and lead to a directory that shows this. -/
def Leads (d : IndexDir) (steps : List FileStep) (shown : String → Option IndexItem) : Prop :=
  ∃ d', performAll d steps = (d', .ok ()) ∧ d'.Shows shown

variable {d : IndexDir} {steps : List FileStep} {shown : String → Option IndexItem}

private theorem Leads.step (h : Leads d steps shown) {step : FileStep}
    {next : String → Option IndexItem}
    (hstep : ∀ e : IndexDir, e.Shows shown → ∃ e', e.after step = .ok e' ∧ e'.Shows next) :
    Leads d (steps ++ [step]) next := by
  obtain ⟨e, hsteps, he⟩ := h
  obtain ⟨e', hafter, he'⟩ := hstep e he
  refine ⟨e', ?_, he'⟩
  simp only [performAll_append, hsteps, performAll, Shelf.perform, hafter]

theorem leads_makeDir (hd : d ≠ .blocked) : Leads d [.makeDir] d.item? := by
  cases d with
  | absent =>
    refine ⟨.files ∅, rfl, ∅, rfl, fun n => ?_⟩
    rw [Std.TreeMap.getElem?_emptyc]
    rfl
  | blocked => exact absurd rfl hd
  | files named => exact ⟨.files named, rfl, named, rfl, fun n => rfl⟩

theorem Leads.create (h : Leads d steps shown) {name : String} (hfree : FreeIn shown name) :
    Leads d (steps ++ [.create name]) (Function.update shown name (some (.file .empty))) := by
  refine h.step fun e he => ?_
  obtain ⟨named, rfl, hnamed⟩ := he
  refine ⟨.files (named.insert name (.file .empty)), ?_, IndexDir.shows_insert hnamed name _⟩
  have hitem : IndexDir.item? (.files named) name = shown name := hnamed name
  cases hs : shown name with
  | none => simp only [IndexDir.after, IndexDir.write, hitem, hs]
  | some item =>
    cases item with
    | file c => simp only [IndexDir.after, IndexDir.write, hitem, hs]
    | other size => exact absurd hs (hfree size)

theorem Leads.fill (h : Leads d steps shown) {name : String} (data : Bytes)
    (hempty : shown name = some (.file .empty)) :
    Leads d (steps ++ [.fill name data]) (Function.update shown name (some (.file (.ofBytes data)))) := by
  refine h.step fun e he => ?_
  obtain ⟨named, rfl, hnamed⟩ := he
  refine ⟨.files (named.insert name (.file (.ofBytes data))), ?_, IndexDir.shows_insert hnamed name _⟩
  have hitem : IndexDir.item? (.files named) name = some (.file .empty) := (hnamed name).trans hempty
  simp only [IndexDir.after, IndexDir.write, hitem, Contents.overwrite_empty]

theorem Leads.rename (h : Leads d steps shown) {name target : String} {item : IndexItem}
    (hname : shown name = some item) (hfree : FreeIn shown target) :
    Leads d (steps ++ [.rename name target])
      (Function.update (Function.update shown name none) target (some item)) := by
  refine h.step fun e he => ?_
  obtain ⟨named, rfl, hnamed⟩ := he
  refine ⟨.files ((named.erase name).insert target item), ?_,
    IndexDir.shows_insert (IndexDir.shows_erase hnamed name) target item⟩
  have hitem : IndexDir.item? (.files named) name = some item := (hnamed name).trans hname
  have htarget : IndexDir.item? (.files named) target = shown target := hnamed target
  cases hs : shown target with
  | none => simp only [IndexDir.after, IndexDir.rename, hitem, htarget, hs]
  | some old =>
    cases old with
    | file c => simp only [IndexDir.after, IndexDir.rename, hitem, htarget, hs]
    | other size => exact absurd hs (hfree size)

def ownNames (f : Family) : List String := f.files ++ f.files.map unfinished

theorem ownNames_nodup (f : Family) : (ownNames f).Nodup := by
  cases f <;> decide

theorem ownNames_disjoint {f g : Family} (h : f ≠ g) : ∀ n ∈ ownNames f, n ∉ ownNames g := by
  revert h
  cases f <;> cases g <;> decide

theorem unfinished_injective : Function.Injective unfinished := by
  intro a b h
  have hlist := congrArg String.toList h
  rw [unfinished, unfinished, String.toList_append, String.toList_append] at hlist
  exact String.toList_inj.mp (List.append_cancel_right hlist)

def placed (f : Family) (files : FamilyFiles) : List (String × Bytes) :=
  [(f.postingsFile, files.postings), (f.offsetsFile, files.offsets), (f.dictFile, files.dict)]

variable {f : Family} {files : FamilyFiles}

private theorem fst_mem_files {p : String × Bytes} (hp : p ∈ placed f files) : p.1 ∈ f.files := by
  simp only [placed, List.mem_cons, List.not_mem_nil, or_false] at hp
  obtain rfl | rfl | rfl := hp <;> simp [Family.files]

private theorem placed_ne_unfinished {p q : String × Bytes} (hp : p ∈ placed f files)
    (hq : q ∈ placed f files) : p.1 ≠ unfinished q.1 := by
  have hdisjoint := (List.nodup_append.mp (ownNames_nodup f)).2.2
  exact hdisjoint p.1 (fst_mem_files hp) (unfinished q.1) (List.mem_map_of_mem (fst_mem_files hq))

private theorem placed_nodup (f : Family) (files : FamilyFiles) :
    ((placed f files).map (·.1)).Nodup := by
  have h : (swapOrder f).Nodup := by cases f <;> decide
  exact h

private theorem exists_placed {n : String} (hn : n ∈ ownNames f) (files : FamilyFiles) :
    ∃ p ∈ placed f files, n = p.1 ∨ n = unfinished p.1 := by
  simp only [ownNames, Family.files, List.map_cons, List.map_nil, List.mem_append, List.mem_cons,
    List.not_mem_nil, or_false] at hn
  simp only [placed, List.mem_cons, List.not_mem_nil, or_false, exists_eq_or_imp, exists_eq_left]
  tauto

/-- The files of a family can be written into the directory: nothing stands in its place, and nothing
but a file has a name of the family. -/
structure Ready (d : IndexDir) (f : Family) : Prop where
  notBlocked : d ≠ .blocked
  free : ∀ n ∈ ownNames f, FreeIn d.item? n

/-- Only what the own names of the family show matters, once the directory can be there. -/
theorem Ready.congr {d' : IndexDir} (h : Ready d f) (hd' : d' ≠ .blocked)
    (hsame : ∀ n ∈ ownNames f, d'.item? n = d.item? n) : Ready d' f where
  notBlocked := hd'
  free := fun n hn size => by
    rw [hsame n hn]
    exact h.free n hn size

theorem ready_absent (f : Family) : Ready .absent f where
  notBlocked := fun h => by cases h
  free := fun n _ size h => by cases h

private theorem leads_beside (hd : d ≠ .blocked) {p o t : String} (hpo : p ≠ o) (hpt : p ≠ t)
    (hot : o ≠ t) (hp : FreeIn d.item? p) (ho : FreeIn d.item? o) (ht : FreeIn d.item? t)
    (a b c : Bytes) :
    ∃ shown, Leads d [.makeDir, .create p, .create o, .fill p a, .fill o b, .create t, .fill t c] shown ∧
      shown p = some (.file (.ofBytes a)) ∧ shown o = some (.file (.ofBytes b)) ∧
      shown t = some (.file (.ofBytes c)) ∧ ∀ n, n ≠ p → n ≠ o → n ≠ t → shown n = d.item? n := by
  have hbegun := ((leads_makeDir hd).create hp).create (ho.update .empty)
  have hfirst := hbegun.fill a (by rw [Function.update_of_ne hpo, Function.update_self])
  have hsecond := hfirst.fill b (by rw [Function.update_of_ne hpo.symm, Function.update_self])
  have hthird := hsecond.create ((((ht.update .empty).update .empty).update _).update _)
  have hall := hthird.fill c (Function.update_self ..)
  refine ⟨_, hall, ?_, ?_, Function.update_self .., ?_⟩
  · simp [Function.update_of_ne hpo, Function.update_of_ne hpt]
  · simp [Function.update_of_ne hot]
  · intro n hnp hno hnt
    simp only [Function.update_of_ne hnp, Function.update_of_ne hno, Function.update_of_ne hnt]

private theorem leads_staged (h : Ready d f) (files : FamilyFiles) :
    ∃ shown, Leads d (openingSteps f ++ stagingSteps f files) shown ∧
      (∀ p ∈ placed f files, shown (unfinished p.1) = some (.file (.ofBytes p.2))) ∧
      ∀ n, n ∉ f.files.map unfinished → shown n = d.item? n := by
  have hfree : ∀ n ∈ f.files, FreeIn d.item? (unfinished n) := fun n hn =>
    h.free _ (List.mem_append_right _ (List.mem_map_of_mem hn))
  have hpo : unfinished f.postingsFile ≠ unfinished f.offsetsFile := by
    cases f <;> decide
  have hpd : unfinished f.postingsFile ≠ unfinished f.dictFile := by
    cases f <;> decide
  have hod : unfinished f.offsetsFile ≠ unfinished f.dictFile := by
    cases f <;> decide
  obtain ⟨shown, hleads, hpostings, hoffsets, hdict, hothers⟩ := leads_beside h.notBlocked hpo hpd hod
    (hfree _ (by simp [Family.files])) (hfree _ (by simp [Family.files]))
    (hfree _ (by simp [Family.files])) files.postings files.offsets files.dict
  refine ⟨shown, hleads, ?_, ?_⟩
  · intro p hp
    simp only [placed, List.mem_cons, List.not_mem_nil, or_false] at hp
    obtain rfl | rfl | rfl := hp
    · exact hpostings
    · exact hoffsets
    · exact hdict
  · intro n hn
    simp only [Family.files, List.map_cons, List.map_nil, List.mem_cons, List.not_mem_nil, or_false,
      not_or] at hn
    exact hothers n hn.2.1 hn.2.2 hn.1

theorem Leads.renames (h : Leads d steps shown) (ps : List (String × Bytes))
    (hnodup : (ps.map (·.1)).Nodup) (hside : ∀ p ∈ ps, ∀ q ∈ ps, p.1 ≠ unfinished q.1)
    (hstaged : ∀ p ∈ ps, shown (unfinished p.1) = some (.file (.ofBytes p.2)))
    (hfree : ∀ p ∈ ps, FreeIn shown p.1) :
    ∃ next, Leads d (steps ++ ps.map fun p => .rename (unfinished p.1) p.1) next ∧
      (∀ p ∈ ps, next p.1 = some (.file (.ofBytes p.2)) ∧ next (unfinished p.1) = none) ∧
      ∀ n, (∀ p ∈ ps, n ≠ p.1 ∧ n ≠ unfinished p.1) → next n = shown n := by
  -- a rename touches the two names of its own pair, so the pairs still to come stay staged and free
  induction ps generalizing steps shown with
  | nil => exact ⟨shown, by simpa using h, by simp, fun n _ => rfl⟩
  | cons p rest ih =>
    obtain ⟨hp, hrest⟩ := List.nodup_cons.mp hnodup
    have hmoved := h.rename (hstaged p (by simp)) (hfree p (by simp))
    have hne {q : String × Bytes} (hq : q ∈ rest) : q.1 ≠ p.1 := fun he =>
      hp (List.mem_map.mpr ⟨q, hq, he⟩)
    have hothers (n : String) (h1 : n ≠ p.1) (h2 : n ≠ unfinished p.1) :
        Function.update (Function.update shown (unfinished p.1) none) p.1
          (some (.file (.ofBytes p.2))) n = shown n := by
      rw [Function.update_of_ne h1, Function.update_of_ne h2]
    have hbeside {q : String × Bytes} (hq : q ∈ rest) :
        unfinished q.1 ≠ p.1 ∧ unfinished q.1 ≠ unfinished p.1 :=
      ⟨(hside p (by simp) q (by simp [hq])).symm, fun he => hne hq (unfinished_injective he)⟩
    obtain ⟨next, hnext, hplaced, hkept⟩ := ih hmoved hrest
      (fun a ha b hb => hside a (by simp [ha]) b (by simp [hb]))
      (fun q hq => by rw [hothers _ (hbeside hq).1 (hbeside hq).2]; exact hstaged q (by simp [hq]))
      (fun q hq size => by
        rw [hothers _ (hne hq) (hside q (by simp [hq]) p (by simp))]
        exact hfree q (by simp [hq]) size)
    have hown : ∀ q ∈ rest, p.1 ≠ q.1 ∧ p.1 ≠ unfinished q.1 := fun q hq =>
      ⟨(hne hq).symm, hside p (by simp) q (by simp [hq])⟩
    have hbegun : ∀ q ∈ rest, unfinished p.1 ≠ q.1 ∧ unfinished p.1 ≠ unfinished q.1 := fun q hq =>
      ⟨(hside q (by simp [hq]) p (by simp)).symm, (hbeside hq).2.symm⟩
    refine ⟨next, by simpa using hnext, ?_, ?_⟩
    · intro q hq
      rcases List.mem_cons.mp hq with rfl | hq
      · rw [hkept _ hown, hkept _ hbegun, Function.update_self,
          Function.update_of_ne (hside q (by simp) q (by simp)).symm, Function.update_self]
        exact ⟨rfl, rfl⟩
      · exact hplaced q hq
    · intro n hn
      rw [hkept n fun q hq => hn q (by simp [hq]), hothers n (hn p (by simp)).1 (hn p (by simp)).2]

/-- The directory once the files of a family are staged and `k` of them moved into place. -/
theorem leads_swapped (h : Ready d f) (files : FamilyFiles) (k : Nat) :
    ∃ shown, Leads d (openingSteps f ++ stagingSteps f files ++ (swapSteps f).take k) shown ∧
      (∀ p ∈ (placed f files).take k,
        shown p.1 = some (.file (.ofBytes p.2)) ∧ shown (unfinished p.1) = none) ∧
      (∀ n ∈ (swapOrder f).drop k, shown n = d.item? n) ∧
      ∀ n, n ∉ ownNames f → shown n = d.item? n := by
  obtain ⟨staged, hleads, hstaged, hkept⟩ := leads_staged h files
  have hinplace {p : String × Bytes} (hp : p ∈ placed f files) : staged p.1 = d.item? p.1 := by
    refine hkept p.1 fun hmem => ?_
    obtain ⟨n, hn, he⟩ := List.mem_map.mp hmem
    exact (List.nodup_append.mp (ownNames_nodup f)).2.2 p.1 (fst_mem_files hp) _
      (List.mem_map_of_mem hn) he.symm
  have htake {p : String × Bytes} (hp : p ∈ (placed f files).take k) : p ∈ placed f files :=
    List.mem_of_mem_take hp
  obtain ⟨shown, hshown, hplaced, hothers⟩ := hleads.renames ((placed f files).take k)
    ((placed_nodup f files).sublist ((List.take_sublist k _).map _))
    (fun p hp q hq => placed_ne_unfinished (htake hp) (htake hq))
    (fun p hp => hstaged p (htake hp))
    (fun p hp size => by
      rw [hinplace (htake hp)]
      exact h.free _ (List.mem_append_left _ (fst_mem_files (htake hp))) size)
  have hsteps : (swapSteps f).take k =
      ((placed f files).take k).map fun p => .rename (unfinished p.1) p.1 := by
    rw [List.map_take]
    rfl
  refine ⟨shown, hsteps ▸ hshown, hplaced, ?_, ?_⟩
  · intro n hn
    have horder : swapOrder f = (placed f files).map (·.1) := rfl
    rw [horder, ← List.map_drop] at hn
    obtain ⟨p, hp, rfl⟩ := List.mem_map.mp hn
    -- a file that is not moved yet is none of those before it in the order
    have hapart : ∀ q ∈ (placed f files).take k, p.1 ≠ q.1 := by
      have hnodup := placed_nodup f files
      rw [← List.take_append_drop k (placed f files), List.map_append, List.nodup_append] at hnodup
      exact fun q hq he =>
        hnodup.2.2 q.1 (List.mem_map_of_mem hq) p.1 (List.mem_map_of_mem hp) he.symm
    have hmem : p ∈ placed f files := List.mem_of_mem_drop hp
    rw [hothers _ fun q hq => ⟨hapart q hq, placed_ne_unfinished hmem (htake hq)⟩]
    exact hinplace hmem
  · intro n hn
    rw [ownNames, List.mem_append, not_or] at hn
    rw [hothers n fun p hp => ⟨fun he => hn.1 (he ▸ fst_mem_files (htake hp)),
      fun he => hn.2 (he ▸ List.mem_map_of_mem (fst_mem_files (htake hp)))⟩]
    exact hkept n hn.2

/-- A family is staged and the first `k` of its files are moved into place. -/
def writeUpTo (d : IndexDir) (f : Family) (m : TermMap) (k : Nat) : IndexDir × Except Fault Unit :=
  performAll d (openingSteps f ++ stagingSteps f (filesOf m) ++ (swapSteps f).take k)

variable {m : TermMap}

/-- A map that fits is written by moving all three files. -/
theorem writeFamily_eq_writeUpTo (hfits : Fits m) (d : IndexDir) (f : Family) :
    writeFamily d f m = ((writeUpTo d f m 3).1, (writeUpTo d f m 3).2.map fun _ => m.size) := by
  have hall : (swapSteps f).take 3 = swapSteps f := rfl
  rw [writeUpTo, hall, List.append_assoc, performAll_append, writeFamily]
  cases hopen : performAll d (openingSteps f) with
  | mk e r =>
    cases r with
    | error fault => rfl
    | ok u => simp only [familyFiles_of_fits f hfits]

/-- A map that fits is written into a directory that is ready: its files are there, no other name
has changed, and the number of terms is given back. -/
theorem writeFamily_of_fits (hfits : Fits m) (h : Ready d f) :
    ∃ d', writeFamily d f m = (d', .ok m.size) ∧ Holds d' f (filesOf m) ∧ Ready d' f ∧
      ∀ n, n ∉ ownNames f → d'.item? n = d.item? n := by
  obtain ⟨shown, ⟨d', hsteps, hd'⟩, hplaced, -, hothers⟩ := leads_swapped h (filesOf m) 3
  have hread {p : String × Bytes} (hp : p ∈ placed f (filesOf m)) :
      d'.read p.1 = .ok (.ofBytes p.2) := by
    rw [IndexDir.read, hd'.item?, (hplaced p hp).1]
  have hfree : ∀ n ∈ ownNames f, FreeIn shown n := by
    intro n hn size
    obtain ⟨p, hp, rfl | rfl⟩ := exists_placed hn (filesOf m)
    · simp [(hplaced p hp).1]
    · simp [(hplaced p hp).2]
  refine ⟨d', ?_, ⟨?_, ?_, ?_⟩, ⟨?_, ?_⟩, ?_⟩
  · rw [writeFamily_eq_writeUpTo hfits, writeUpTo, hsteps]
    rfl
  · exact hread (p := (f.dictFile, _)) (by simp [placed])
  · exact hread (p := (f.postingsFile, _)) (by simp [placed])
  · exact hread (p := (f.offsetsFile, _)) (by simp [placed])
  · obtain ⟨named, rfl, -⟩ := hd'
    exact fun he => by cases he
  · intro n hn size
    rw [hd'.item?]
    exact hfree n hn size
  · intro n hn
    rw [hd'.item?, hothers n hn]

end Index

end VolumeSearch
