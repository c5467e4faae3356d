import Mathlib.Tactic.Common
import VolumeSearch.Proofs.Index.Canonical
import VolumeSearch.Proofs.Index.Writing

/-! Writing the same maps into two directories. Under each name of a family both then have the same, or
else each has what it had before; so writing the same maps again changes no file. This also holds where a
map does not fit its files and the writing ends there. -/
namespace VolumeSearch

namespace Index

/-- Both directories have the same under a name, or each has what it had. -/
def Alike (d d' e e' : IndexDir) (n : String) : Prop :=
  d'.item? n = e'.item? n ∨ d'.item? n = d.item? n ∧ e'.item? n = e.item? n

variable {d d' d'' e e' e'' : IndexDir} {f : Family} {m : TermMap} {n : String}

theorem Alike.trans (h : Alike d d' e e' n) (h' : Alike d' d'' e' e'' n) : Alike d d'' e e'' n := by
  rcases h' with hsame | ⟨hd, he⟩
  · exact .inl hsame
  · rw [Alike, hd, he]
    exact h

/-- A map that does not fit is found out before anything is moved into place. -/
theorem writeFamily_of_not_fits (hfits : ¬ Fits m) (h : Ready d f) :
    ∃ d' fault, writeFamily d f m = (d', .error fault) ∧ familyFiles f m = .error fault ∧ Ready d' f ∧
      ∀ n, n ∉ f.files.map unfinished → d'.item? n = d.item? n := by
  have hfree {k : String} (hk : k ∈ f.files) : IndexDir.FreeIn d.item? (unfinished k) :=
    h.free _ (List.mem_append_right _ (List.mem_map_of_mem hk))
  have hpostings : f.postingsFile ∈ f.files := by simp [Family.files]
  have hoffsets : f.offsetsFile ∈ f.files := by simp [Family.files]
  obtain ⟨d', hsteps, hd'⟩ :=
    ((leads_makeDir h.notBlocked).create (hfree hpostings)).create ((hfree hoffsets).update .empty)
  have hopen : performAll d (openingSteps f) = (d', .ok ()) := hsteps
  have hkept : ∀ n, n ∉ f.files.map unfinished → d'.item? n = d.item? n := by
    intro n hn
    have hne {k : String} (hk : k ∈ f.files) : n ≠ unfinished k := fun he =>
      hn (he ▸ List.mem_map_of_mem hk)
    rw [hd'.item?, Function.update_of_ne (hne hoffsets), Function.update_of_ne (hne hpostings)]
  have hready : Ready d' f := by
    refine ⟨?_, fun n hn size => ?_⟩
    · obtain ⟨named, rfl, -⟩ := hd'
      exact fun he => by cases he
    · rw [hd'.item?]
      exact ((h.free n hn).update .empty).update .empty size
  cases hfiles : familyFiles f m with
  | ok files => exact absurd (fits_of_familyFiles hfiles) hfits
  | error fault =>
    refine ⟨d', fault, ?_, rfl, hready, hkept⟩
    simp only [writeFamily, hopen, hfiles]

private theorem item?_of_read {c : Contents} (h : d.read n = .ok c) : d.item? n = some (.file c) := by
  unfold IndexDir.read at h
  split at h
  · next c' hitem =>
    obtain rfl := Except.ok.inj h
    exact hitem
  · cases h

/-- Directories that hold the same files of a family have the same under its names. -/
theorem Holds.item?_eq {files : FamilyFiles} (hd : Holds d f files) (he : Holds e f files) :
    ∀ n ∈ f.files, d.item? n = e.item? n := by
  intro n hn
  simp only [Family.files, List.mem_cons, List.not_mem_nil, or_false] at hn
  obtain rfl | rfl | rfl := hn
  · rw [item?_of_read hd.dict, item?_of_read he.dict]
  · rw [item?_of_read hd.postings, item?_of_read he.postings]
  · rw [item?_of_read hd.offsets, item?_of_read he.offsets]

private theorem files_subset {g : Family} (hn : n ∈ g.files) : n ∈ ownNames g :=
  List.mem_append_left _ hn

/-- One map is written into two directories that are ready for every family. -/
theorem writeFamily_alike (hd : ∀ g, Ready d g) (he : ∀ g, Ready e g) (f : Family) (m : TermMap) :
    ∃ d' e' r, writeFamily d f m = (d', r) ∧ writeFamily e f m = (e', r) ∧ (∀ g, Ready d' g) ∧
      (∀ g, Ready e' g) ∧ ∀ g : Family, ∀ n ∈ g.files, Alike d d' e e' n := by
  have hothers {d d' : IndexDir} (h : ∀ g, Ready d g) (hf : Ready d' f)
      (hkept : ∀ n, n ∉ ownNames f → d'.item? n = d.item? n) (g : Family) : Ready d' g := by
    by_cases hg : g = f
    · rwa [hg]
    · exact (h g).congr hf.notBlocked fun n hn => hkept n (ownNames_disjoint hg n hn)
  by_cases hfits : Fits m
  · obtain ⟨d', hwrite, hholds, hready, hkept⟩ := writeFamily_of_fits hfits (hd f)
    obtain ⟨e', hwrite', hholds', hready', hkept'⟩ := writeFamily_of_fits hfits (he f)
    refine ⟨d', e', _, hwrite, hwrite', hothers hd hready hkept, hothers he hready' hkept',
      fun g n hn => ?_⟩
    by_cases hg : g = f
    · exact .inl (hholds.item?_eq hholds' n (hg ▸ hn))
    · have hapart := ownNames_disjoint hg n (files_subset hn)
      exact .inr ⟨hkept n hapart, hkept' n hapart⟩
  · -- only unfinished files are left behind, which have other names
    obtain ⟨d', fault, hwrite, hfault, hready, hkept⟩ := writeFamily_of_not_fits hfits (hd f)
    obtain ⟨e', fault', hwrite', hfault', hready', hkept'⟩ := writeFamily_of_not_fits hfits (he f)
    obtain rfl := Except.error.inj (hfault.symm.trans hfault')
    have hbeside {n : String} (hn : n ∉ ownNames f) : n ∉ f.files.map unfinished := fun hmem =>
      hn (List.mem_append_right _ hmem)
    refine ⟨d', e', _, hwrite, hwrite', hothers hd hready fun n hn => hkept n (hbeside hn),
      hothers he hready' fun n hn => hkept' n (hbeside hn), fun g n hn => ?_⟩
    have hplace : n ∉ f.files.map unfinished := by
      by_cases hg : g = f
      · subst hg
        exact fun hmem => (List.nodup_append.mp (ownNames_nodup g)).2.2 n hn n hmem rfl
      · exact hbeside (ownNames_disjoint hg n (files_subset hn))
    exact .inr ⟨hkept n hplace, hkept' n hplace⟩

end Index

namespace Indexing
open Index (Ready Alike)

/-- The same maps are written into two directories that are ready for every family. -/
theorem writeFamilies_alike {d e : IndexDir} (hd : ∀ g, Ready d g) (he : ∀ g, Ready e g)
    (maps : List (Family × TermMap)) (written : List (Family × Nat)) :
    ∃ d' e' r, writeFamilies d written maps = (d', r) ∧ writeFamilies e written maps = (e', r) ∧
      (∀ g, Ready d' g) ∧ ∀ g : Family, ∀ n ∈ g.files, Alike d d' e e' n := by
  -- what the first family leaves behind is where the others begin
  induction maps generalizing d e written with
  | nil => exact ⟨d, e, _, rfl, rfl, hd, fun g n _ => .inr ⟨rfl, rfl⟩⟩
  | cons p rest ih =>
    obtain ⟨f, m⟩ := p
    obtain ⟨d₁, e₁, r, hwrite, hwrite', hd₁, he₁, hfirst⟩ := Index.writeFamily_alike hd he f m
    cases r with
    | error fault =>
      refine ⟨d₁, e₁, .error (.write f), ?_, ?_, hd₁, hfirst⟩
      · simp only [writeFamilies, writeFamily, hwrite, Except.mapError]
      · simp only [writeFamilies, writeFamily, hwrite', Except.mapError]
    | ok count =>
      obtain ⟨d', e', r, hrest, hrest', hd', hothers⟩ := ih hd₁ he₁ (written ++ [(f, count)])
      refine ⟨d', e', r, ?_, ?_, hd', fun g n hn => (hfirst g n hn).trans (hothers g n hn)⟩
      · simp only [writeFamilies, writeFamily, hwrite, Except.mapError, hrest]
      · simp only [writeFamilies, writeFamily, hwrite', Except.mapError, hrest']

/-- Writing the same maps again changes no file. -/
theorem writeFamilies_again {d d' : IndexDir} {r : Except Failure (List (Family × Nat))}
    (hd : ∀ g, Ready d g) {maps : List (Family × TermMap)} (hwrite : writeFamilies d [] maps = (d', r)) :
    ∃ d'', writeFamilies d' [] maps = (d'', r) ∧ ∀ g : Family, ∀ n ∈ g.files, d''.item? n = d'.item? n := by
  have hd' : ∀ g, Ready d' g := by
    obtain ⟨d₁, -, r₁, hfirst, -, hready, -⟩ := writeFamilies_alike hd hd maps []
    obtain ⟨rfl, -⟩ := Prod.mk.inj (hwrite.symm.trans hfirst)
    exact hready
  obtain ⟨d₁, d'', r', hfirst, hsecond, -, halike⟩ := writeFamilies_alike hd hd' maps []
  obtain ⟨rfl, rfl⟩ := Prod.mk.inj (hwrite.symm.trans hfirst)
  refine ⟨d'', hsecond, fun g n hn => ?_⟩
  rcases halike g n hn with hsame | ⟨-, hkept⟩
  · exact hsame.symm
  · exact hkept

end Indexing

end VolumeSearch
