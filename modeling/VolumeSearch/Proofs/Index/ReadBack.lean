import Mathlib.Tactic.Common
import VolumeSearch.Proofs.Bytes
import VolumeSearch.Proofs.Index.Writing

namespace VolumeSearch.Index
open IndexDir (FreeIn shows_insert shows_erase)

private theorem terms_bytewise (m : TermMap) : (m.terms.map Bytes.ofText).Pairwise (· < ·) :=
  List.pairwise_map.mpr (m.terms_pairwise_lt.imp Bytes.ofText_lt)

/-- The reader has the terms that an id was added under, numbered from one in the order of their
bytes. Under any text it has the ids added under it, each once and ascending, of which a positive
cap takes the first ones. -/
structure Answers (r : Reader) (terms : List String) (added : String → FileId → Prop) : Prop where
  mem_terms : ∀ t, t ∈ terms ↔ ∃ id, added t id
  bytewise : (terms.map Bytes.ofText).Pairwise (· < ·)
  termCount : r.termCount = terms.length
  termId : ∀ i (hi : i < terms.length), (r.termId terms[i]).toNat = i + 1
  postings : ∀ t, ∃ ids, ids.Pairwise (· < ·) ∧ (∀ id, id ∈ ids ↔ added t id) ∧
    r.termPosting t = .ok ids ∧
    ∀ cap, r.posting (r.termId t) (some cap) = .ok (if cap = 0 then ids else ids.take cap)

/-- However ids are gathered under terms, the family they are written to opens again, and its reader
answers with what was gathered. -/
theorem writeFamily_reads_back (g : Gathering) (f : Family) {d : IndexDir} (hfits : Fits g.map)
    (hready : Ready d f) :
    ∃ (d' : IndexDir) (r : Reader) (terms : List String),
      writeFamily d f g.map = (d', .ok terms.length) ∧ Reader.openIn d' f = .ok r ∧
      Answers r terms fun t id => g.Added t id := by
  obtain ⟨d', hwrite, hholds, -, -⟩ := writeFamily_of_fits hfits hready
  obtain ⟨r, hopen, hreads⟩ := openIn_of_holds hfits hholds
  refine ⟨d', r, g.map.terms, ?_, hopen, ?_, terms_bytewise g.map, ?_, ?_, ?_⟩
  · rw [TermMap.length_terms, hwrite]
  · intro t
    rw [g.filled_map.mem_terms_iff]
    exact exists_congr fun id => g.mem_get_map t id
  · rw [TermMap.length_terms, hreads.termCount]
  · intro i hi
    rw [hreads.termId i hi]
    exact toNat_termId hi (by rw [TermMap.length_terms]; exact hfits.1)
  · intro t
    refine ⟨g.map.idsOf t, g.map.idsOf_pairwise_lt t, ?_, hreads.termPosting t,
      hreads.cappedPosting t⟩
    intro id
    rw [TermMap.mem_idsOf, g.mem_get_map]

/-- Two gatherings are merged; one term is in both, and one of its ids was added twice. -/
theorem merged_gathering_reads_back :
    let g : Gathering := .merge (.add (.add (.add .nothing "b" 7) "a" 300) "a" 5) (.add .nothing "a" 5)
    Fits g.map ∧ Ready .absent .name ∧
    ∃ (d' : IndexDir) (r : Reader) (terms : List String),
      writeFamily IndexDir.absent .name g.map = (d', .ok terms.length) ∧
      Reader.openIn d' .name = .ok r ∧ Answers r terms fun t id => g.Added t id := by
  intro g
  have hfits : Fits g.map := fits_of_lengths (by decide +kernel) (by decide +kernel)
  exact ⟨hfits, ready_absent .name, writeFamily_reads_back g .name hfits (ready_absent .name)⟩

def FileStep.file? : FileStep → Option String
  | .makeDir => none
  | .create name => some name
  | .fill name _ => some name
  | .rename _ target => some target

variable {d d' : IndexDir} {n : String} {size : Nat}

private theorem other_of_write {name : String} {change : Contents → Contents}
    (h : d.write name change = .ok d') (hn : d.item? n = some (.other size)) :
    name ≠ n ∧ d'.item? n = some (.other size) := by
  have hne : name ≠ n := by
    rintro rfl
    unfold IndexDir.write at h
    split at h <;> simp_all
  refine ⟨hne, ?_⟩
  unfold IndexDir.write at h
  split at h
  · obtain rfl := Except.ok.inj h
    rw [(shows_insert (fun _ => rfl) name _).item?, Function.update_of_ne hne.symm]
    exact hn
  · obtain rfl := Except.ok.inj h
    rw [(shows_insert (fun _ => rfl) name _).item?, Function.update_of_ne hne.symm]
    exact hn
  · cases h

private theorem other_of_rename {name target : String} (h : d.rename name target = .ok d')
    (hkept : name ≠ n) (hn : d.item? n = some (.other size)) :
    target ≠ n ∧ d'.item? n = some (.other size) := by
  have hne : target ≠ n := by
    rintro rfl
    unfold IndexDir.rename at h
    split at h <;> simp_all
  refine ⟨hne, ?_⟩
  unfold IndexDir.rename at h
  split at h
  · cases h
  · obtain rfl := Except.ok.inj h
    rw [(shows_insert (shows_erase (fun _ => rfl) name) target _).item?,
      Function.update_of_ne hne.symm, Function.update_of_ne hkept.symm]
    exact hn
  · cases h

/-- A step that succeeds wants another name than that of what is no file, and leaves this in place
unless it moves it. -/
theorem other_of_after {step : FileStep} (h : d.after step = .ok d')
    (hkept : ∀ target, step ≠ .rename n target) (hn : d.item? n = some (.other size)) :
    step.file? ≠ some n ∧ d'.item? n = some (.other size) := by
  cases step with
  | makeDir =>
    refine ⟨by simp [FileStep.file?], ?_⟩
    cases d with
    | absent => cases hn
    | blocked => cases hn
    | files named =>
      obtain rfl := Except.ok.inj h
      exact hn
  | create name =>
    have hwrite : d.write name (fun _ => .empty) = .ok d' := h
    obtain ⟨hne, hd'⟩ := other_of_write hwrite hn
    exact ⟨fun he => hne (Option.some.inj he), hd'⟩
  | fill name data =>
    have hwrite : d.write name (·.overwrite data) = .ok d' := h
    obtain ⟨hne, hd'⟩ := other_of_write hwrite hn
    exact ⟨fun he => hne (Option.some.inj he), hd'⟩
  | rename name target =>
    have hname : name ≠ n := fun he => hkept target (by rw [he])
    obtain ⟨hne, hd'⟩ := other_of_rename h hname hn
    exact ⟨fun he => hne (Option.some.inj he), hd'⟩

/-- When steps succeed, every name is free that one of them wants for a file and none moves away. -/
theorem freeIn_of_performAll {steps : List FileStep} (h : performAll d steps = (d', .ok ()))
    (hkept : ∀ target, .rename n target ∉ steps) (hwants : ∃ step ∈ steps, step.file? = some n) :
    FreeIn d.item? n := by
  intro size hn
  induction steps generalizing d with
  | nil =>
    obtain ⟨step, hstep, -⟩ := hwants
    exact List.not_mem_nil hstep
  | cons step rest ih =>
    simp only [performAll, Shelf.perform] at h
    cases hafter : d.after step with
    | error fault => simp [hafter] at h
    | ok e =>
      rw [hafter] at h
      obtain ⟨hother, he⟩ := other_of_after hafter (fun target hs => hkept target (by simp [hs])) hn
      have hrest : ∃ step ∈ rest, step.file? = some n := by
        obtain ⟨s, hs, hwant⟩ := hwants
        rcases List.mem_cons.mp hs with rfl | hs
        · exact absurd hwant hother
        · exact ⟨s, hs, hwant⟩
      exact ih h (fun target hmem => hkept target (by simp [hmem])) hrest he

private theorem performAll_append_ok {first second : List FileStep}
    (h : performAll d (first ++ second) = (d', .ok ())) :
    ∃ e, performAll d first = (e, .ok ()) ∧ performAll e second = (d', .ok ()) := by
  rw [performAll_append] at h
  split at h
  · next e hfirst => exact ⟨e, hfirst, h⟩
  · cases h

variable {f : Family} {m : TermMap}

private theorem mem_swapOrder : n ∈ swapOrder f ↔ n ∈ f.files := by
  simp only [swapOrder, Family.files, List.mem_cons, List.not_mem_nil, or_false]
  tauto

theorem ready_of_performAll {files : FamilyFiles}
    (h : performAll d (openingSteps f ++ stagingSteps f files ++ swapSteps f) = (d', .ok ())) :
    Ready d f := by
  obtain ⟨e, hstaged, -⟩ := performAll_append_ok h
  refine ⟨?_, fun n hn => ?_⟩
  · rintro rfl
    cases hstaged
  obtain hplace | hbeside := List.mem_append.mp hn
  · -- only names beside the places are given up
    refine freeIn_of_performAll h (fun target hmem => ?_) ⟨.rename (unfinished n) n, ?_, rfl⟩
    · have hmove : .rename n target ∈ swapSteps f := by
        simpa [openingSteps, stagingSteps] using hmem
      obtain ⟨k, hk, he⟩ := List.mem_map.mp hmove
      obtain ⟨rfl, -⟩ := FileStep.rename.inj he
      exact (List.nodup_append.mp (ownNames_nodup f)).2.2 _ hplace _
        (List.mem_map_of_mem (mem_swapOrder.mp hk)) rfl
    · exact List.mem_append_right _ (List.mem_map_of_mem (mem_swapOrder.mpr hplace))
  · obtain ⟨k, hk, rfl⟩ := List.mem_map.mp hbeside
    refine freeIn_of_performAll hstaged (fun target hmem => ?_) ⟨.create (unfinished k), ?_, rfl⟩
    · simp [openingSteps, stagingSteps] at hmem
    · simp only [Family.files, List.mem_cons, List.not_mem_nil, or_false] at hk
      obtain rfl | rfl | rfl := hk <;> simp [openingSteps, stagingSteps]

/-- A family is written only into a place that is ready, and only from a map that fits. -/
theorem fits_and_ready_of_writeFamily {count : Nat} (h : writeFamily d f m = (d', .ok count)) :
    Fits m ∧ Ready d f := by
  unfold writeFamily at h
  split at h
  · cases h
  · next e hopen =>
    split at h
    · cases h
    · next files hfiles =>
      cases hrest : performAll e (stagingSteps f files ++ swapSteps f) with
      | mk e' r =>
        rw [hrest] at h
        cases r with
        | error fault => cases h
        | ok u =>
          have hall : performAll d (openingSteps f ++ stagingSteps f files ++ swapSteps f) =
              (e', .ok ()) := by
            rw [List.append_assoc, performAll_append, hopen]
            exact hrest
          exact ⟨fits_of_familyFiles hfiles, ready_of_performAll hall⟩

/-- A family that was written has its files, and the rest of the place is as it was. -/
theorem holds_of_writeFamily {count : Nat} (h : writeFamily d f m = (d', .ok count)) :
    Fits m ∧ Holds d' f (filesOf m) ∧ ∀ n, n ∉ ownNames f → d'.item? n = d.item? n := by
  obtain ⟨hfits, hready⟩ := fits_and_ready_of_writeFamily h
  obtain ⟨d₁, hwrite, hholds, -, hkept⟩ := writeFamily_of_fits hfits hready
  obtain ⟨rfl, -⟩ := Prod.mk.inj (hwrite.symm.trans h)
  exact ⟨hfits, hholds, hkept⟩

/-- It opens wherever its files are, and answers with what its map has. -/
theorem openIn_of_writeFamily {count : Nat} (h : writeFamily d f m = (d', .ok count)) {i : IndexDir}
    (hsame : ∀ n ∈ f.files, i.item? n = d'.item? n) : ∃ r, Reader.openIn i f = .ok r ∧ Reads r m := by
  obtain ⟨hfits, hholds, -⟩ := holds_of_writeFamily h
  exact openIn_of_holds hfits (hholds.congr hsame)

end VolumeSearch.Index
