import Mathlib.Tactic.Common
import VolumeSearch.Indexing
import VolumeSearch.Proofs.Index.Files
import VolumeSearch.Proofs.Index.ReadBack

namespace VolumeSearch

namespace TermMap
variable {m m' : TermMap}

/-- Both maps have the same ids under each term, and no term without one. -/
structure SameIds (m m' : TermMap) : Prop where
  filled : m.Filled
  filled' : m'.Filled
  mem_get : ∀ t id, id ∈ m.get t ↔ id ∈ m'.get t

theorem SameIds.terms_eq (h : SameIds m m') : m.terms = m'.terms :=
  Ascending.eq_of_mem_iff m.terms_pairwise_lt m'.terms_pairwise_lt fun t => by
    rw [h.filled.mem_terms_iff, h.filled'.mem_terms_iff]
    exact exists_congr fun id => h.mem_get t id

theorem SameIds.idsOf_eq (h : SameIds m m') (t : String) : m.idsOf t = m'.idsOf t :=
  Ascending.eq_of_mem_iff (m.idsOf_pairwise_lt t) (m'.idsOf_pairwise_lt t) fun id => by
    rw [mem_idsOf, mem_idsOf, h.mem_get]

end TermMap

namespace Index
variable {σ : Type} [Shelf σ] {m m' : TermMap}

theorem records_congr (h : m.SameIds m') : records m = records m' := by
  rw [records_eq, records_eq, h.terms_eq]
  refine List.map_congr_left fun t _ => ?_
  rw [record, record, h.idsOf_eq t]

/-- A place is changed in the same way by maps with the same ids. -/
theorem writeFamily_congr (s : σ) (f : Family) (h : m.SameIds m') :
    writeFamily s f m = writeFamily s f m' := by
  have hfiles : familyFiles f m = familyFiles f m' := by
    rw [familyFiles, familyFiles, records_congr h]
  have hsize : m.size = m'.size := by
    rw [← TermMap.length_terms, ← TermMap.length_terms, h.terms_eq]
  rw [writeFamily, writeFamily, hfiles, hsize]

/-- The dictionary tells the terms, and once these are known the postings tell the ids of each. -/
theorem sameIds_of_files (hfits : Fits m) (hfits' : Fits m') (hfilled : m.Filled) (hfilled' : m'.Filled)
    (hdict : (filesOf m).dict = (filesOf m').dict)
    (hpostings : (filesOf m).postings = (filesOf m').postings) : m.SameIds m' := by
  have hfew := m.length_terms ▸ hfits.1
  have hfew' := m'.length_terms ▸ hfits'.1
  have hterms : m.terms = m'.terms :=
    Ascending.eq_of_mem_iff m.terms_pairwise_lt m'.terms_pairwise_lt fun t =>
      ⟨mem_of_dictText_eq m.terms_nodup m'.terms_nodup hfew hfew' hdict,
        mem_of_dictText_eq m'.terms_nodup m.terms_nodup hfew' hfew hdict.symm⟩
  have hlists : m.terms.map m.idsOf = m'.terms.map m'.idsOf := by
    apply Postings.flatten_map_encode_inj
    · exact List.forall_mem_map.mpr fun t => length_idsOf_lt hfits
    · exact List.forall_mem_map.mpr fun t => length_idsOf_lt hfits'
    · rw [List.map_map, List.map_map]
      exact hpostings
  rw [← hterms, List.map_inj_left] at hlists
  refine ⟨hfilled, hfilled', fun t id => ?_⟩
  by_cases ht : t ∈ m.terms
  · rw [← TermMap.mem_idsOf, ← TermMap.mem_idsOf, hlists t ht]
  · -- neither map has an id under what is no term of it
    have hnone := ht
    rw [hfilled.mem_terms_iff, not_exists] at hnone
    rw [hterms, hfilled'.mem_terms_iff, not_exists] at ht
    exact iff_of_false (hnone id) (ht id)

/-- Files are the same just if the ids under all terms are. -/
theorem filesOf_eq_iff (hfits : Fits m) (hfits' : Fits m') (hfilled : m.Filled) (hfilled' : m'.Filled) :
    filesOf m = filesOf m' ↔ ∀ t id, id ∈ m.get t ↔ id ∈ m'.get t := by
  constructor
  · intro h
    exact (sameIds_of_files hfits hfits' hfilled hfilled' (congrArg _ h) (congrArg _ h)).mem_get
  · intro h
    have hsame : m.SameIds m' := ⟨hfilled, hfilled', h⟩
    have hblobs : blobs m = blobs m' := by
      rw [blobs, blobs, hsame.terms_eq]
      exact List.map_congr_left fun t _ => congrArg Postings.encode (hsame.idsOf_eq t)
    rw [filesOf, filesOf, hsame.terms_eq, hblobs]

/-- Two gatherings of the same ids change any place in the same way. Written into directories they give the
same three files, byte for byte; and when they are not of the same ids, the dictionaries differ or the
postings do. -/
theorem writeFamily_canonical (g g' : Gathering) (f : Family) :
    (g.Agrees g' → ∀ {σ : Type} [Shelf σ] (s : σ), writeFamily s f g.map = writeFamily s f g'.map) ∧
    ∀ {d d' e e' : IndexDir} {count count' : Nat},
      writeFamily d f g.map = (e, .ok count) → writeFamily d' f g'.map = (e', .ok count') →
      ∃ files files' : FamilyFiles, Holds e f files ∧ Holds e' f files' ∧
        (g.Agrees g' → files = files') ∧
        (¬ g.Agrees g' → files.dict ≠ files'.dict ∨ files.postings ≠ files'.postings) := by
  refine ⟨fun hsame σ _ s => ?_, fun hwrite hwrite' => ?_⟩
  · exact writeFamily_congr s f ⟨g.filled_map, g'.filled_map, Gathering.agrees_iff.mp hsame⟩
  obtain ⟨hfits, hholds, -⟩ := holds_of_writeFamily hwrite
  obtain ⟨hfits', hholds', -⟩ := holds_of_writeFamily hwrite'
  refine ⟨_, _, hholds, hholds', fun hsame => ?_, fun hother => ?_⟩
  · exact (filesOf_eq_iff hfits hfits' g.filled_map g'.filled_map).mpr (Gathering.agrees_iff.mp hsame)
  · by_contra hsame
    rw [not_or, not_not, not_not] at hsame
    exact hother (Gathering.agrees_iff.mpr
      (sameIds_of_files hfits hfits' g.filled_map g'.filled_map hsame.1 hsame.2).mem_get)

def inParts : Gathering := .merge (.add (.add .nothing "b" 7) "a" 300) (.add (.add .nothing "a" 5) "b" 7)

def oneByOne : Gathering := .add (.add (.add (.add .nothing "a" 5) "a" 300) "b" 7) "a" 5

def misplaced : Gathering := .add (.add (.add .nothing "a" 5) "b" 300) "b" 7

theorem inParts_and_oneByOne_alike :
    ∃ (e e' e'' : IndexDir) (files files' : FamilyFiles), inParts.Agrees oneByOne ∧
      ¬ inParts.Agrees misplaced ∧ writeFamily IndexDir.absent .name inParts.map = (e, .ok 2) ∧
      writeFamily IndexDir.absent .name oneByOne.map = (e', .ok 2) ∧
      writeFamily IndexDir.absent .name misplaced.map = (e'', .ok 2) ∧
      Holds e .name files ∧ Holds e' .name files ∧ Holds e'' .name files' ∧
      (files.dict ≠ files'.dict ∨ files.postings ≠ files'.postings) := by
  have hagrees : inParts.Agrees oneByOne := by
    intro t id
    simp only [inParts, oneByOne, Gathering.Added]
    tauto
  have hapart : ¬ inParts.Agrees misplaced := by
    intro h
    have hid := (h "a" 300).mp (by simp [inParts, Gathering.Added])
    simp [misplaced, Gathering.Added] at hid
  have hwrite {g : Gathering} (hsize : g.map.size = 2)
      (hids : ∀ t ∈ g.map.terms, Postings.Varint.maxLength * ((g.map.get t).length + 1) < wordLimit) :
      ∃ e, writeFamily IndexDir.absent .name g.map = (e, .ok 2) := by
    have hfew : g.map.size < wordLimit := by
      rw [hsize]
      decide
    obtain ⟨e, h, -⟩ := writeFamily_of_fits (fits_of_lengths hfew hids) (ready_absent .name)
    exact ⟨e, hsize ▸ h⟩
  obtain ⟨e, he⟩ := hwrite (g := inParts) (by cbv) (by decide +kernel)
  obtain ⟨e', he'⟩ := hwrite (g := oneByOne) (by cbv) (by decide +kernel)
  obtain ⟨e'', he''⟩ := hwrite (g := misplaced) (by cbv) (by decide +kernel)
  obtain ⟨files, files', hfiles, hfiles', hsame, -⟩ := (writeFamily_canonical inParts oneByOne .name).2 he he'
  obtain rfl := hsame hagrees
  obtain ⟨files', files'', hd, hd'', -, hother⟩ := (writeFamily_canonical inParts misplaced .name).2 he he''
  obtain rfl : files = files' := hfiles.unique hd
  exact ⟨e, e', e'', files, files'', hagrees, hapart, he, he', he'', hfiles, hfiles', hd'', hother hapart⟩

end Index

namespace Indexing
variable {σ : Type} [Index.Shelf σ]

def SameFamily (p q : Family × TermMap) : Prop := p.1 = q.1 ∧ p.2.SameIds q.2

theorem writeFamilies_congr {maps maps' : List (Family × TermMap)}
    (h : List.Forall₂ SameFamily maps maps') (d : σ) (written : List (Family × Nat)) :
    writeFamilies d written maps = writeFamilies d written maps' := by
  induction h generalizing d written with
  | nil => rfl
  | @cons p q rest rest' hpq _ ih =>
    obtain ⟨f, m⟩ := p
    obtain ⟨g, m'⟩ := q
    obtain ⟨rfl, hsame⟩ := hpq
    simp only [writeFamilies, writeFamily, Index.writeFamily_congr d f hsame, ih]

end Indexing

end VolumeSearch
