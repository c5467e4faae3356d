import Mathlib.Tactic.Common
import VolumeSearch.Proofs.Index.Writing

/-! A reader that is opened while a family is written anew. The dictionary is moved last, so such a
reader has the earlier dictionary; each check compares it with one of the two other files only. -/
namespace VolumeSearch.Index
open VolumeSearch.Postings

variable {a b : TermMap} {f : Family} {d : IndexDir}

/-- While a family is written anew, the files moved so far are of the new build and the others of the
earlier one. -/
theorem read_writeUpTo (hready : Ready d f) (hd : Holds d f (filesOf a)) (b : TermMap) (k : Nat) :
    ∃ d', writeUpTo d f b k = (d', .ok ()) ∧
      (∀ p ∈ (placed f (filesOf b)).take k, d'.read p.1 = .ok (.ofBytes p.2)) ∧
      ∀ p ∈ (placed f (filesOf a)).drop k, d'.read p.1 = .ok (.ofBytes p.2) := by
  obtain ⟨shown, ⟨d', hsteps, hd'⟩, hplaced, hkept, -⟩ := leads_swapped hready (filesOf b) k
  refine ⟨d', hsteps, ?_, ?_⟩
  · intro p hp
    rw [IndexDir.read, hd'.item?, (hplaced p hp).1]
  · intro p hp
    have horder : swapOrder f = (placed f (filesOf a)).map (·.1) := rfl
    have hname : p.1 ∈ (swapOrder f).drop k := by
      rw [horder, ← List.map_drop]
      exact List.mem_map_of_mem hp
    have hearlier : d'.read p.1 = d.read p.1 := by
      rw [IndexDir.read, IndexDir.read, hd'.item?, hkept p.1 hname]
    have hmem := List.mem_of_mem_drop hp
    simp only [placed, List.mem_cons, List.not_mem_nil, or_false] at hmem
    rw [hearlier]
    obtain rfl | rfl | rfl := hmem
    · exact hd.postings
    · exact hd.offsets
    · exact hd.dict

/-- With only the postings moved, the reader is refused just when these are of another size. -/
theorem openIn_postings_moved (ha : Fits a) (hready : Ready d f) (hd : Holds d f (filesOf a))
    (b : TermMap) :
    ∃ d' dict, writeUpTo d f b 1 = (d', .ok ()) ∧ Numbers dict a ∧
      Reader.openIn d' f =
        if (filesOf a).postings.length = (filesOf b).postings.length then
          .ok ⟨f, dict, .ofBytes (filesOf b).postings, .ofBytes (filesOf a).offsets⟩
        else .error (.inconsistent
          (.blobSize f (filesOf a).postings.length (filesOf b).postings.length)) := by
  obtain ⟨d', hwrite, hnew, hearlier⟩ := read_writeUpTo hready hd b 1
  obtain ⟨dict, hnumbers, hopen⟩ := openIn_of_dict ha
    (hearlier (f.dictFile, (filesOf a).dict) (by simp [placed]))
    (hnew (f.postingsFile, (filesOf b).postings) (by simp [placed]))
    (hearlier (f.offsetsFile, (filesOf a).offsets) (by simp [placed]))
  refine ⟨d', dict, hwrite, hnumbers, ?_⟩
  let r : Reader := ⟨f, dict, .ofBytes (filesOf b).postings, .ofBytes (filesOf a).offsets⟩
  have hcount : r.termCount = a.size := hnumbers.size
  have htable : r.offsets.size = a.size * Span.width := length_offsets a
  have hend : r.lastEnd = (filesOf a).postings.length := lastEnd_of_files ha r hcount rfl
  rw [hopen, checked_of_fits ha hcount, if_pos htable, hend]
  rfl

/-- With the postings and the table moved, the reader is refused just when there is another number of
terms. -/
theorem openIn_table_moved (ha : Fits a) (hb : Fits b) (hready : Ready d f)
    (hd : Holds d f (filesOf a)) :
    ∃ d' dict, writeUpTo d f b 2 = (d', .ok ()) ∧ Numbers dict a ∧
      Reader.openIn d' f =
        if a.size = b.size then
          .ok ⟨f, dict, .ofBytes (filesOf b).postings, .ofBytes (filesOf b).offsets⟩
        else .error (.inconsistent (.tableSize f (b.size * Span.width) a.size)) := by
  obtain ⟨d', hwrite, hnew, hearlier⟩ := read_writeUpTo hready hd b 2
  obtain ⟨dict, hnumbers, hopen⟩ := openIn_of_dict ha
    (hearlier (f.dictFile, (filesOf a).dict) (by simp [placed]))
    (hnew (f.postingsFile, (filesOf b).postings) (by simp [placed]))
    (hnew (f.offsetsFile, (filesOf b).offsets) (by simp [placed]))
  refine ⟨d', dict, hwrite, hnumbers, ?_⟩
  let r : Reader := ⟨f, dict, .ofBytes (filesOf b).postings, .ofBytes (filesOf b).offsets⟩
  have hcount : r.termCount = a.size := hnumbers.size
  have htable : r.offsets.size = b.size * Span.width := length_offsets b
  rw [hopen, checked_of_fits ha hcount, htable]
  by_cases hsize : a.size = b.size
  · have hend : r.lastEnd = r.postings.size := lastEnd_of_files hb r (hcount.trans hsize) rfl
    rw [if_pos hsize, if_pos (by rw [hsize]), if_pos hend]
  · have hwidth : b.size * Span.width ≠ a.size * Span.width := fun he =>
      hsize (Nat.eq_of_mul_eq_mul_right (by decide) he).symm
    rw [if_neg hsize, if_neg hwidth]

/-- A reader that is opened while a family is written anew is refused only where the files it meets
show a difference. With the postings moved, builds with postings of one size pass for one,
whatever their terms are; with the table moved as well, builds with one number of terms do,
whatever their postings are. -/
theorem openIn_mid_rebuild (f : Family) (ha : Fits a) (hb : Fits b) (hready : Ready d f) :
    ∃ d₀ d₁ d₂ d₃, writeFamily d f a = (d₀, .ok a.size) ∧
      writeUpTo d₀ f b 1 = (d₁, .ok ()) ∧ writeUpTo d₀ f b 2 = (d₂, .ok ()) ∧
      writeUpTo d₀ f b 3 = (d₃, .ok ()) ∧ writeFamily d₀ f b = (d₃, .ok b.size) ∧
      (∃ dict, Numbers dict a ∧ Reader.openIn d₁ f =
        if (filesOf a).postings.length = (filesOf b).postings.length then
          .ok ⟨f, dict, .ofBytes (filesOf b).postings, .ofBytes (filesOf a).offsets⟩
        else .error (.inconsistent
          (.blobSize f (filesOf a).postings.length (filesOf b).postings.length))) ∧
      ∃ dict, Numbers dict a ∧ Reader.openIn d₂ f =
        if a.size = b.size then
          .ok ⟨f, dict, .ofBytes (filesOf b).postings, .ofBytes (filesOf b).offsets⟩
        else .error (.inconsistent (.tableSize f (b.size * Span.width) a.size)) := by
  obtain ⟨d₀, hwrite, hholds, hready₀, -⟩ := writeFamily_of_fits ha hready
  obtain ⟨d₁, dict₁, hfirst, hnumbers₁, hopen₁⟩ := openIn_postings_moved ha hready₀ hholds b
  obtain ⟨d₂, dict₂, hsecond, hnumbers₂, hopen₂⟩ := openIn_table_moved ha hb hready₀ hholds
  obtain ⟨d₃, hthird, -, -⟩ := read_writeUpTo hready₀ hholds b 3
  refine ⟨d₀, d₁, d₂, d₃, hwrite, hfirst, hsecond, hthird, ?_, ⟨dict₁, hnumbers₁, hopen₁⟩,
    dict₂, hnumbers₂, hopen₂⟩
  rw [writeFamily_eq_writeUpTo hb, hthird]
  rfl

/-- One term with an id whose record takes four bytes. -/
def oneTerm : TermMap := TermMap.empty.add "a" 16384

def twoTerms : TermMap := (TermMap.empty.add "a" 1).add "b" 1

def shortTerm : TermMap := TermMap.empty.add "a" 1

private theorem contents_oneTerm : oneTerm.terms = ["a"] ∧ oneTerm.get "a" = [16384] := by
  constructor <;> cbv

private theorem contents_shortTerm : shortTerm.terms = ["a"] ∧ shortTerm.get "a" = [1] := by
  constructor <;> cbv

private theorem fits_oneTerm : Fits oneTerm := by
  refine fits_of_lengths (by cbv) ?_
  rw [contents_oneTerm.1, List.forall_mem_singleton, contents_oneTerm.2]
  decide

private theorem fits_shortTerm : Fits shortTerm := by
  refine fits_of_lengths (by cbv) ?_
  rw [contents_shortTerm.1, List.forall_mem_singleton, contents_shortTerm.2]
  decide

private theorem ofList_singleton (id : FileId) : IdSet.ofList [id] = [id] := by
  rw [IdSet.ofList, Ascending.ofList, List.mergeSort_singleton, Ascending.dropRepeats]
  intro a b rest h
  cases h

private theorem length_oneTerm : (filesOf oneTerm).postings.length = 4 := by
  obtain ⟨hterms, hget⟩ := contents_oneTerm
  simp only [filesOf, blobs, hterms, List.map_cons, List.map_nil, record, TermMap.idsOf, hget,
    ofList_singleton]
  cbv

private theorem length_twoTerms : (filesOf twoTerms).postings.length = 4 := by
  have hterms : twoTerms.terms = ["a", "b"] := by cbv
  have ha : twoTerms.get "a" = [1] := by cbv
  have hb : twoTerms.get "b" = [1] := by cbv
  simp only [filesOf, blobs, hterms, List.map_cons, List.map_nil, record, TermMap.idsOf, ha, hb,
    ofList_singleton]
  cbv

private theorem length_shortTerm : (filesOf shortTerm).postings.length = 2 := by
  obtain ⟨hterms, hget⟩ := contents_shortTerm
  simp only [filesOf, blobs, hterms, List.map_cons, List.map_nil, record, TermMap.idsOf, hget,
    ofList_singleton]
  cbv

/-- With shorter postings under the same term, the first mixture is refused and the second passes. -/
theorem shorter_build_mid_rebuild :
    Fits oneTerm ∧ Fits shortTerm ∧ Ready .absent .name ∧
    ∃ d₀ d₁ d₂ r, writeFamily IndexDir.absent .name oneTerm = (d₀, .ok 1) ∧
      writeUpTo d₀ .name shortTerm 1 = (d₁, .ok ()) ∧
      Reader.openIn d₁ .name = .error (.inconsistent (.blobSize .name 4 2)) ∧
      writeUpTo d₀ .name shortTerm 2 = (d₂, .ok ()) ∧ Reader.openIn d₂ .name = .ok r := by
  refine ⟨fits_oneTerm, fits_shortTerm, ready_absent .name, ?_⟩
  obtain ⟨d₀, d₁, d₂, d₃, hwrite, hfirst, hsecond, -, -, ⟨dict₁, -, hrefused⟩, dict₂, -, hopen⟩ :=
    openIn_mid_rebuild .name fits_oneTerm fits_shortTerm (ready_absent .name)
  have hsize : oneTerm.size = shortTerm.size := by decide +kernel
  rw [length_oneTerm, length_shortTerm, if_neg (by decide)] at hrefused
  rw [if_pos hsize] at hopen
  exact ⟨d₀, d₁, d₂, _, hwrite, hfirst, hrefused, hsecond, hopen⟩

/-- Builds with different numbers of terms, and builds with postings of different sizes, can be mixed
so that the mixture opens. -/
theorem unlike_builds_open :
    oneTerm.size ≠ twoTerms.size ∧
    (filesOf oneTerm).postings.length ≠ (filesOf shortTerm).postings.length ∧
    ∃ d₀, writeFamily IndexDir.absent .name oneTerm = (d₀, .ok 1) ∧
      (∃ d₁ r, writeUpTo d₀ .name twoTerms 1 = (d₁, .ok ()) ∧ Reader.openIn d₁ .name = .ok r) ∧
      ∃ d₂ r, writeUpTo d₀ .name shortTerm 2 = (d₂, .ok ()) ∧ Reader.openIn d₂ .name = .ok r := by
  obtain ⟨d₀, hwrite, hholds, hready, -⟩ := writeFamily_of_fits fits_oneTerm (ready_absent .name)
  obtain ⟨d₁, dict₁, hfirst, -, hopen₁⟩ := openIn_postings_moved fits_oneTerm hready hholds twoTerms
  obtain ⟨d₂, dict₂, hsecond, -, hopen₂⟩ := openIn_table_moved fits_oneTerm fits_shortTerm hready hholds
  have hsize : oneTerm.size = shortTerm.size := by decide +kernel
  rw [length_oneTerm, length_twoTerms, if_pos rfl] at hopen₁
  rw [if_pos hsize] at hopen₂
  refine ⟨by decide +kernel, ?_, d₀, hwrite, ⟨d₁, _, hfirst, hopen₁⟩, d₂, _, hsecond, hopen₂⟩
  rw [length_oneTerm, length_shortTerm]
  decide

end VolumeSearch.Index
