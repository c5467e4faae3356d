import Mathlib.Tactic.Common
import VolumeSearch.Proofs.Volume.Names
import VolumeSearch.Volume.Places

namespace VolumeSearch

namespace Volume

variable {v : Volume}

theorem resolve_of_find? {path : String} {node : Node} (h : v.find? path = some node) :
    ∃ chain, v.resolve .target path = .ok chain ∧ v.root.at? chain = some node := by
  obtain ⟨chain, hresolved, hat⟩ := Option.bind_eq_some_iff.mp h
  cases hcase : v.resolve .target path with
  | error fault =>
    rw [hcase] at hresolved
    cases hresolved
  | ok found =>
    rw [hcase] at hresolved
    obtain rfl : found = chain := Option.some.inj hresolved
    exact ⟨found, rfl, hat⟩

theorem has_of_hasDirectory {path : String} (h : v.hasDirectory path = true) : v.has path = true := by
  unfold hasDirectory at h
  split at h
  · next hfind => rw [has, hfind, Option.isSome_some]
  · cases h

end Volume

namespace Catalog
open Volume

variable {v : Volume} {dir : String} {chain : List String}

theorem keeps_writeForm (dir : String) : Keeps (writeForm dir) :=
  (keeps_writeFile _ _).bind fun _ => keeps_rename _ _

theorem keeps_settleForm (dir : String) : Keeps (settleForm dir) := by
  refine keeps_get.bind fun v => ?_
  split
  · exact keeps_writeForm dir
  · exact keeps_throw _
  · split
    · exact keeps_throw _
    · split
      · exact keeps_writeForm dir
      · split
        · exact keeps_pure ()
        · exact keeps_throw _

theorem keeps_openAt (dir : String) : Keeps (openAt dir) := by
  have hrest : Keeps (do
      settleForm dir
      let chain ← openFile (dataFile dir)
      unless (← get).hasDirectory (largeValues dir) do throw .notDirectory
      return chain) := by
    refine (keeps_settleForm dir).bind fun _ => (keeps_openFile _).bind fun chain => keeps_get.bind fun v => ?_
    split
    · exact keeps_pure chain
    · exact keeps_throw _
  refine keeps_get.bind fun v => ?_
  dsimp only
  split
  · exact hrest
  · exact (keeps_makeDirs _).bind fun _ => hrest

/-- A directory has all parts of a store, with its data at the end of the chain. -/
structure IsPlace (v : Volume) (dir : String) (chain : List String) : Prop where
  large : v.hasDirectory (largeValues dir) = true
  form : ∃ contents, (v.find? (formFile dir)).bind Node.contents? = some contents ∧
    emptyForm < contents.size ∧ accepts contents = true
  resolved : v.resolve .place (dataFile dir) = .ok chain
  data : ∃ stat contents, v.root.at? chain = some (.file stat contents)

/-- What a new store is given as its form is accepted. -/
theorem accepts_form : accepts (.ofBytes (formText ++ checkSum)) = true := by
  simp [accepts, Contents.ofBytes]

theorem IsPlace.settleForm (h : IsPlace v dir chain) : v.apply (settleForm dir) = (v, .ok ()) := by
  obtain ⟨contents, hform, hsize, haccepts⟩ := h.form
  obtain ⟨node, hfind, hnode⟩ := Option.bind_eq_some_iff.mp hform
  obtain ⟨formChain, hresolved, hat⟩ := resolve_of_find? hfind
  rw [Catalog.settleForm, apply_bind_ok (apply_get v), hresolved]
  simp only [hat, Option.bind_some, hnode, if_neg (Nat.not_le.mpr hsize), haccepts, if_true]
  rfl

theorem IsPlace.openFile (h : IsPlace v dir chain) : v.apply (openFile (dataFile dir)) = (v, .ok chain) := by
  obtain ⟨stat, contents, hat⟩ := h.data
  refine apply_whole_ok ?_
  rw [h.resolved]
  simp only [bind, Except.bind, hat]
  rfl

/-- A store that has all its parts is opened as it is. -/
theorem IsPlace.openAt (h : IsPlace v dir chain) : v.apply (openAt dir) = (v, .ok chain) := by
  rw [Catalog.openAt, apply_bind_ok (apply_get v), if_pos (has_of_hasDirectory h.large)]
  simp only
  rw [apply_bind_ok h.settleForm, apply_bind_ok h.openFile, apply_bind_ok (apply_get v), if_pos h.large]
  rfl

end Catalog

end VolumeSearch
