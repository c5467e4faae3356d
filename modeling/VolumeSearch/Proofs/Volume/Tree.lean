import Mathlib.Data.List.Nodup
import Mathlib.Tactic.Common
import VolumeSearch.Proofs.SlashPath
import VolumeSearch.Volume.Tree

namespace VolumeSearch

namespace Node

/-- What holds of all that is no directory, and of a directory when it holds of its entries, holds of all. -/
theorem induction {P : Node → Prop} (file : ∀ stat contents, P (.file stat contents))
    (link : ∀ stat target, P (.link stat target)) (device : ∀ stat, P (.device stat))
    (dir : ∀ stat entries, (∀ p ∈ entries, P p.2) → P (.dir stat entries)) : ∀ n, P n
  | .file stat contents => file stat contents
  | .link stat target => link stat target
  | .device stat => device stat
  | .dir stat entries => dir stat entries fun p _ => induction file link device dir p.2
termination_by n => sizeOf n
decreasing_by
  obtain ⟨name, n⟩ := p
  have hmem := List.sizeOf_lt_of_mem ‹(name, n) ∈ entries›
  simp only [Prod.mk.sizeOf_spec, Node.dir.sizeOf_spec] at hmem ⊢
  omega

theorem at?_append (n : Node) (front back : List String) :
    n.at? (front ++ back) = (n.at? front).bind fun m => m.at? back := by
  induction front generalizing n with
  | nil => rfl
  | cons name rest ih =>
    rw [List.cons_append, at?, at?, Option.bind_assoc]
    exact Option.bind_congr fun child _ => ih child

/-- In every directory of the tree each name stands once and is the name of an entry. -/
def WellNamed (n : Node) : Prop :=
  ∀ chain stat entries, n.at? chain = some (.dir stat entries) → (entries.map (·.1)).Nodup ∧
    ∀ p ∈ entries, SlashPath.IsName p.1 ∧ p.1 ≠ "."

variable {n child : Node} {name : String} {stat : Stat} {entries : List (String × Node)}

theorem mem_of_child? (h : (dir stat entries).child? name = some child) : (name, child) ∈ entries := by
  obtain ⟨front, back, rfl, -⟩ := List.lookup_eq_some_iff.mp h
  simp

theorem child?_of_mem (hnodup : (entries.map (·.1)).Nodup) (h : (name, child) ∈ entries) :
    (dir stat entries).child? name = some child := by
  obtain ⟨front, back, rfl⟩ := List.append_of_mem h
  refine List.lookup_eq_some_iff.mpr ⟨front, back, rfl, fun p hp => ?_⟩
  rw [List.map_append, List.map_cons] at hnodup
  have hne := (List.nodup_append.mp hnodup).2.2 p.1 (List.mem_map_of_mem hp) name (by simp)
  simpa using Ne.symm hne

theorem WellNamed.below (h : n.WellNamed) (hchild : n.child? name = some child) : child.WellNamed := by
  intro chain stat entries hat
  refine h (name :: chain) stat entries ?_
  rw [at?, hchild]
  exact hat

theorem WellNamed.at? (h : n.WellNamed) {chain : List String} {m : Node} (hat : n.at? chain = some m) :
    m.WellNamed := by
  intro more stat entries hmore
  refine h (chain ++ more) stat entries ?_
  rw [at?_append, hat]
  exact hmore

theorem wellNamed_of_not_dir (h : n.isDir = false) : n.WellNamed := by
  intro chain stat entries hat
  cases n with
  | dir stat entries => cases h
  | file stat contents | link stat target | device stat => cases chain <;> cases hat

theorem wellNamed_dir (hnodup : (entries.map (·.1)).Nodup)
    (hnames : ∀ p ∈ entries, SlashPath.IsName p.1 ∧ p.1 ≠ ".") (hbelow : ∀ p ∈ entries, p.2.WellNamed) :
    (dir stat entries).WellNamed := by
  intro chain inner others hat
  cases chain with
  | nil =>
    obtain ⟨rfl, rfl⟩ := Node.dir.inj (Option.some.inj hat)
    exact ⟨hnodup, hnames⟩
  | cons first rest =>
    obtain ⟨child, hchild, hrest⟩ := Option.bind_eq_some_iff.mp hat
    exact hbelow _ (mem_of_child? hchild) rest inner others hrest

theorem WellNamed.names (h : n.WellNamed) {chain : List String} {m : Node} (hat : n.at? chain = some m) :
    ∀ name ∈ chain, SlashPath.IsName name ∧ name ≠ "." := by
  induction chain generalizing n with
  | nil => exact fun name hname => absurd hname List.not_mem_nil
  | cons first rest ih =>
    obtain ⟨child, hchild, hrest⟩ := Option.bind_eq_some_iff.mp hat
    have hfirst : SlashPath.IsName first ∧ first ≠ "." := by
      cases n with
      | dir stat entries => exact (h [] stat entries rfl).2 _ (mem_of_child? hchild)
      | file stat contents | link stat target | device stat => cases hchild
    exact List.forall_mem_cons.mpr ⟨hfirst, ih (h.below hchild) hrest⟩

def NoStepUp (n : Node) : Prop := ∀ chain, (n.at? chain).isSome → ".." ∉ chain

theorem noStepUp_of_not_dir (h : n.isDir = false) : n.NoStepUp := by
  intro chain hsome
  cases chain with
  | nil => exact List.not_mem_nil
  | cons name rest =>
    cases n with
    | dir stat entries => cases h
    | file stat contents | link stat target | device stat => cases hsome

theorem noStepUp_dir (hnames : ∀ p ∈ entries, p.1 ≠ "..") (hbelow : ∀ p ∈ entries, p.2.NoStepUp) :
    (dir stat entries).NoStepUp := by
  intro chain hsome
  cases chain with
  | nil => exact List.not_mem_nil
  | cons first rest =>
    obtain ⟨m, hat⟩ := Option.isSome_iff_exists.mp hsome
    obtain ⟨child, hchild, hrest⟩ := Option.bind_eq_some_iff.mp hat
    have hmem := mem_of_child? hchild
    have hsome : (child.at? rest).isSome := Option.isSome_iff_exists.mpr ⟨m, hrest⟩
    exact List.not_mem_cons_of_ne_of_not_mem (hnames _ hmem).symm (hbelow _ hmem rest hsome)

end Node

end VolumeSearch
