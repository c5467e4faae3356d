import Mathlib.Data.List.Induction
import Mathlib.Tactic.Common
import VolumeSearch.Proofs.Indexing
import VolumeSearch.Proofs.Volume.Walking

/-! What a walk leaves in the catalog and in the terms. The rules look at one entry, and the walk goes on only
where they let it; what is indexed is said of all names on the way. -/
namespace VolumeSearch

namespace Volume

def NoPseudoRoots (root : String) (node : Node) : Prop :=
  ∀ chain n, chain ≠ [] → node.at? chain = some n → n.isDir = true →
    pseudoRoots.any (sameSpelling (SlashPath.along root chain)) = false

/-- What is to be indexed from a root: the root itself, and unless it is in the trash what is below it along names
of which none is that of the trash and none is hidden, or hidden ones are wanted. -/
def IsIndexed (hidden : Bool) (root : String) (node : Node) (chain : List String) : Prop :=
  (node.at? chain).isSome = true ∧ (chain = [] ∨ trashName ∉ SlashPath.components root ∧
    ∀ name ∈ chain, name ≠ trashName ∧ (hidden = true ∨ name.toList.head? ≠ some '.'))

variable {hidden : Bool} {root : String} {top node : Node} {chains : List (List String)}

/-- The rules for one entry, where no directory is ruled out for what it is. -/
private theorem not_excluded_iff {chain : List String} {name : String} {n : Node} (hnames : node.WellNamed)
    (hpseudo : NoPseudoRoots root node) (hat : node.at? (chain ++ [name]) = some n) :
    excluded hidden (SlashPath.along root (chain ++ [name])) name n.isDir = false ↔
      trashName ∉ SlashPath.components root ++ (chain ++ [name]) ∧
        (hidden = true ∨ name.toList.head? ≠ some '.') := by
  have hkept : (n.isDir && pseudoRoots.any (sameSpelling (SlashPath.along root (chain ++ [name])))) = false := by
    cases hdir : n.isDir with
    | false => rfl
    | true => exact hpseudo _ n (by simp) hat hdir
  rw [excluded, hkept, SlashPath.components_along (hnames.names hat), Bool.or_false]
  cases hidden <;> simp

/-- What a walk yields is what is to be indexed. -/
theorem Walks.mem_iff (h : Walks hidden root node chains) (hnames : node.WellNamed)
    (hpseudo : NoPseudoRoots root node) (chain : List String) :
    chain ∈ chains ↔ IsIndexed hidden root node chain := by
  induction chain using List.reverseRecOn with
  | nil => simp [h.start, IsIndexed, Node.at?]
  | append_singleton chain name ih =>
    -- the rules look at one entry, and the hypothesis is on the directory that has it
    rw [h.below, ih]
    constructor
    · rintro ⟨⟨-, hchain⟩, n, hat, hkept⟩
      obtain ⟨htrash, hvisible⟩ := (not_excluded_iff hnames hpseudo hat).mp hkept
      simp only [List.mem_append, List.mem_singleton, not_or] at htrash
      refine ⟨by rw [hat]; rfl, .inr ⟨htrash.1, fun other hother => ?_⟩⟩
      rcases List.mem_append.mp hother with hother | hother
      · obtain rfl | ⟨-, hall⟩ := hchain
        · exact absurd hother List.not_mem_nil
        · exact hall other hother
      · obtain rfl := List.mem_singleton.mp hother
        exact ⟨Ne.symm htrash.2.2, hvisible⟩
    · rintro ⟨hsome, hchain⟩
      obtain ⟨n, hat⟩ := Option.isSome_iff_exists.mp hsome
      obtain ⟨htrash, hall⟩ := hchain.resolve_left (by simp)
      have habove : (node.at? chain).isSome = true := by
        rw [Node.at?_append] at hat
        obtain ⟨m, hm, -⟩ := Option.bind_eq_some_iff.mp hat
        rw [hm]
        rfl
      have hbelow : ∀ other ∈ chain, other ≠ trashName ∧ (hidden = true ∨ other.toList.head? ≠ some '.') :=
        fun other hother => hall other (List.mem_append_left _ hother)
      refine ⟨⟨habove, .inr ⟨htrash, hbelow⟩⟩, n, hat, (not_excluded_iff hnames hpseudo hat).mpr ⟨?_, ?_⟩⟩
      · rw [List.mem_append, not_or]
        exact ⟨htrash, fun hmem => (hall trashName hmem).1 rfl⟩
      · exact (hall name (by simp)).2

/-- There is an entry to record wherever the tree has one, and it has the path of its place. -/
theorem exists_entry_visitAt (root : String) (top : Node) {chain : List String}
    (h : (node.at? chain).isSome = true) :
    ∃ e, Visit.entry? (visitAt root top node chain) = some e ∧ e.path = SlashPath.along root chain := by
  have hsome : ∃ n, (visitAt root top node chain).node = some n := by
    unfold visitAt
    split
    · exact ⟨top, rfl⟩
    · exact Option.isSome_iff_exists.mp h
  obtain ⟨n, hn⟩ := hsome
  exact ⟨_, by rw [Visit.entry?, hn, Option.map_some], rfl⟩

private theorem isSome_entry_of_visits (root : String) (top : Node)
    (h : ∀ chain ∈ chains, (node.at? chain).isSome = true) :
    ∀ visit ∈ chains.map (visitAt root top node), visit.entry?.isSome = true := by
  intro visit hvisit
  obtain ⟨chain, hchain, rfl⟩ := List.mem_map.mp hvisit
  obtain ⟨e, he, -⟩ := exists_entry_visitAt root top (h chain hchain)
  rw [he]
  rfl

private theorem paths_of_visits (root : String) (top : Node)
    (h : ∀ chain ∈ chains, (node.at? chain).isSome = true) :
    ((chains.map (visitAt root top node)).filterMap Visit.entry?).map Entry.path =
      chains.map (SlashPath.along root) := by
  rw [List.map_filterMap, List.filterMap_map, ← List.filterMap_eq_map]
  apply List.filterMap_congr
  intro chain hchain
  obtain ⟨e, he, hpath⟩ := exists_entry_visitAt root top (h chain hchain)
  simp only [Function.comp_apply, he, Option.map_some, hpath]

end Volume

namespace Indexing
open Volume (Walks NoPseudoRoots IsIndexed visitAt isSome_entry_of_visits paths_of_visits)

/-- A catalog that works records the entry of every visit, when each has one, and these give their terms. -/
theorem recordAll_of_entries {c : Catalog} (hworks : c.store.outage = {}) {visits : List Visit}
    (h : ∀ visit ∈ visits, visit.entry?.isSome = true) :
    recordAll c visits = (c.persistAll (visits.filterMap Visit.entry?),
      (visits.filterMap Visit.entry?).foldl Harvest.addEntry {}) := by
  have hrecord (state : Catalog × Harvest) :
      visits.foldl record state = (visits.filterMap Visit.entry?).foldl recordEntry state := by
    induction visits generalizing state with
    | nil => rfl
    | cons visit rest ih =>
      obtain ⟨e, he⟩ := Option.isSome_iff_exists.mp (h visit (by simp))
      have hstep : record state visit = recordEntry state e := by simp only [record, he]
      rw [List.foldl_cons, hstep, ih fun other hother => h other (by simp [hother]), List.filterMap_cons_some he,
        List.foldl_cons]
  rw [recordAll, hrecord, foldl_recordEntry hworks]

/-- A path along names is among those recorded just if what is there is to be indexed. -/
private theorem along_mem_paths {hidden : Bool} {root : String} {top node : Node} {es : List Entry}
    (hnames : node.WellNamed) (hmem : ∀ e, e ∈ es ↔ ∃ chain, IsIndexed hidden root node chain ∧
      Visit.entry? (visitAt root top node chain) = some e)
    {chain : List String} (hchain : ∀ name ∈ chain, SlashPath.IsName name ∧ name ≠ ".") :
    SlashPath.along root chain ∈ es.map Entry.path ↔ IsIndexed hidden root node chain := by
  rw [List.mem_map]
  constructor
  · rintro ⟨e, he, hpath⟩
    obtain ⟨chain', hindexed, hentry⟩ := (hmem e).mp he
    obtain ⟨e', he', hpath'⟩ := Volume.exists_entry_visitAt root top hindexed.1
    obtain rfl := Option.some.inj (hentry.symm.trans he')
    obtain ⟨n, hat⟩ := Option.isSome_iff_exists.mp hindexed.1
    obtain rfl := SlashPath.along_inj (hnames.names hat) hchain (hpath'.symm.trans hpath)
    exact hindexed
  · intro hindexed
    obtain ⟨e, he, hpath⟩ := Volume.exists_entry_visitAt root top hindexed.1
    exact ⟨e, (hmem e).mpr ⟨chain, hindexed, he⟩, hpath⟩

/-- A hidden directory with a plain file, a hidden file, one in the trash, and one in a directory. -/
def hiddenDirectory : Node :=
  .dir ⟨⟨1, 2, 0⟩, 0⟩ [("a", .file ⟨⟨1, 3, 0⟩, 0⟩ .empty), (".b", .file ⟨⟨1, 4, 0⟩, 0⟩ .empty),
    (".nas-trash", .dir ⟨⟨1, 5, 0⟩, 0⟩ [("x", .file ⟨⟨1, 6, 0⟩, 0⟩ .empty)]),
    ("d", .dir ⟨⟨1, 7, 0⟩, 0⟩ [("e", .file ⟨⟨1, 8, 0⟩, 0⟩ .empty)])]

def hiddenVolume : Volume := ⟨.dir ⟨⟨1, 1, 0⟩, 0⟩ [(".keep", hiddenDirectory)], [], 9, 0⟩

private theorem wellNamed_hiddenDirectory : hiddenDirectory.WellNamed := by
  have hfile (stat : Stat) (contents : Contents) : (Node.file stat contents).WellNamed :=
    Node.wellNamed_of_not_dir rfl
  have hone (stat : Stat) (name : String) (n : Node) (hname : SlashPath.IsName name ∧ name ≠ ".")
      (hn : n.WellNamed) : (Node.dir stat [(name, n)]).WellNamed :=
    Node.wellNamed_dir (List.nodup_singleton _) (by simpa using hname) (by simpa using hn)
  refine Node.wellNamed_dir (by decide) (by unfold SlashPath.IsName; decide) ?_
  simp only [List.forall_mem_cons, List.not_mem_nil, false_implies, implies_true, and_true, hfile, true_and]
  constructor
  · exact hone _ "x" _ (by unfold SlashPath.IsName; decide) (hfile _ _)
  · exact hone _ "e" _ (by unfold SlashPath.IsName; decide) (hfile _ _)

private theorem noPseudoRoots_hiddenDirectory : NoPseudoRoots "/.keep" hiddenDirectory := by
  intro chain n hchain hat hdir
  have hroot : SlashPath.components "/.keep" = [".keep"] := by decide
  have hothers : ∀ q ∈ Volume.pseudoRoots, (SlashPath.components q).head? ≠ some ".keep" := by
    decide
  refine List.any_eq_false.mpr fun q hq => ?_
  rw [Volume.sameSpelling, SlashPath.components_along (wellNamed_hiddenDirectory.names hat), hroot]
  have hne : [".keep"] ++ chain ≠ SlashPath.components q := by
    intro hsame
    exact hothers q hq (by rw [← hsame]; rfl)
  rw [beq_eq_false_iff_ne.mpr hne, Bool.and_false]
  exact Bool.false_ne_true

end Indexing

end VolumeSearch
