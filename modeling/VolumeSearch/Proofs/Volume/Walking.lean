import Mathlib.Data.List.Nodup
import Mathlib.Tactic.Common
import VolumeSearch.Proofs.Volume.Listing

/-! The chains of names that a walk goes along. An entry is ruled out by itself and with all that lies below it,
so a chain is met when none of its entries is ruled out. -/
namespace VolumeSearch

namespace Visit

/-- What is met at the end of a chain of names from a node with a path and a name. -/
def along (path name : String) (node : Node) (chain : List String) : Visit where
  path := SlashPath.along path chain
  name := chain.getLastD name
  node := node.at? chain

theorem along_cons {path first : String} {node child : Node} (hchild : node.child? first = some child)
    (name : String) (rest : List String) : along path name node (first :: rest) =
      along (SlashPath.child path first) first child rest := by
  simp only [along, SlashPath.along, List.foldl_cons, List.getLastD_cons, Node.at?, hchild, Option.bind_some]

end Visit

namespace Volume

def Passes (hidden : Bool) : String → Node → List String → Prop
  | _, _, [] => True
  | path, node, name :: rest => ∃ child, node.child? name = some child ∧
      excluded hidden (SlashPath.child path name) name child.isDir = false ∧
      Passes hidden (SlashPath.child path name) child rest

/-- The visits are those along the chains with a property, each once. -/
def Meets (path name : String) (node : Node) (property : List String → Prop) (visits : List Visit) : Prop :=
  ∃ chains : List (List String), visits = chains.map (Visit.along path name node) ∧ chains.Nodup ∧
    ∀ chain, chain ∈ chains ↔ property chain

variable {hidden : Bool} {path name first : String} {node child : Node}

private theorem meets_entry (name : String) (hchild : node.child? first = some child)
    (hbelow : Meets (SlashPath.child path first) first child
      (fun chain => chain ≠ [] ∧ Passes hidden (SlashPath.child path first) child chain)
      (visitsBelow hidden (SlashPath.child path first) child)) :
    Meets path name node (fun chain => ∃ rest, chain = first :: rest ∧ Passes hidden path node chain)
      (if excluded hidden (SlashPath.child path first) first child.isDir then []
        else ⟨SlashPath.child path first, first, some child⟩ ::
          visitsBelow hidden (SlashPath.child path first) child) := by
  have hpasses (rest : List String) : Passes hidden path node (first :: rest) ↔
      excluded hidden (SlashPath.child path first) first child.isDir = false ∧
        Passes hidden (SlashPath.child path first) child rest := by
    simp [Passes, hchild]
  split
  · next hexcluded =>
    refine ⟨[], rfl, List.nodup_nil, fun chain => ?_⟩
    simp only [List.not_mem_nil, false_iff]
    rintro ⟨rest, rfl, hpass⟩
    exact absurd ((hpasses rest).mp hpass).1 (by simp [hexcluded])
  · next hkept =>
    obtain ⟨chains, hvisits, hnodup, hmem⟩ := hbelow
    refine ⟨([] :: chains).map (first :: ·), ?_, ?_, fun chain => ?_⟩
    · rw [hvisits, List.map_map, List.map_cons]
      refine congrArg₂ _ ?_ (List.map_congr_left fun rest _ => ?_)
      · exact (Visit.along_cons hchild name []).symm
      · exact (Visit.along_cons hchild name rest).symm
    · -- the chains below are not empty, so the entry itself is met once
      have hnil : [] ∉ chains := fun h => ((hmem []).mp h).1 rfl
      exact (List.nodup_cons.mpr ⟨hnil, hnodup⟩).map (List.cons_injective)
    · simp only [List.mem_map, List.mem_cons, hmem]
      constructor
      · rintro ⟨rest, hrest, rfl⟩
        refine ⟨rest, rfl, (hpasses rest).mpr ⟨by simpa using hkept, ?_⟩⟩
        obtain rfl | ⟨-, hpass⟩ := hrest
        · trivial
        · exact hpass
      · rintro ⟨rest, rfl, hpass⟩
        by_cases hrest : rest = []
        · exact ⟨rest, .inl hrest, rfl⟩
        · exact ⟨rest, .inr ⟨hrest, ((hpasses rest).mp hpass).2⟩, rfl⟩

/-- Among entries of a directory are met the chains that start with one of them. -/
private theorem meets_entries {entries : List (String × Node)} (hnodup : (entries.map (·.1)).Nodup)
    (hentries : ∀ p ∈ entries, node.child? p.1 = some p.2)
    (hbelow : ∀ p ∈ entries, ∀ path name, Meets path name p.2
      (fun chain => chain ≠ [] ∧ Passes hidden path p.2 chain) (visitsBelow hidden path p.2)) :
    Meets path name node (fun chain => ∃ p ∈ entries, ∃ rest, chain = p.1 :: rest ∧ Passes hidden path node chain)
      (visitsAmong hidden path entries) := by
  induction entries with
  | nil => exact ⟨[], by simp [visitsAmong], List.nodup_nil, by simp⟩
  | cons p others ih =>
    obtain ⟨hnew, hothers⟩ := List.nodup_cons.mp hnodup
    obtain ⟨chains, hvisits, hchains, hmem⟩ := meets_entry name (hentries p (by simp))
      (hbelow p (by simp) (SlashPath.child path p.1) p.1)
    obtain ⟨chains', hvisits', hchains', hmem'⟩ := ih hothers (fun q hq => hentries q (by simp [hq]))
      fun q hq => hbelow q (by simp [hq])
    refine ⟨chains ++ chains', ?_, ?_, fun chain => ?_⟩
    · rw [visitsAmong, List.map_append, ← hvisits, ← hvisits']
    · refine List.nodup_append.mpr ⟨hchains, hchains', ?_⟩
      -- chains of different entries start with different names
      rintro chain hchain _ hchain' rfl
      obtain ⟨rest, rfl, -⟩ := (hmem chain).mp hchain
      obtain ⟨q, hq, rest', hsame, -⟩ := (hmem' _).mp hchain'
      exact hnew (List.mem_map.mpr ⟨q, hq, (List.cons.inj hsame).1.symm⟩)
    · simp only [List.mem_append, hmem, hmem', List.mem_cons, exists_eq_or_imp]

theorem meets_below (hidden : Bool) (hnames : node.WellNamed) (path name : String) :
    Meets path name node (fun chain => chain ≠ [] ∧ Passes hidden path node chain)
      (visitsBelow hidden path node) := by
  induction node using Node.induction generalizing path name with
  | file stat contents | link stat target | device stat =>
    refine ⟨[], by simp [visitsBelow], List.nodup_nil, fun chain => ?_⟩
    cases chain <;> simp [Passes, Node.child?, Node.entries]
  | dir stat entries ih =>
    obtain ⟨hnodup, -⟩ := hnames [] stat entries rfl
    have hentries : ∀ p ∈ entries, (Node.dir stat entries).child? p.1 = some p.2 :=
      fun p hp => Node.child?_of_mem hnodup hp
    obtain ⟨chains, hvisits, hchains, hmem⟩ := meets_entries hnodup hentries
      fun p hp => ih p hp (hnames.below (hentries p hp))
    refine ⟨chains, ?_, hchains, fun chain => (hmem chain).trans ?_⟩
    · rw [visitsBelow]
      exact hvisits
    · constructor
      · rintro ⟨p, -, rest, rfl, hpass⟩
        exact ⟨List.cons_ne_nil _ _, hpass⟩
      · rintro ⟨hne, hpass⟩
        obtain ⟨first, rest, rfl⟩ := List.exists_cons_of_ne_nil hne
        have hpass' := hpass
        obtain ⟨child, hchild, -⟩ := hpass'
        exact ⟨(first, child), Node.mem_of_child? hchild, rest, rfl, hpass⟩

/-- The chains of names that a walk from a root yields: the root always, and an entry below it just if the
directory that has it is yielded and the entry is not ruled out. Each is yielded once. What is no directory, as a
link, has no entries, so nothing below it is yielded. -/
structure Walks (hidden : Bool) (root : String) (node : Node) (chains : List (List String)) : Prop where
  once : chains.Nodup
  start : [] ∈ chains
  below : ∀ chain name, chain ++ [name] ∈ chains ↔ chain ∈ chains ∧ ∃ n, node.at? (chain ++ [name]) = some n ∧
    excluded hidden (SlashPath.along root (chain ++ [name])) name n.isDir = false

private theorem passes_append (chain : List String) (name : String) :
    Passes hidden path node (chain ++ [name]) ↔ Passes hidden path node chain ∧
      ∃ n, node.at? (chain ++ [name]) = some n ∧
        excluded hidden (SlashPath.along path (chain ++ [name])) name n.isDir = false := by
  induction chain generalizing path node with
  | nil =>
    simp only [List.nil_append, Passes, true_and, and_true, Node.at?, SlashPath.along, List.foldl_cons,
      List.foldl_nil]
    cases node.child? name <;> simp
  | cons first rest ih =>
    have halong (names : List String) : SlashPath.along path (first :: names) =
        SlashPath.along (SlashPath.child path first) names := rfl
    simp only [List.cons_append, Passes, ih, Node.at?, halong]
    cases node.child? first <;> simp [and_assoc]

/-- What is met at the end of a chain from a root. The root may be a link, and is then met as that. -/
def visitAt (root : String) (top node : Node) (chain : List String) : Visit :=
  { Visit.along root (SlashPath.fileName root) node chain with
    node := if chain = [] then some top else node.at? chain }

/-- The walk of a volume goes along the chains that it should yield. -/
theorem walk_eq {v : Volume} {root : String} {top : Node} (hroot : root ≠ standardInput.1)
    (hnode : v.find? root = some node) (htop : v.findLink? root = some top) (hnames : node.WellNamed)
    (hidden : Bool) :
    ∃ chains, Walks hidden root node chains ∧ v.walk hidden root = chains.map (visitAt root top node) := by
  obtain ⟨chains, hvisits, hnodup, hmem⟩ := meets_below hidden hnames root (SlashPath.fileName root)
  have hnil : [] ∉ chains := fun h => ((hmem []).mp h).1 rfl
  have hall (chain : List String) : chain ∈ [] :: chains ↔ Passes hidden root node chain := by
    rw [List.mem_cons, hmem]
    by_cases hchain : chain = []
    · simp [hchain, Passes]
    · simp [hchain]
  refine ⟨[] :: chains, ⟨List.nodup_cons.mpr ⟨hnil, hnodup⟩, by simp, fun chain name => ?_⟩, ?_⟩
  · rw [hall, hall]
    exact passes_append chain name
  · rw [walk, if_neg hroot, hnode, htop, List.map_cons]
    refine congrArg₂ _ rfl (hvisits.trans (List.map_congr_left fun chain hchain => ?_))
    have hne : chain ≠ [] := ((hmem chain).mp hchain).1
    rw [visitAt, if_neg hne]
    rfl

/-- Whatever a walk meets has the path of a chain of names from the root, and is an entry of the tree. -/
theorem path_of_mem_walk {v : Volume} {root : String} {visit : Visit} (hroot : root ≠ standardInput.1)
    (hnames : v.root.WellNamed) (hvisit : visit ∈ v.walk hidden root) (hnode : visit.node.isSome) :
    ∃ front chain, (v.root.at? (front ++ chain)).isSome ∧ visit.path = SlashPath.along root chain := by
  rw [walk, if_neg hroot] at hvisit
  cases hfind : v.find? root with
  | none =>
    rw [hfind] at hvisit
    exact absurd hvisit List.not_mem_nil
  | some node =>
    obtain ⟨front, -, hat⟩ := Option.bind_eq_some_iff.mp hfind
    have hbelow (chain : List String) : v.root.at? (front ++ chain) = node.at? chain := by
      rw [Node.at?_append, hat, Option.bind_some]
    rw [hfind] at hvisit
    rcases List.mem_cons.mp hvisit with rfl | hvisit
    · exact ⟨front, [], by rw [hbelow]; rfl, rfl⟩
    · obtain ⟨chains, hvisits, -, -⟩ := meets_below hidden (hnames.at? hat) root (SlashPath.fileName root)
      rw [hvisits] at hvisit
      obtain ⟨chain, -, rfl⟩ := List.mem_map.mp hvisit
      exact ⟨front, chain, by rw [hbelow]; exact hnode, rfl⟩

end Volume

end VolumeSearch
