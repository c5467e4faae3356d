import Mathlib.Data.List.Nodup
import Mathlib.Tactic.Common
import VolumeSearch.Proofs.Volume.Tree
import VolumeSearch.Volume.Walk

namespace VolumeSearch.Volume

variable {v : Volume} {stat : Stat} {entries : List (String × Node)} {path name : String}
  {rest : List String}

/-- Nothing is below a name that the root does not have. -/
theorem find?_eq_none_of_lookup (hroot : v.root = .dir stat entries)
    (hrooted : SlashPath.isRooted path = true) (hsteps : steps path = name :: rest) (hdot : name ≠ ".")
    (hdots : name ≠ "..") (hnone : entries.lookup name = none) : v.find? path = none := by
  rw [find?, resolve]
  cases refusal? path with
  | some fault => rfl
  | none =>
    have htarget : ¬ (rest.isEmpty && decide (Ending.target = Ending.place)) = true := by simp
    simp only [walkFrom, hrooted, if_true, hsteps, hroot]
    rw [walkSteps, if_neg hdot, if_neg hdots]
    simp only [hnone]
    rw [if_neg htarget]
    split <;> rfl

theorem listing?_eq_none_of_lookup (hroot : v.root = .dir stat entries)
    (hsteps : steps path = name :: rest) (hdot : name ≠ ".")
    (hdots : name ≠ "..") (hnone : entries.lookup name = none) : v.listing? path = none := by
  rw [listing?]
  split
  · next hrooted => rw [find?_eq_none_of_lookup hroot hrooted hsteps hdot hdots hnone, Option.map_none]
  · rfl

def OneOfEachName (v : Volume) : Prop :=
  ∀ path stat entries, v.find? path = some (.dir stat entries) → (entries.map (·.1)).Nodup

theorem listing?_nodup (hnames : v.OneOfEachName) {listed : List String}
    (h : v.listing? path = some listed) : listed.Nodup := by
  unfold listing? at h
  split at h
  · obtain ⟨node, hfind, hlisted⟩ := Option.map_eq_some_iff.mp h
    cases node with
    | dir stat entries =>
      obtain rfl := hlisted
      have hsorted := (List.mergeSort_perm (entries.map (·.1)) fun a b => a ≤ b).nodup_iff.mpr
        (hnames path stat entries hfind)
      exact List.Nodup.map (SlashPath.child_injective path) hsorted
    | file stat contents | link stat target | device stat =>
      obtain rfl := hlisted
      exact List.nodup_singleton path
  · cases h

/-- The steps of a path go on from the entry of the root that the first one names, if that is no link. -/
theorem walkFrom_cons_of_lookup (hroot : v.root = .dir stat entries) (hrooted : SlashPath.isRooted path = true)
    (hdot : name ≠ ".") (hdots : name ≠ "..") (hshort : name.utf8ByteSize ≤ maxName) {node : Node}
    (hsome : entries.lookup name = some node) (hlink : ∀ inner target, node ≠ .link inner target)
    (ending : Ending) (rest : List String) :
    v.walkFrom ending path (name :: rest) = walkSteps v.root ending maxLinks [name] node rest := by
  rw [walkFrom, if_pos hrooted, hroot, walkSteps, if_neg hdot, if_neg hdots,
    if_neg (Nat.not_lt.mpr hshort), hsome]
  cases node with
  | link inner target => exact absurd rfl (hlink inner target)
  | file inner contents | device inner | dir inner below => rfl

/-- An entry of the root that is no link is what its name leads to. -/
theorem walkFrom_of_lookup (hroot : v.root = .dir stat entries) (hrooted : SlashPath.isRooted path = true)
    (hdot : name ≠ ".") (hdots : name ≠ "..") (hshort : name.utf8ByteSize ≤ maxName) {node : Node}
    (hsome : entries.lookup name = some node) (hlink : ∀ inner target, node ≠ .link inner target)
    (ending : Ending) : v.walkFrom ending path [name] = .ok [name] := by
  rw [walkFrom_cons_of_lookup hroot hrooted hdot hdots hshort hsome hlink, walkSteps]
  rfl

theorem find?_of_lookup (hroot : v.root = .dir stat entries) (hrefused : refusal? path = none)
    (hrooted : SlashPath.isRooted path = true) (hsteps : steps path = [name])
    (hdot : name ≠ ".") (hdots : name ≠ "..") (hshort : name.utf8ByteSize ≤ maxName) {node : Node}
    (hsome : entries.lookup name = some node) (hlink : ∀ inner target, node ≠ .link inner target) :
    v.find? path = some node ∧ v.findLink? path = some node := by
  have hresolve (ending : Ending) : v.resolve ending path = .ok [name] := by
    rw [resolve, hrefused, hsteps]
    exact walkFrom_of_lookup hroot hrooted hdot hdots hshort hsome hlink ending
  have hat : v.root.at? [name] = some node := by
    rw [hroot, Node.at?, Node.child?, Node.entries, hsome]
    rfl
  rw [find?, findLink?, hresolve, hresolve]
  exact ⟨hat, hat⟩

theorem walk_of_file {root : String} {inner : Stat} {contents : Contents} (hidden : Bool)
    (hroot : root ≠ standardInput.1) (hfind : v.find? root = some (.file inner contents))
    (hlink : v.findLink? root = some (.file inner contents)) :
    v.walk hidden root = [⟨root, SlashPath.fileName root, some (.file inner contents)⟩] := by
  rw [walk, if_neg hroot, hfind, hlink]
  simp only [visitsBelow]

end VolumeSearch.Volume
