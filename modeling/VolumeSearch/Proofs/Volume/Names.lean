import Mathlib.Tactic.Common
import VolumeSearch.Proofs.SlashPath.Shortest
import VolumeSearch.Proofs.Volume.Tree
import VolumeSearch.Volume.Edit

/-! The names in a volume. In no directory a name stands twice, and each leads one step down. Changes keep that,
whether they come to their end or not, since every name that they add is a step of some path. -/
namespace VolumeSearch
open VolumeSearch.SlashPath

namespace Node

/-- The names of every directory in the tree differ, and each leads one step down. -/
structure Named (n : Node) : Prop where
  wellNamed : n.WellNamed
  noStepUp : n.NoStepUp

variable {n m node child : Node} {name : String} {stat : Stat} {entries : List (String × Node)} {chain : List String}

theorem Named.names (h : n.Named) (hat : n.at? chain = some m) : ∀ name ∈ chain, IsEntryName name := by
  intro name hname
  obtain ⟨hisName, hdot⟩ := h.wellNamed.names hat name hname
  have hup : ".." ∉ chain := h.noStepUp chain (Option.isSome_iff_exists.mpr ⟨m, hat⟩)
  exact ⟨hisName, hisName.1, hdot, fun heq => hup (heq ▸ hname)⟩

theorem Named.at? (h : n.Named) (hat : n.at? chain = some m) : m.Named := by
  refine ⟨h.wellNamed.at? hat, fun more hsome hmem => ?_⟩
  have hmore : n.at? (chain ++ more) = m.at? more := by
    rw [at?_append, hat, Option.bind_some]
  rw [← hmore] at hsome
  exact h.noStepUp (chain ++ more) hsome (List.mem_append_right chain hmem)

theorem Named.below (h : n.Named) (hchild : n.child? name = some child) : IsEntryName name ∧ child.Named := by
  have hat : n.at? [name] = some child := by
    rw [Node.at?, hchild]
    rfl
  exact ⟨h.names hat name List.mem_cons_self, h.at? hat⟩

theorem named_of_not_dir (h : n.isDir = false) : n.Named := ⟨wellNamed_of_not_dir h, noStepUp_of_not_dir h⟩

theorem named_dir_iff : (dir stat entries).Named ↔
    (entries.map (·.1)).Nodup ∧ ∀ p ∈ entries, IsEntryName p.1 ∧ p.2.Named := by
  constructor
  · intro h
    obtain ⟨hnodup, -⟩ := h.wellNamed [] stat entries rfl
    exact ⟨hnodup, fun p hp => h.below (child?_of_mem hnodup hp)⟩
  · rintro ⟨hnodup, hentries⟩
    exact ⟨wellNamed_dir hnodup (fun p hp => ⟨(hentries p hp).1.1, (hentries p hp).1.2.2.1⟩)
      fun p hp => (hentries p hp).2.wellNamed,
      noStepUp_dir (fun p hp => (hentries p hp).1.2.2.2) fun p hp => (hentries p hp).2.noStepUp⟩

theorem mem_putEntry {p : String × Node} (h : p ∈ putEntry name node entries) : p = (name, node) ∨ p ∈ entries := by
  induction entries with
  | nil => exact .inl (List.mem_singleton.mp h)
  | cons first rest ih =>
    obtain ⟨other, n⟩ := first
    rw [putEntry] at h
    split at h
    · rcases List.mem_cons.mp h with rfl | hrest
      · exact .inl rfl
      · exact .inr (List.mem_cons_of_mem _ hrest)
    · rcases List.mem_cons.mp h with rfl | hrest
      · exact .inr List.mem_cons_self
      · exact (ih hrest).imp_right (List.mem_cons_of_mem _)

theorem putEntry_nodup (h : (entries.map (·.1)).Nodup) (name : String) (node : Node) :
    ((putEntry name node entries).map (·.1)).Nodup := by
  induction entries with
  | nil => exact List.nodup_singleton name
  | cons first rest ih =>
    obtain ⟨other, n⟩ := first
    obtain ⟨hother, hrest⟩ := List.nodup_cons.mp h
    rw [putEntry]
    split
    · next hsame =>
      rw [hsame] at h
      exact h
    · next hne =>
      refine List.nodup_cons.mpr ⟨fun hmem => ?_, ih hrest⟩
      obtain ⟨p, hp, hname⟩ := List.mem_map.mp hmem
      rcases mem_putEntry hp with rfl | hp
      · exact hne hname.symm
      · exact hother (List.mem_map.mpr ⟨p, hp, hname⟩)

theorem Named.putEntry (h : (dir stat entries).Named) (hname : IsEntryName name) (hnode : node.Named) :
    (dir stat (putEntry name node entries)).Named := by
  obtain ⟨hnodup, hentries⟩ := named_dir_iff.mp h
  refine named_dir_iff.mpr ⟨putEntry_nodup hnodup name node, fun p hp => ?_⟩
  rcases mem_putEntry hp with rfl | hp
  · exact ⟨hname, hnode⟩
  · exact hentries p hp

theorem Named.put? (h : n.Named) (hnode : node.Named) (hchain : ∀ name ∈ chain, IsEntryName name)
    (hput : n.put? chain node = some m) : m.Named := by
  induction chain generalizing n m with
  | nil =>
    obtain rfl := Option.some.inj hput
    exact hnode
  | cons name rest ih =>
    obtain ⟨hname, hrest⟩ := List.forall_mem_cons.mp hchain
    cases n with
    | file stat contents | link stat target | device stat => cases rest <;> cases hput
    | dir stat entries =>
      cases rest with
      | nil =>
        obtain rfl := Option.some.inj hput
        exact h.putEntry hname hnode
      | cons next others =>
        obtain ⟨child, hchild, hput⟩ := Option.bind_eq_some_iff.mp hput
        obtain ⟨changed, hchanged, rfl⟩ := Option.map_eq_some_iff.mp hput
        exact h.putEntry hname (ih (h.below hchild).2 hrest hchanged)

end Node

namespace Volume

/-- All names in the tree, and those that lead to the working directory, are names of entries. -/
structure Named (v : Volume) : Prop where
  root : v.root.Named
  here : ∀ name ∈ v.here, IsEntryName name

variable {v w : Volume} {node : Node} {chain : List String} {name path : String}

theorem Named.putAt (h : v.Named) (hnode : node.Named) (hchain : ∀ name ∈ chain, IsEntryName name) :
    (v.putAt chain node).Named := by
  refine ⟨?_, h.here⟩
  rw [Volume.putAt]
  cases hput : v.root.put? chain node with
  | none => exact h.root
  | some root => exact h.root.put? hnode hchain hput

theorem Named.newStat (h : v.Named) : v.newStat.2.Named := ⟨h.root, h.here⟩

theorem Named.dropAt (h : v.Named) (chain : List String) (name : String) : (v.dropAt chain name).Named := by
  unfold Volume.dropAt
  split
  · next stat entries hat =>
    obtain ⟨hnodup, hentries⟩ := Node.named_dir_iff.mp (h.root.at? hat)
    refine h.putAt (Node.named_dir_iff.mpr ⟨?_, fun p hp => hentries p (List.mem_of_mem_filter hp)⟩) (h.root.names hat)
    exact hnodup.sublist (List.filter_sublist.map _)
  · exact h

theorem isName_of_mem_steps {step : String} (h : step ∈ steps path) : IsName step := by
  rcases List.mem_append.mp h with hsegment | hdot
  · obtain ⟨hmem, hne⟩ := List.mem_filter.mp hsegment
    exact isName_of_mem_segments hmem (by simpa using hne)
  · split at hdot
    · obtain rfl := List.mem_singleton.mp hdot
      exact ⟨by decide, by decide⟩
    · exact absurd hdot List.not_mem_nil

/-- Steps lead along names of entries, through links as well. -/
theorem names_of_walkSteps {root node : Node} {ending : Ending} {links : Nat} {here todo : List String}
    (hhere : ∀ name ∈ here, IsEntryName name) (htodo : ∀ s ∈ todo, IsName s)
    (h : walkSteps root ending links here node todo = .ok chain) : ∀ name ∈ chain, IsEntryName name := by
  have hstep {step : String} {here rest : List String} (hhere : ∀ name ∈ here, IsEntryName name)
      (htodo : ∀ s ∈ step :: rest, IsName s) (hdot : step ≠ ".") (hdots : step ≠ "..") :
      ∀ name ∈ step :: here, IsEntryName name := by
    have hname := htodo step List.mem_cons_self
    exact List.forall_mem_cons.mpr ⟨⟨hname, hname.1, hdot, hdots⟩, hhere⟩
  have hlink {target : String} {step : String} {rest : List String} (htodo : ∀ s ∈ step :: rest, IsName s) :
      ∀ s ∈ steps target ++ rest, IsName s :=
    List.forall_mem_append.mpr ⟨fun _ => isName_of_mem_steps, (List.forall_mem_cons.mp htodo).2⟩
  have hback {here : List String} (hhere : ∀ name ∈ here, IsEntryName name) (h : here.reverse = chain) :
      ∀ name ∈ chain, IsEntryName name := by
    rw [← h]
    exact fun name hname => hhere name (List.mem_reverse.mp hname)
  fun_induction walkSteps root ending links here node todo with
  | case1 => exact hback hhere (Except.ok.inj h)
  | case2 _ _ _ _ _ ih => exact ih hhere (List.forall_mem_cons.mp htodo).2 h
  | case3 _ _ _ _ _ _ ih =>
    exact ih (fun name hname => hhere name (List.mem_of_mem_tail hname)) (List.forall_mem_cons.mp htodo).2 h
  | case5 _ _ _ _ _ _ hdot hdots => exact hback (hstep hhere htodo hdot hdots) (Except.ok.inj h)
  | case7 _ _ _ _ _ _ hdot hdots => exact hback (hstep hhere htodo hdot hdots) (Except.ok.inj h)
  | case9 _ _ _ _ _ _ _ _ _ _ _ _ _ _ ih => exact ih (fun name hname => absurd hname List.not_mem_nil) (hlink htodo) h
  | case10 _ _ _ _ _ _ _ _ _ _ _ _ _ _ ih => exact ih hhere (hlink htodo) h
  | case11 _ _ _ _ _ _ hdot hdots _ _ _ _ ih =>
    exact ih (hstep hhere htodo hdot hdots) (List.forall_mem_cons.mp htodo).2 h
  | case4 | case6 | case8 | case12 => cases h

theorem Named.names_of_walkFrom (h : v.Named) {ending : Ending} {todo : List String}
    (htodo : ∀ s ∈ todo, IsName s) (hwalk : v.walkFrom ending path todo = .ok chain) :
    ∀ name ∈ chain, IsEntryName name := by
  unfold walkFrom at hwalk
  split at hwalk
  · exact names_of_walkSteps (fun name hname => absurd hname List.not_mem_nil) htodo hwalk
  · exact names_of_walkSteps (fun name hname => h.here name (List.mem_reverse.mp hname)) htodo hwalk

theorem Named.names_of_resolve (h : v.Named) {ending : Ending} (hresolve : v.resolve ending path = .ok chain) :
    ∀ name ∈ chain, IsEntryName name := by
  unfold resolve at hresolve
  split at hresolve
  · cases hresolve
  · exact h.names_of_walkFrom (fun s => isName_of_mem_steps) hresolve

/-- The directory of a path's last name is reached along names of entries, and the last name is one. -/
theorem Named.names_of_resolveParent (h : v.Named) (hresolve : v.resolveParent path = .ok (chain, name)) :
    (∀ name ∈ chain, IsEntryName name) ∧ IsEntryName name := by
  have hnames : ∀ s ∈ (segments path).filter (· ≠ ""), IsName s := by
    intro s hs
    obtain ⟨hmem, hne⟩ := List.mem_filter.mp hs
    exact isName_of_mem_segments hmem (by simpa using hne)
  -- every way out but the last one is a fault
  cases hrefused : refusal? path with
  | some fault =>
    simp only [resolveParent, hrefused] at hresolve
    cases hresolve
  | none =>
    simp only [resolveParent, hrefused, bind, Except.bind] at hresolve
    split at hresolve
    · cases hresolve
    · next last hlast =>
      split at hresolve
      · cases hresolve
      · next found hwalk =>
        have hfound := h.names_of_walkFrom (fun s hs => hnames s (List.dropLast_subset _ hs)) hwalk
        split at hresolve
        · split at hresolve
          · cases hresolve
          · next hdots =>
            obtain ⟨hdot, hup⟩ := not_or.mp hdots
            split at hresolve
            · cases hresolve
            · obtain ⟨rfl, rfl⟩ := Prod.mk.inj (Except.ok.inj hresolve)
              have hlast := hnames last (List.mem_of_getLast? hlast)
              exact ⟨hfound, hlast, hlast.1, hdot, hup⟩
        · cases hresolve

section Changes

variable {α β : Type} {a : α} {e : Edit α}

theorem run_of_apply {result : Except PathFault α} (h : v.apply e = (w, result)) : e.run.run v = (result, w) := by
  obtain ⟨hvolume, hresult⟩ := Prod.mk.inj h
  exact Prod.ext hresult hvolume

/-- A change that came to its end goes on with what comes after it. -/
theorem apply_bind_ok (h : v.apply e = (w, .ok a)) (f : α → Edit β) : v.apply (e >>= f) = w.apply (f a) := by
  simp only [apply, ExceptT.run_bind, StateT.run_bind, run_of_apply h]
  rfl

theorem apply_bind_error {fault : PathFault} (h : v.apply e = (w, .error fault)) (f : α → Edit β) :
    v.apply (e >>= f) = (w, .error fault) := by
  simp only [apply, ExceptT.run_bind, StateT.run_bind, run_of_apply h]
  rfl

theorem apply_tryCatch_ok (h : v.apply e = (w, .ok a)) (handler : PathFault → Edit α) :
    v.apply (tryCatch e handler) = (w, .ok a) := by
  simp only [apply, ExceptT.run_tryCatch, StateT.run_bind, run_of_apply h]
  rfl

theorem apply_tryCatch_error {fault : PathFault} (h : v.apply e = (w, .error fault)) (handler : PathFault → Edit α) :
    v.apply (tryCatch e handler) = w.apply (handler fault) := by
  simp only [apply, ExceptT.run_tryCatch, StateT.run_bind, run_of_apply h]
  rfl

theorem apply_get (v : Volume) : v.apply (get : Edit Volume) = (v, .ok v) := rfl

theorem apply_whole_ok {change : Volume → Except PathFault (Volume × α)} (h : change v = .ok (w, a)) :
    v.apply (Edit.whole change) = (w, .ok a) := by
  rw [Edit.whole, apply_bind_ok (apply_get v), h]
  rfl

/-- A change that keeps a volume to names of entries, also when it faults. -/
def Keeps (e : Edit α) : Prop := ∀ v : Volume, v.Named → (v.apply e).1.Named

theorem keeps_pure (a : α) : Keeps (pure a : Edit α) := fun _ h => h

theorem keeps_throw (fault : PathFault) : Keeps (throw fault : Edit α) := fun _ h => h

theorem keeps_get : Keeps (get : Edit Volume) := fun _ h => h

theorem keeps_modify {f : Volume → Volume} (hf : ∀ v : Volume, v.Named → (f v).Named) : Keeps (modify f : Edit Unit) :=
  fun v h => hf v h

theorem Keeps.bind {f : α → Edit β} (he : Keeps e) (hf : ∀ a, Keeps (f a)) : Keeps (e >>= f) := by
  intro v hv
  have hkept := he v hv
  cases hrun : v.apply e with
  | mk w result =>
    rw [hrun] at hkept
    cases result with
    | ok a =>
      rw [apply_bind_ok hrun]
      exact hf a w hkept
    | error fault =>
      rw [apply_bind_error hrun]
      exact hkept

theorem Keeps.tryCatch {handler : PathFault → Edit α} (he : Keeps e) (hhandler : ∀ fault, Keeps (handler fault)) :
    Keeps (tryCatch e handler) := by
  intro v hv
  have hkept := he v hv
  cases hrun : v.apply e with
  | mk w result =>
    rw [hrun] at hkept
    cases result with
    | ok a =>
      rw [apply_tryCatch_ok hrun]
      exact hkept
    | error fault =>
      rw [apply_tryCatch_error hrun]
      exact hhandler fault w hkept

theorem keeps_whole {change : Volume → Except PathFault (Volume × α)}
    (h : ∀ v w a, Named v → change v = .ok (w, a) → Named w) : Keeps (Edit.whole change) := by
  intro v hv
  rw [Edit.whole, apply_bind_ok (apply_get v)]
  cases hchange : change v with
  | error fault => exact hv
  | ok result => exact h v result.1 result.2 hv hchange

theorem keeps_addEntry (path : String) {node : Stat → Node} (hnode : ∀ stat, (node stat).Named) :
    Keeps (addEntry path node) := by
  apply keeps_whole
  intro v w _ hv hchange
  simp only [bind, Except.bind] at hchange
  split at hchange
  · cases hchange
  · next place hplace =>
    obtain ⟨hchain, hname⟩ := hv.names_of_resolveParent hplace
    split at hchange
    · cases hchange
    · obtain ⟨rfl, -⟩ := Prod.mk.inj (Except.ok.inj hchange)
      have hlonger := List.forall_mem_append.mpr ⟨hchain, List.forall_mem_singleton.mpr hname⟩
      exact hv.newStat.putAt (hnode _) hlonger

theorem keeps_makeDir (path : String) : Keeps (makeDir path) :=
  keeps_addEntry path fun stat => Node.named_dir_iff.mpr ⟨List.nodup_nil, by simp⟩

/-- Nothing is done where a directory is there, and else the fault stays. -/
private theorem keeps_unless (path : String) (fault : PathFault) :
    Keeps (do unless (← get).hasDirectory path do throw fault) := by
  refine keeps_get.bind fun v => ?_
  split
  · exact keeps_pure ()
  · exact keeps_throw fault

theorem keeps_ensureDir (path : String) : Keeps (ensureDir path) :=
  (keeps_makeDir path).tryCatch (keeps_unless path)

theorem keeps_makeAll (paths : List String) : Keeps (makeAll paths) := by
  induction paths with
  | nil => exact keeps_pure ()
  | cons path above ih =>
    refine (keeps_makeDir path).tryCatch fun fault => ?_
    split
    · exact ih.bind fun _ => keeps_ensureDir path
    · exact keeps_unless path fault

theorem keeps_makeDirs (path : String) : Keeps (makeDirs path) := keeps_makeAll _

theorem keeps_openFile (path : String) : Keeps (openFile path) := by
  apply keeps_whole
  intro v w chain hv hchange
  simp only [bind, Except.bind] at hchange
  split at hchange
  · cases hchange
  · next found hresolve =>
    split at hchange
    · cases hchange
    · obtain ⟨rfl, -⟩ := Prod.mk.inj (Except.ok.inj hchange)
      exact hv
    · obtain ⟨rfl, -⟩ := Prod.mk.inj (Except.ok.inj hchange)
      exact hv.newStat.putAt (Node.named_of_not_dir rfl) (hv.names_of_resolve hresolve)

theorem keeps_writeFile (path : String) (change : Contents → Contents) : Keeps (writeFile path change) := by
  refine (keeps_openFile path).bind fun chain => keeps_modify fun v hv => ?_
  split
  · next stat contents hat => exact hv.putAt (Node.named_of_not_dir rfl) (hv.root.names hat)
  · exact hv

theorem keeps_rename (path target : String) : Keeps (rename path target) := by
  apply keeps_whole
  intro v w _ hv hchange
  simp only [bind, Except.bind] at hchange
  split at hchange
  · cases hchange
  · next place hplace =>
    split at hchange
    · cases hchange
    · next goal hgoal =>
      obtain ⟨hchain, hname⟩ := hv.names_of_resolveParent hgoal
      split at hchange
      · cases hchange
      · cases hchange
      · next node _ hat _ =>
        obtain ⟨rfl, -⟩ := Prod.mk.inj (Except.ok.inj hchange)
        have hlonger := List.forall_mem_append.mpr ⟨hchain, List.forall_mem_singleton.mpr hname⟩
        exact (hv.dropAt _ _).putAt (hv.root.at? hat) hlonger

end Changes

end Volume

end VolumeSearch
