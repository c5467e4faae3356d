import Mathlib.Tactic.Common
import VolumeSearch.CommandLine.Run
import VolumeSearch.Proofs.Catalog.Place
import VolumeSearch.Proofs.Indexing.Harvests
import VolumeSearch.Proofs.Search.Candidates
import VolumeSearch.Proofs.SlashPath.Absolute
import VolumeSearch.Proofs.Volume.Walking

/-! The roots that a command is given, and the paths under which the catalog then has what lies below them. Queries
look for shortest paths; a root is only made absolute, so what its argument spells differently is stored so. -/
namespace VolumeSearch.CommandLine
open VolumeSearch.SlashPath

variable {m opened : Machine} {g : Globals} {s : Settings} {given roots : List String} {hidden : Bool}
  {dir : String} {chain : List String} {c : Catalog}

def asked (given : List String) (s : Settings) : List String := if given.isEmpty then s.roots else given

theorem absolute?_of_mem_roots (h : rootsOf m given s = .ok roots) :
    ∀ root ∈ roots, ∃ arg ∈ asked given s, absolute? m.here arg = some root := by
  have hasked : (if given.isEmpty then s.roots else given) = asked given s := rfl
  simp only [rootsOf, hasked] at h
  split at h
  · cases h
  · intro root hroot
    obtain ⟨arg, harg, habsolute⟩ := Search.exists_of_mapM h root hroot
    refine ⟨arg, harg, ?_⟩
    split at habsolute
    · next path hpath => rw [hpath, Except.ok.inj habsolute]
    · cases habsolute

/-- No absolute path is taken for the standard input. -/
theorem ne_standardInput {arg root : String} (hrooted : isRooted m.here = true)
    (hroot : absolute? m.here arg = some root) : root ≠ Volume.standardInput.1 := by
  rintro rfl
  exact absurd (isRooted_absolute? hrooted hroot) (by decide)

def met (v : Volume) (hidden : Bool) (roots : List String) : List Entry :=
  (roots.map fun root => (v.walk hidden root).map Visit.entry?).flatten.filterMap id

theorem mem_met {v : Volume} {e : Entry} :
    e ∈ met v hidden roots ↔ ∃ root ∈ roots, ∃ visit ∈ v.walk hidden root, visit.entry? = some e := by
  simp [met]

theorem lookup_putCatalog (m : Machine) (chain : List String) (c : Catalog) :
    (m.putCatalog chain c).catalogs.lookup chain = some c := by
  simp [Machine.putCatalog]

theorem lookup_runIndex (m : Machine) (dir : String) (chain : List String) (c : Catalog) (hidden : Bool)
    (roots : List String) :
    (runIndex m dir chain c hidden roots).1.catalogs.lookup chain = some (c.persistAll (met m.volume hidden roots)) := by
  have hcatalog := Indexing.catalog_run m.volume c (Volume.Folder.mk m.volume dir) hidden roots
  simp only [runIndex]
  split <;> exact (lookup_putCatalog m chain _).trans (congrArg some hcatalog)

/-- Opening a store changes nothing but the volume, and that as the store asks. -/
theorem machine_of_openStore {result : Except Failure (List String × Catalog)}
    (h : m.openStore dir = (opened, result)) :
    opened = { m with volume := (m.volume.apply (Catalog.openAt dir)).1 } := by
  have hmachine : (m.openStore dir).1 = { m with volume := (m.volume.apply (Catalog.openAt dir)).1 } := by
    unfold Machine.openStore
    split
    · next machine _ hedit => exact (congrArg Prod.fst hedit).symm
    · next machine _ hedit => exact (congrArg Prod.fst hedit).symm
  rw [h] at hmachine
  exact hmachine

theorem here_of_openStore {result : Except Failure (List String × Catalog)}
    (h : m.openStore dir = (opened, result)) : opened.here = m.here := by
  rw [machine_of_openStore h]

theorem named_of_openStore {result : Except Failure (List String × Catalog)} (hnamed : m.volume.Named)
    (h : m.openStore dir = (opened, result)) : opened.volume.Named := by
  rw [machine_of_openStore h]
  exact Catalog.keeps_openAt dir m.volume hnamed

theorem openStore_of_isPlace (h : Catalog.IsPlace m.volume dir chain) :
    m.openStore dir = (m, .ok (chain, (m.catalogs.lookup chain).getD .empty)) := by
  have hedit : m.edit (Catalog.openAt dir) = (m, .ok chain) := by
    rw [Machine.edit, h.openAt]
  rw [Machine.openStore, hedit]

theorem rootsOf_congr {m' : Machine} (h : m'.here = m.here) : rootsOf m' given s = rootsOf m given s := by
  simp only [rootsOf, h]

/-- With a store that opens and roots to walk, indexing is one pass over the roots. -/
theorem runCommand_index (hopen : m.openStore (storeDirOf m g s) = (opened, .ok (chain, c)))
    (hroots : rootsOf m given s = .ok roots) (parallel : Bool) : runCommand m g s (.index given hidden parallel) =
      runIndex opened (indexDirOf m g s) chain c (hidden || s.includeHidden) roots := by
  rw [← rootsOf_congr (here_of_openStore hopen)] at hroots
  delta runCommand
  dsimp only
  rw [hopen]
  dsimp only
  rw [hroots]

/-- So it is when an index is asked for that is not complete. -/
theorem runCommand_ensure (hopen : m.openStore (storeDirOf m g s) = (opened, .ok (chain, c)))
    (hroots : rootsOf m given s = .ok roots)
    (hmissing : Index.isComplete (opened.volume.indexAt (indexDirOf m g s)) = false) :
    runCommand m g s (.ensure given hidden) =
      runIndex opened (indexDirOf m g s) chain c (hidden || s.includeHidden) roots := by
  rw [← rootsOf_congr (here_of_openStore hopen)] at hroots
  delta runCommand
  dsimp only
  rw [hopen]
  dsimp only
  rw [hmissing, hroots]
  rfl

/-- What is met below a root has its path made of the root and of names that lead down. -/
theorem path_of_mem_met {v : Volume} {e : Entry} (hroots : ∀ root ∈ roots, root ≠ Volume.standardInput.1)
    (hnamed : v.Named) (he : e ∈ met v hidden roots) :
    ∃ root ∈ roots, ∃ names, (∀ name ∈ names, IsEntryName name) ∧ e.path = along root names := by
  obtain ⟨root, hroot, visit, hvisit, hentry⟩ := mem_met.mp he
  obtain ⟨node, hnode, rfl⟩ := Option.map_eq_some_iff.mp hentry
  obtain ⟨front, names, hsome, hpath⟩ :=
    Volume.path_of_mem_walk (hroots root hroot) hnamed.root.wellNamed hvisit (by simp [hnode])
  refine ⟨root, hroot, names, fun name hname => ?_, hpath⟩
  obtain ⟨n, hat⟩ := Option.isSome_iff_exists.mp hsome
  exact hnamed.root.names hat name (List.mem_append_right front hname)

/-- A root that leads somewhere is met under its own path. -/
theorem exists_met_root {v : Volume} {root : String} (hmem : root ∈ roots) (hroot : root ≠ Volume.standardInput.1)
    (hfind : (v.find? root).isSome) (hlink : (v.findLink? root).isSome) :
    ∃ e ∈ met v hidden roots, e.path = root := by
  obtain ⟨node, hnode⟩ := Option.isSome_iff_exists.mp hfind
  obtain ⟨top, htop⟩ := Option.isSome_iff_exists.mp hlink
  let visit : Visit := ⟨root, fileName root, some top⟩
  have hvisit : visit ∈ v.walk hidden root := by
    rw [Volume.walk, if_neg hroot, hnode, htop]
    exact List.mem_cons_self
  obtain ⟨e, he⟩ : ∃ e, visit.entry? = some e := ⟨_, rfl⟩
  refine ⟨e, mem_met.mpr ⟨root, hmem, visit, hvisit, he⟩, ?_⟩
  obtain rfl := Option.some.inj he
  rfl

/-- Indexing from a cleaned working directory stores the paths of its roots, and below each root the paths of chains
of names. Such a path is a shortest one just when its argument has no step up and does not start with exactly two
slashes, and, for the path of the root itself, when the argument ends in no slash or names the root of the volume. -/
theorem stored_paths_clean_iff (hclean : clean m.here = m.here) (hrooted : isRooted m.here = true)
    (hopen : m.openStore (storeDirOf m g s) = (opened, .ok (chain, c)))
    (hroots : rootsOf m given s = .ok roots) (hnamed : m.volume.Named) :
    ∃ es : List Entry,
      (∀ parallel, (runCommand m g s (.index given hidden parallel)).1.catalogs.lookup chain =
        some (c.persistAll es)) ∧
      (Index.isComplete (opened.volume.indexAt (indexDirOf m g s)) = false →
        (runCommand m g s (.ensure given hidden)).1.catalogs.lookup chain = some (c.persistAll es)) ∧
      (∀ root ∈ roots, (opened.volume.find? root).isSome → (opened.volume.findLink? root).isSome →
        ∃ e ∈ es, e.path = root) ∧
      ∀ e ∈ es, ∃ arg ∈ asked given s, ∃ root names, absolute? m.here arg = some root ∧
        (∀ name ∈ names, IsEntryName name) ∧ e.path = along root names ∧
        (clean e.path = e.path ↔ ".." ∉ segments arg ∧ origin m.here arg ≠ "//" ∧
          (names = [] → endsInSlash arg = true → root = "/")) := by
  have hsource := absolute?_of_mem_roots hroots
  have hpaths : ∀ root ∈ roots, root ≠ Volume.standardInput.1 := by
    intro root hroot
    obtain ⟨arg, -, habsolute⟩ := hsource root hroot
    exact ne_standardInput hrooted habsolute
  have hrun := lookup_runIndex opened (indexDirOf m g s) chain c (hidden || s.includeHidden) roots
  refine ⟨met opened.volume (hidden || s.includeHidden) roots, ?_, ?_,
    fun root hroot => exists_met_root hroot (hpaths root hroot), fun e he => ?_⟩
  · intro parallel
    rwa [runCommand_index hopen hroots]
  · intro hmissing
    rwa [runCommand_ensure hopen hroots hmissing]
  · obtain ⟨root, hroot, names, hdown, hpath⟩ := path_of_mem_met hpaths (named_of_openStore hnamed hopen) he
    obtain ⟨arg, harg, habsolute⟩ := hsource root hroot
    refine ⟨arg, harg, root, names, habsolute, hdown, hpath, ?_⟩
    rw [hpath]
    exact clean_along_absolute hclean hrooted habsolute hdown

def smallVolume : Volume where
  root := .dir ⟨⟨1, 1, 0⟩, 0⟩ [("blobs", .dir ⟨⟨1, 2, 0⟩, 0⟩ []),
    ("conf", .file ⟨⟨1, 3, 0⟩, 0⟩ (.ofBytes (Catalog.formText ++ Catalog.checkSum))),
    ("db", .file ⟨⟨1, 4, 0⟩, 0⟩ .empty), ("d", .dir ⟨⟨1, 5, 0⟩, 0⟩ [("a", .file ⟨⟨1, 6, 0⟩, 0⟩ .empty)])]
  here := []
  nextInode := 7

def smallMachine : Machine where
  volume := smallVolume
  here := "/"
  home := "/"

def smallSettings : Settings := { storeDir := some "/" }

private theorem find?_smallVolume {path : String} {node : Node} (name : String) (hrefused : Volume.refusal? path = none)
    (hrooted : isRooted path = true) (hsteps : Volume.steps path = [name])
    (hname : name ≠ "." ∧ name ≠ ".." ∧ name.utf8ByteSize ≤ Volume.maxName)
    (hsome : smallVolume.root.child? name = some node) (hlink : ∀ inner target, node ≠ .link inner target) :
    smallVolume.find? path = some node :=
  (Volume.find?_of_lookup rfl hrefused hrooted hsteps hname.1 hname.2.1 hname.2.2 hsome hlink).1

private theorem isPlace_smallVolume : Catalog.IsPlace smallVolume "/" ["db"] where
  large := by
    have hfind : smallVolume.find? (Catalog.largeValues "/") = some (.dir ⟨⟨1, 2, 0⟩, 0⟩ []) :=
      find?_smallVolume "blobs" (by decide) (by decide) (by decide) (by decide) rfl (by simp)
    rw [Volume.hasDirectory, hfind]
  form := by
    have hfind : smallVolume.find? (Catalog.formFile "/") =
        some (.file ⟨⟨1, 3, 0⟩, 0⟩ (.ofBytes (Catalog.formText ++ Catalog.checkSum))) :=
      find?_smallVolume "conf" (by decide) (by decide) (by decide) (by decide) rfl (by simp)
    exact ⟨_, congrArg (Option.bind · Node.contents?) hfind, by decide +kernel, Catalog.accepts_form⟩
  resolved := by
    have hrefused : Volume.refusal? (Catalog.dataFile "/") = none := by decide
    have hsteps : Volume.steps (Catalog.dataFile "/") = ["db"] := by decide
    rw [Volume.resolve, hrefused, hsteps]
    exact Volume.walkFrom_of_lookup rfl (by decide) (by decide) (by decide) (by decide) rfl (by simp) _
  data := ⟨_, _, rfl⟩

private theorem named_smallVolume : smallVolume.Named := by
  have hfile (stat : Stat) (contents : Contents) : (Node.file stat contents).Named := Node.named_of_not_dir rfl
  have hempty (stat : Stat) : (Node.dir stat []).Named := Node.named_dir_iff.mpr ⟨List.nodup_nil, by simp⟩
  have hone (stat inner : Stat) (contents : Contents) : (Node.dir stat [("a", .file inner contents)]).Named := by
    refine Node.named_dir_iff.mpr ⟨List.nodup_singleton _, ?_⟩
    simp [hfile, IsEntryName, IsName, IsDown]
  refine ⟨Node.named_dir_iff.mpr ⟨by decide, ?_⟩, fun name hname => absurd hname List.not_mem_nil⟩
  simp [hfile, hempty, hone, IsEntryName, IsName, IsDown]

private theorem rootsOf_small : rootsOf smallMachine ["d/", "d"] smallSettings = .ok ["/d/", "/d"] := by
  rfl

private theorem openStore_small :
    smallMachine.openStore (storeDirOf smallMachine {} smallSettings) = (smallMachine, .ok (["db"], .empty)) :=
  openStore_of_isPlace isPlace_smallVolume

private theorem finds_directory (ending : Volume.Ending) : smallVolume.resolve ending "/d/" = .ok ["d"] := by
  have hrefused : Volume.refusal? "/d/" = none := by decide
  have hsteps : Volume.steps "/d/" = ["d", "."] := by decide
  rw [Volume.resolve, hrefused, hsteps]
  refine (Volume.walkFrom_cons_of_lookup rfl (by decide) (by decide) (by decide) (by decide) rfl (by simp) _ _).trans ?_
  rw [Volume.walkSteps, if_pos rfl, Volume.walkSteps]
  rfl

/-- One directory is indexed under two spellings. -/
theorem stored_paths_of_small :
    (clean smallMachine.here = smallMachine.here ∧ isRooted smallMachine.here = true ∧
      rootsOf smallMachine ["d/", "d"] smallSettings = .ok ["/d/", "/d"]) ∧
    ∃ es : List Entry,
      (∀ parallel, (runCommand smallMachine {} smallSettings (.index ["d/", "d"] false parallel)).1.catalogs.lookup
        ["db"] = some (Catalog.empty.persistAll es)) ∧
      ∀ e ∈ es, ∃ arg ∈ ["d/", "d"], ∃ root names, absolute? "/" arg = some root ∧ e.path = along root names ∧
        (clean e.path = e.path ↔ (names = [] → endsInSlash arg = true → root = "/")) := by
  refine ⟨⟨by decide, by decide, rootsOf_small⟩, ?_⟩
  obtain ⟨es, hindex, -, -, hpaths⟩ := @stored_paths_clean_iff smallMachine smallMachine {} smallSettings ["d/", "d"]
    ["/d/", "/d"] false ["db"] .empty (by decide) (by decide) openStore_small rootsOf_small named_smallVolume
  have hargs : ∀ arg ∈ ["d/", "d"], ".." ∉ segments arg ∧ origin "/" arg ≠ "//" := by decide
  refine ⟨es, hindex, fun e he => ?_⟩
  obtain ⟨arg, harg, root, names, hroot, -, hpath, hiff⟩ := hpaths e he
  rw [and_iff_right (hargs arg harg).1] at hiff
  exact ⟨arg, harg, root, names, hroot, hpath, hiff.trans (and_iff_right (hargs arg harg).2)⟩

/-- A slash behind the argument stays in the stored path, under which no query looks. -/
theorem stored_path_not_clean :
    ∃ c id, (runCommand smallMachine {} smallSettings (.index ["d/"] false false)).1.catalogs.lookup ["db"] = some c ∧
      c.idByPath "/d/" = .ok (some id) ∧ clean "/d/" ≠ "/d/" := by
  have hroots : rootsOf smallMachine ["d/"] smallSettings = .ok ["/d/"] := rfl
  have hrun := lookup_runIndex smallMachine (indexDirOf smallMachine {} smallSettings) ["db"] .empty false ["/d/"]
  obtain ⟨e, he, hpath⟩ := @exists_met_root ["/d/"] false smallVolume "/d/" (by simp) (by decide)
    (by rw [Volume.find?, finds_directory]; rfl) (by rw [Volume.findLink?, finds_directory]; rfl)
  obtain ⟨id, hid⟩ := Catalog.exists_idByPath_persistAll he
  rw [hpath] at hid
  refine ⟨_, id, ?_, hid, by decide⟩
  rwa [runCommand_index openStore_small hroots]

end VolumeSearch.CommandLine
