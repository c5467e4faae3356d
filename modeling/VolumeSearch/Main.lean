import VolumeSearch.Catalog
import VolumeSearch.CommandLine.Run

/-! The program: it copies what a command will look at into a machine, runs the command there, and
writes back what the command changed. -/
namespace VolumeSearch.Main
open VolumeSearch.CommandLine

/-- The platform tells no entry numbers, so the path stands in for them. -/
def statOf (entry : IO.FS.DirEntry) (modified : IO.FS.SystemTime) : Stat :=
  ⟨⟨0, hash entry.path.toString, Int64.ofInt modified.sec⟩,
    modified.sec * 1000 + modified.nsec.toNat / 1000000⟩

inductive Extent where
  /-- What a file holds, and of a directory the files in it and what they hold. -/
  | contents
  /-- What a file holds, and of a directory nothing. -/
  | file
  /-- The names in a directory. -/
  | names
  /-- Everything below a directory, without what files hold. -/
  | tree
  deriving DecidableEq

/-- Copies an entry of a directory, if it is there. -/
partial def copy? (extent : Extent) (entry : IO.FS.DirEntry) : IO (Option Node) := do
  match ← entry.path.symlinkMetadata.toBaseIO with
  | .error _ => return none
  | .ok info =>
    let stat := statOf entry info.modified
    match info.type with
    | .dir =>
      let listed ← match extent, ← entry.path.readDir.toBaseIO with
        | .file, _ | _, .error _ => pure []
        | _, .ok entries => pure entries.toList
      let nodes ← listed.mapM fun below =>
        match extent with
        | .tree => copy? .tree below
        | .contents => copy? .file below
        | _ => pure (some (.file stat (.ofBytes [])))
      return some (.dir stat ((listed.zip nodes).filterMap fun (below, node) =>
        node.map (below.fileName, ·)))
    | .symlink =>
      match ← (IO.FS.realPath entry.path).toBaseIO with
      | .ok target => return some (.link stat target.toString)
      | .error _ => return some (.link stat "")
    | _ =>
      if extent = .contents ∨ extent = .file then
        match ← (IO.FS.readBinFile entry.path).toBaseIO with
        | .ok data => return some (.file stat (.ofBytes data.toList))
        | .error _ => return none
      else return some (.file stat ⟨[], info.byteSize.toNat⟩)

def graft (m : Machine) (path : String) (node : Node) : Machine :=
  (m.edit (do
    Volume.makeParents path
    Volume.Edit.whole fun v => do
      let (chain, name) ← v.resolveParent path
      return (v.putAt (chain ++ [name]) node, ()))).1

def fetchEntry (m : Machine) (extent : Extent) (path : String) : IO Machine := do
  match ← copy? extent ⟨"/", path⟩ with
  | none => return m
  | some node =>
    let m := graft m path node
    match node with
    | .link _ target =>
      match ← copy? extent ⟨"/", target⟩ with
      | some led => return graft m target led
      | none => return m
    | _ => return m

def fetch (m : Machine) (extent : Extent) (path : String) : IO Machine := do
  let full := SlashPath.within m.here path
  let m ← (SlashPath.ancestors full).tail.reverse.foldlM (fun (m : Machine) path => do
    if m.volume.has path then return m else fetchEntry m .file path) m
  fetchEntry m extent full

def start : IO Machine := do
  let here := (← IO.currentDir).toString
  let root : Volume := { root := .dir ⟨⟨0, 0, 0⟩, 0⟩ [], here := [] }
  let (volume, _) := root.apply (Volume.makeDirs here)
  let volume := { volume with here := (volume.resolve .target here).toOption.getD [] }
  let m : Machine :=
    { volume, here, dataHome := ← IO.getEnv "XDG_DATA_HOME", home := (← IO.getEnv "HOME").getD "/" }
  fetch m .contents (SlashPath.within m.dataDir "config.json")

def storeFile (m : Machine) (dir : String) : String :=
  SlashPath.within m.here (Catalog.dataFile dir)

def loadCatalog (m : Machine) (dir : String) : IO Machine := do
  let m ← fetch m .contents dir
  match ← (IO.FS.readBinFile (storeFile m dir)).toBaseIO, (m.openStore dir).2 with
  | .ok data, .ok (chain, _) =>
    match Store.ofBytes? data.toList with
    | some s => return m.putCatalog chain ⟨s⟩
    | none => return m
  | _, _ => return m

/-- The machine with everything that a command looks at. -/
def prepare (m : Machine) (g : Globals) (s : Settings) (command : Command) : IO Machine := do
  let m ← fetch m .contents (indexDirOf m g s)
  match command with
  | .index given _ _ | .ensure given _ =>
    let m ← loadCatalog m (storeDirOf m g s)
    let roots := match rootsOf m given s with
      | .ok roots => roots
      | .error _ => []
    roots.foldlM (fetch · .tree ·) m
  | .search query parent offset limit size =>
    let m ← loadCatalog m (storeDirOf m g s)
    let plan := (requestOf query parent offset.toNat limit.toNat size).plan
    if plan.byPath && SlashPath.isRooted plan.target then fetch m .names plan.target else return m
  | _ => return m

def entriesIn (m : Machine) (dir : String) : List (String × Node) :=
  match m.volume.find? (SlashPath.within m.here dir) with
  | some node => node.entries
  | none => []

def saveDirectory (m : Machine) (dir : String) : IO Unit := do
  if m.volume.hasDirectory dir then IO.FS.createDirAll (SlashPath.within m.here dir)

/-- Writes the files of a directory that a command has changed, and removes those that it took
away. -/
def saveFiles (before after : Machine) (dir : String) : IO Unit := do
  saveDirectory after dir
  let path (name : String) := SlashPath.within after.here (SlashPath.within dir name)
  let old := entriesIn before dir
  let new := entriesIn after dir
  for (name, _) in old do
    if (new.lookup name).isNone then IO.FS.removeFile (path name)
  for (name, node) in new do
    if let .file _ contents := node then
      match old.lookup name with
      | some (.file _ earlier) =>
        if earlier ≠ contents then
          IO.FS.writeBinFile (path name) ⟨contents.toBytes.toArray⟩
      | some _ =>
        IO.FS.removeFile (path name)
        IO.FS.writeBinFile (path name) ⟨contents.toBytes.toArray⟩
      | none => IO.FS.writeBinFile (path name) ⟨contents.toBytes.toArray⟩

def saveCatalog (m : Machine) (dir : String) : IO Unit := do
  if let (_, .ok (_, c)) := m.openStore dir then
    IO.FS.createDirAll (SlashPath.within m.here (Catalog.largeValues dir))
    IO.FS.writeBinFile (storeFile m dir) ⟨c.store.toBytes.toArray⟩

def perform (m : Machine) (args : List String) (g : Globals) (command : Command) : IO Result := do
  let s := match m.settings with
    | .ok s => s
    | .error _ => {}
  let before ← prepare m g s command
  let (after, result) := CommandLine.run before args
  saveDirectory after after.dataDir
  saveDirectory after (storeDirOf after g s)
  match command with
  | .index _ _ _ | .ensure _ _ =>
    saveFiles before after (indexDirOf after g s)
    saveCatalog after (storeDirOf after g s)
  | _ => pure ()
  return result

end VolumeSearch.Main

open VolumeSearch in
def main (args : List String) : IO UInt32 := do
  let m ← Main.start
  let result ← match CommandLine.readArguments args with
    | .ok (g, command) => Main.perform m args g command
    | .error _ => pure (CommandLine.run m args).2
  for line in result.lines do
    IO.println line
  if let some failure := result.failure then
    IO.eprintln failure
  return result.code.toUInt32
