import VolumeSearch.Volume.Resolve

namespace VolumeSearch.Volume

/-- Changes to a volume. Those made before a fault stay. -/
abbrev Edit := ExceptT PathFault (StateM Volume)

def apply {α : Type} (v : Volume) (e : Edit α) : Volume × Except PathFault α :=
  let (result, v) := e.run.run v
  (v, result)

/-- A change that is made whole or not at all. -/
def Edit.whole {α : Type} (change : Volume → Except PathFault (Volume × α)) : Edit α := do
  match change (← get) with
  | .ok (v, a) => set v; return a
  | .error fault => throw fault

def newStat (v : Volume) : Stat × Volume :=
  (⟨⟨1, v.nextInode, 0⟩, v.now⟩, { v with nextInode := v.nextInode + 1 })

def putAt (v : Volume) (chain : List String) (node : Node) : Volume :=
  { v with root := (v.root.put? chain node).getD v.root }

def dropAt (v : Volume) (chain : List String) (name : String) : Volume :=
  match v.root.at? chain with
  | some (.dir stat entries) => v.putAt chain (.dir stat (entries.filter (·.1 ≠ name)))
  | _ => v

/-- A new entry under a name that is free, made from its record. -/
def addEntry (path : String) (node : Stat → Node) : Edit Unit := Edit.whole fun v => do
  let (chain, name) ← v.resolveParent path
  if (v.root.at? (chain ++ [name])).isSome then throw .occupied
  let (stat, v) := v.newStat
  return (v.putAt (chain ++ [name]) (node stat), ())

def makeDir (path : String) : Edit Unit := addEntry path fun stat => .dir stat []

/-- Makes a directory, and is content with one that is there. -/
def ensureDir (path : String) : Edit Unit := do
  try makeDir path
  catch fault => unless (← get).hasDirectory path do throw fault

/-- Makes the first of some directories, and where its place is missing the others before it, each
of which holds the one in front of it. -/
def makeAll : List String → Edit Unit
  | [] => return
  | path :: above => do
    try makeDir path
    catch fault =>
      if fault = .missing then
        makeAll above
        ensureDir path
      else
        unless (← get).hasDirectory path do throw fault

def makeDirs (path : String) : Edit Unit := makeAll (SlashPath.ancestors path)

def makeParents (path : String) : Edit Unit := makeAll (SlashPath.ancestors path).tail

def openFile (path : String) : Edit (List String) := Edit.whole fun v => do
  let chain ← v.resolve .place path
  match v.root.at? chain with
  | some (.dir _ _) => throw .isDirectory
  | some _ => return (v, chain)
  | none =>
    let (stat, v) := v.newStat
    return (v.putAt chain (.file stat .empty), chain)

def writeFile (path : String) (change : Contents → Contents) : Edit Unit := do
  let chain ← openFile path
  modify fun v =>
    match v.root.at? chain with
    | some (.file stat contents) =>
      v.putAt chain (.file { stat with modified := v.now } (change contents))
    | _ => v

/-- A file gives up its name for another, in place of what had that one, if that is no directory.
Links are not followed. -/
def rename (path target : String) : Edit Unit := Edit.whole fun v => do
  let (chain, name) ← v.resolveParent path
  let (newChain, newName) ← v.resolveParent target
  match v.root.at? (chain ++ [name]), v.root.at? (newChain ++ [newName]) with
  | none, _ => throw .missing
  | _, some (.dir _ _) => throw .isDirectory
  | some node, _ => return ((v.dropAt chain name).putAt (newChain ++ [newName]) node, ())

end VolumeSearch.Volume
