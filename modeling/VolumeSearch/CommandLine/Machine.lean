import VolumeSearch.Catalog
import VolumeSearch.Indexing
import VolumeSearch.Json
import VolumeSearch.Volume.Places

namespace VolumeSearch.CommandLine

structure Settings where
  indexDir : Option String := none
  storeDir : Option String := none
  /-- What to index when no roots are given. -/
  roots : List String := []
  includeHidden : Bool := false
  parallelRoots : Bool := false
  deriving DecidableEq, Repr

namespace Settings

def fieldNames : List String :=
  ["index_dir", "store_dir", "roots", "include_hidden", "parallel_roots"]

def orDefault {α : Type} (default : α) (read : Json.Value → Option α) :
    Option Json.Value → Option α
  | none => some default
  | some v => read v

def ofFields? : List (Option Json.Value) → Option Settings
  | [indexDir, storeDir, roots, includeHidden, parallelRoots] => do
    return {
      indexDir := ← orDefault none Json.Value.optionalText? indexDir
      storeDir := ← orDefault none Json.Value.optionalText? storeDir
      roots := ← orDefault [] Json.Value.texts? roots
      includeHidden := ← orDefault false Json.Value.bool? includeHidden
      parallelRoots := ← orDefault false Json.Value.bool? parallelRoots }
  | _ => none

def ofBytes? (bytes : Bytes) : Option Settings := do
  let value ← Json.read? bytes
  ofFields? (← value.fields? fieldNames)

end Settings

structure Machine where
  volume : Volume
  /-- The working directory as an absolute path. -/
  here : String
  /-- The catalog of each metadata store, by the chain of names to its data. -/
  catalogs : List (List String × Catalog) := []
  dataHome : Option String := none
  home : String

inductive Failure where
  | dataDirectory (cause : Volume.PathFault)
  | readSettings
  | parseSettings
  | openStore (dir : String)
  | noRoots
  | invalidRoot (root : String)
  | indexing (cause : Indexing.Failure)
  | searching (cause : Fault)

def Failure.message : Failure → String
  | dataDirectory cause => cause.message
  | readSettings => "Failed to read config file"
  | parseSettings => "Failed to parse config file"
  | openStore dir => "Failed to open metadata store at " ++ dir
  | noRoots => "No roots given and none configured"
  | invalidRoot root => "Invalid root: " ++ root
  | indexing cause => cause.message
  | searching cause => cause.message

namespace Machine

def appName : String := "nasfind"

/-- The directory for data: the one the environment names if that is absolute, or the usual one
below the home directory. -/
def dataDir (m : Machine) : String :=
  match m.dataHome with
  | some dir =>
    if SlashPath.isRooted dir then SlashPath.within dir appName
    else SlashPath.within (SlashPath.within m.home ".local/share") appName
  | none => SlashPath.within (SlashPath.within m.home ".local/share") appName

def edit {α : Type} (m : Machine) (e : Volume.Edit α) : Machine × Except Volume.PathFault α :=
  let (volume, result) := m.volume.apply e
  ({ m with volume }, result)

def makeDataDir (m : Machine) : Machine × Except Failure Unit :=
  let (m, result) := m.edit (Volume.makeDirs m.dataDir)
  (m, result.mapError .dataDirectory)

/-- The settings in the configuration file, and the defaults where there is none. -/
def settings (m : Machine) : Except Failure Settings :=
  match m.volume.find? (SlashPath.within m.dataDir "config.json") with
  | none => .ok {}
  | some node =>
    match node.contents? with
    | none => .error .readSettings
    | some contents =>
      let bytes := contents.toBytes
      if (Bytes.text? bytes).isNone then .error .readSettings
      else match Settings.ofBytes? bytes with
        | some s => .ok s
        | none => .error .parseSettings

/-- Opens the metadata store in a directory: its place among the catalogs, and its catalog. -/
def openStore (m : Machine) (dir : String) :
    Machine × Except Failure (List String × Catalog) :=
  match m.edit (Catalog.openAt dir) with
  | (m, .ok chain) => (m, .ok (chain, (m.catalogs.lookup chain).getD .empty))
  | (m, .error _) => (m, .error (.openStore dir))

def putCatalog (m : Machine) (chain : List String) (c : Catalog) : Machine :=
  { m with catalogs := (chain, c) :: m.catalogs.filter (·.1 ≠ chain) }

end Machine

end VolumeSearch.CommandLine
