import VolumeSearch.CommandLine.Help
import VolumeSearch.CommandLine.Machine
import VolumeSearch.Index.Reader
import VolumeSearch.Query.FilesQuery
import VolumeSearch.Query.Predicate
import VolumeSearch.Search.Engine

namespace VolumeSearch.CommandLine

/-- A quotient rounded to the nearest integer, halves to the even one. -/
def roundDiv (n d : Nat) : Nat :=
  let q := n / d
  let r := n % d
  if 2 * r < d then q
  else if d < 2 * r then q + 1
  else if q % 2 = 0 then q else q + 1

def hundredths (n : Nat) : String :=
  toString (n / 100) ++ "." ++ (if n % 100 < 10 then "0" else "") ++ toString (n % 100)

/-- A size in the largest unit that it fills, with two decimals above bytes. -/
def sizeText (bytes : Nat) : String :=
  let inUnit (unit : Nat) (name : String) := hundredths (roundDiv (100 * bytes) unit) ++ " " ++ name
  if 1 <<< 30 ≤ bytes then inUnit (1 <<< 30) "GB"
  else if 1 <<< 20 ≤ bytes then inUnit (1 <<< 20) "MB"
  else if 1 <<< 10 ≤ bytes then inUnit (1 <<< 10) "KB"
  else toString bytes ++ " bytes"

def padRight (width : Nat) (s : String) : String :=
  s ++ String.ofList (List.replicate (width - s.length) ' ')

def padLeft (width : Nat) (s : String) : String :=
  String.ofList (List.replicate (width - s.length) ' ') ++ s

structure Result where
  code : Nat := 0
  lines : List String := []
  failure : Option String := none
  deriving DecidableEq, Repr

/-- Where the index is: as an option says, else as the settings say, else in its usual place. -/
def indexDirOf (m : Machine) (g : Globals) (s : Settings) : String :=
  (g.indexDir <|> s.indexDir).getD (SlashPath.within m.dataDir "searchidx")

def storeDirOf (m : Machine) (g : Globals) (s : Settings) : String :=
  (g.storeDir <|> s.storeDir).getD (SlashPath.within m.dataDir "meta")

/-- The roots to walk, absolute: those given, or else those of the settings. -/
def rootsOf (m : Machine) (given : List String) (s : Settings) : Except Failure (List String) :=
  let roots := if given.isEmpty then s.roots else given
  if roots.isEmpty then .error .noRoots
  else roots.mapM fun root =>
    match SlashPath.absolute? m.here root with
    | some path => .ok path
    | none => .error (.invalidRoot root)

/-- A size as an option gives it: a comparison and a size, or a size alone to be equal to. -/
def readSizeFilter (arg : String) : SizeFilter :=
  match Comparison.strip? (Text.trimChars arg.toList) with
  | some (op, rest) => ⟨op, SizeText.read (String.ofList rest)⟩
  | none => ⟨.eq, SizeText.read arg⟩

def familyLine (f : Family) (terms : Nat) : String :=
  "  " ++ padRight 12 f.stem ++ " " ++ toString terms ++ " terms"

def statsLine (s : Index.FamilyStats) : String :=
  let terms := match s.terms with
    | some n => toString n
    | none => "missing"
  "  " ++ padRight 12 s.family.stem ++ " " ++ padLeft 10 terms ++ " terms  " ++ sizeText s.bytes

def statsLines (dir : String) (d : IndexDir) : List String :=
  let stats := Index.stats d
  ["Index Statistics", "================", "", "Index location:   " ++ dir,
    "Complete:         " ++ (if Index.isComplete d then "yes" else "no"), ""] ++
  stats.map statsLine ++
  ["", "Index size:       " ++ sizeText ((stats.map (·.bytes)).foldl (· + ·) 0)]

def queryText (words : List String) : String := String.intercalate " " words

/-- Walks the roots and writes the index anew, and prints how many terms each family has. -/
def runIndex (m : Machine) (dir : String) (chain : List String) (c : Catalog) (hidden : Bool)
    (roots : List String) : Machine × Except Failure (List String) :=
  let out := Indexing.run m.volume c (Volume.Folder.mk m.volume dir) hidden roots
  let m := { m.putCatalog chain out.catalog with volume := out.index.volume }
  match out.result with
  | .ok report => (m, .ok (report.families.map fun (f, terms) => familyLine f terms))
  | .error cause => (m, .error (.indexing cause))

def requestOf (query : List String) (parent : Option String) (offset limit : Nat)
    (size : Option String) : Search.Request :=
  let request := (Query.FilesQuery.parse (queryText query)).request offset limit
  { request with
    parent := parent.getD request.parent
    size := (size.map readSizeFilter) <|> request.size }

def runCommand (m : Machine) (g : Globals) (s : Settings) :
    Command → Machine × Except Failure (List String)
  | .index given hidden _ =>
    let dir := indexDirOf m g s
    match m.openStore (storeDirOf m g s) with
    | (m, .error e) => (m, .error e)
    | (m, .ok (chain, c)) =>
      match rootsOf m given s with
      | .error e => (m, .error e)
      | .ok roots => runIndex m dir chain c (hidden || s.includeHidden) roots
  | .ensure given hidden =>
    let dir := indexDirOf m g s
    match m.openStore (storeDirOf m g s) with
    | (m, .error e) => (m, .error e)
    | (m, .ok (chain, c)) =>
      if Index.isComplete (m.volume.indexAt dir) then (m, .ok ["Index present at " ++ dir])
      else match rootsOf m given s with
        | .error e => (m, .error e)
        | .ok roots => runIndex m dir chain c (hidden || s.includeHidden) roots
  | .search query parent offset limit size =>
    let dir := indexDirOf m g s
    match m.openStore (storeDirOf m g s) with
    | (m, .error e) => (m, .error e)
    | (m, .ok (_, c)) =>
      (m, (Search.search ⟨m.volume.indexAt dir, c, m.volume⟩
        (requestOf query parent offset.toNat limit.toNat size)).mapError .searching)
  | .parse query => (m, .ok (Query.listed (Query.parse (queryText query))))
  | .stats =>
    let dir := indexDirOf m g s
    (m, .ok (statsLines dir (m.volume.indexAt dir)))

def succeed (lines : List String) : Result := { lines }

/-- The settings are read before anything is done, so that a bad file stops every command. -/
def runWithSettings (m : Machine) (g : Globals) (command : Command) :
    Machine × Except Failure (List String) :=
  match m.makeDataDir with
  | (m, .error e) => (m, .error e)
  | (m, .ok ()) =>
    match m.settings with
    | .error e => (m, .error e)
    | .ok s => runCommand m g s command

def run (m : Machine) (args : List String) : Machine × Result :=
  match readArguments args with
  | .error .usage => (m, { code := 2 })
  | .error (.help topic) => (m, succeed topic.lines)
  | .ok (g, command) =>
    match runWithSettings m g command with
    | (m, .ok lines) => (m, succeed lines)
    | (m, .error e) => (m, { code := 1, failure := some ("Error: " ++ e.message) })

end VolumeSearch.CommandLine
