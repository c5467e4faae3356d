import VolumeSearch.Text.Basic

namespace VolumeSearch.CommandLine
open VolumeSearch.Text

inductive Command where
  | index (roots : List String) (hidden parallel : Bool)
  | ensure (roots : List String) (hidden : Bool)
  | search (query : List String) (parent : Option String) (offset limit : UInt64)
      (size : Option String)
  | parse (query : List String)
  | stats
  deriving Repr

structure Globals where
  indexDir : Option String := none
  storeDir : Option String := none
  quiet : Bool := false
  deriving Repr

inductive Topic where
  | program | index | ensure | search | parse | stats | help
  deriving DecidableEq, Repr

namespace Topic

def name? : Topic → Option String
  | program => none
  | index => some "index"
  | ensure => some "ensure"
  | search => some "search"
  | parse => some "parse"
  | stats => some "stats"
  | help => some "help"

def commands : List Topic := [index, ensure, search, parse, stats, help]

def ofName? (name : String) : Option Topic := commands.find? fun t => t.name? = some name

end Topic

inductive Stop where
  | usage
  | help (topic : Topic)
  deriving DecidableEq, Repr

inductive Taking where
  | flag
  /-- A value that does not look like an option. -/
  | value
  /-- A value that is not empty either. -/
  | path
  | anything
  | number
  deriving DecidableEq, Repr

structure OptionRule where
  name : String
  taking : Taking
  deriving Repr

def globalRules : List OptionRule :=
  [⟨"index-dir", .path⟩, ⟨"store-dir", .path⟩, ⟨"quiet", .flag⟩]

def Topic.rules : Topic → List OptionRule
  | .index => [⟨"hidden", .flag⟩, ⟨"parallel", .flag⟩]
  | .ensure => [⟨"hidden", .flag⟩]
  | .search => [⟨"parent", .value⟩, ⟨"offset", .number⟩, ⟨"limit", .number⟩, ⟨"size", .anything⟩]
  | _ => []

inductive Operands where
  | none
  /-- Paths, with options between them. -/
  | paths
  /-- Everything from the first word on. -/
  | words
  deriving DecidableEq, Repr

def Topic.operands : Topic → Operands
  | .index | .ensure => .paths
  | .search | .parse => .words
  | _ => .none

structure Gathered where
  /-- Each option once, with its value; that of a flag is empty. -/
  options : List (String × String) := []
  operands : List String := []
  deriving Repr

namespace Gathered

def value? (g : Gathered) (name : String) : Option String := g.options.lookup name

def has (g : Gathered) (name : String) : Bool := (g.value? name).isSome

def set (g : Gathered) (rule : OptionRule) (value : String) : Except Stop Gathered :=
  let accepted : Bool := match rule.taking with
    | .path => value != ""
    | .number => (Numeral.unsigned? value.toList).isSome
    | _ => true
  if g.has rule.name || !accepted then .error .usage
  else .ok { g with options := g.options ++ [(rule.name, value)] }

end Gathered

inductive Shape where
  /-- Two dashes alone, after which nothing is an option. -/
  | separator
  | long (name : List Char) (attached : Option (List Char))
  | short (letters : List Char)
  | plain
  deriving DecidableEq, Repr

def splitEquals : List Char → List Char × Option (List Char)
  | [] => ([], none)
  | c :: rest =>
    if c = '=' then ([], some rest)
    else
      let (name, value) := splitEquals rest
      (c :: name, value)

def shapeOf (arg : String) : Shape :=
  match arg.toList with
  | ['-', '-'] => .separator
  | '-' :: '-' :: rest =>
    let (name, value) := splitEquals rest
    .long name value
  | '-' :: c :: rest => .short (c :: rest)
  | _ => .plain

/-- Short options: only the one for quiet, which may be given once, and the one for help. -/
def readLetters (topic : Topic) (g : Gathered) : List Char → Except Stop Gathered
  | [] => .ok g
  | c :: rest => do
    if c = 'q' then readLetters topic (← g.set ⟨"quiet", .flag⟩ "") rest
    else if c = 'h' then .error (.help topic)
    else .error .usage

/-- Reads the options of a topic up to the first argument that is neither an option nor the value
of one, which is given back with all that follow it. The flag says that two dashes came before. -/
def readOptions (topic : Topic) (rules : List OptionRule) (g : Gathered) :
    List String → Except Stop (Gathered × Bool × List String)
  | [] => .ok (g, false, [])
  | arg :: rest =>
    match shapeOf arg with
    | .separator => .ok (g, true, rest)
    | .plain => .ok (g, false, arg :: rest)
    | .short letters => do readOptions topic rules (← readLetters topic g letters) rest
    | .long name attached =>
      if String.ofList name = "help" ∧ attached = none then .error (.help topic)
      else match rules.find? fun rule => rule.name = String.ofList name with
        | none => .error .usage
        | some rule =>
          match rule.taking, attached, rest with
          | .flag, none, rest => do readOptions topic rules (← g.set rule "") rest
          | .flag, some _, _ => .error .usage
          | _, some value, rest => do
            readOptions topic rules (← g.set rule (String.ofList value)) rest
          | taking, none, value :: rest =>
            if taking = .anything ∨ shapeOf value = .plain then do
              readOptions topic rules (← g.set rule value) rest
            else .error .usage
          | _, none, [] => .error .usage

/-- Operands that are paths: none of them empty, and options between them until two dashes. -/
def readPaths (topic : Topic) (rules : List OptionRule) :
    Nat → Gathered → List String → Except Stop Gathered
  | 0, g, _ => .ok g
  | fuel + 1, g, args => do
    let (g, literal, rest) ← readOptions topic rules g args
    if literal then
      if rest.contains "" then .error .usage else .ok { g with operands := g.operands ++ rest }
    else match rest with
      | [] => .ok g
      | path :: rest =>
        if path = "" then .error .usage
        else readPaths topic rules fuel { g with operands := g.operands ++ [path] } rest

def readCommand (topic : Topic) (args : List String) : Except Stop Gathered :=
  let rules := topic.rules ++ globalRules
  match topic.operands with
  | .paths => readPaths topic rules (args.length + 1) {} args
  | .words => do
    let (g, _, rest) ← readOptions topic rules {} args
    if rest.isEmpty then .error .usage else .ok { g with operands := rest }
  | .none => do
    let (g, _, rest) ← readOptions topic rules {} args
    if rest.isEmpty then .ok g else .error .usage

def number (g : Gathered) (name : String) (default : UInt64) : UInt64 :=
  ((g.value? name).bind fun s => Numeral.unsigned? s.toList).getD default

def defaultShown : UInt64 := 50

def commandOf (topic : Topic) (g : Gathered) : Option Command :=
  match topic with
  | .index => some (.index g.operands (g.has "hidden") (g.has "parallel"))
  | .ensure => some (.ensure g.operands (g.has "hidden"))
  | .search =>
    some (.search g.operands (g.value? "parent") (number g "offset" 0)
      (number g "limit" defaultShown) (g.value? "size"))
  | .parse => some (.parse g.operands)
  | .stats => some .stats
  | .program | .help => none

/-- Options given after the command count before those given in front of it. -/
def globalsOf (outer inner : Gathered) : Globals where
  indexDir := inner.value? "index-dir" <|> outer.value? "index-dir"
  storeDir := inner.value? "store-dir" <|> outer.value? "store-dir"
  quiet := inner.has "quiet" || outer.has "quiet"

def helpTopic : List String → Stop
  | [] => .help .program
  | [name] =>
    match Topic.ofName? name with
    | some topic => .help topic
    | none => .usage
  | _ => .usage

def readArguments (args : List String) : Except Stop (Globals × Command) := do
  let (outer, literal, rest) ← readOptions .program globalRules {} args
  if literal then .error .usage
  else match rest with
    | [] => .error .usage
    | name :: rest =>
      match Topic.ofName? name with
      | none => .error .usage
      | some .help => .error (helpTopic rest)
      | some topic =>
        let inner ← readCommand topic rest
        match commandOf topic inner with
        | some command => .ok (globalsOf outer inner, command)
        | none => .error .usage

end VolumeSearch.CommandLine
