import Catalog.Command.Options
import Catalog.Decimal.Reading

/-!
# Arguments

* `Command` is what the program is asked to do, and `CommandOptions` are the settings given with it;
* `Arguments.read` reads both from the arguments of the program.

An option may be given once. The options that set and unset one setting take each other back.
-/

namespace Catalog

/-- What the program is asked to do. -/
inductive Command where
  /-- Search for items; the words are one query. -/
  | search (words : List String) (json : Bool)
  /-- Print the tags, perhaps with a share of its own. -/
  | tags (keep : Option Binary64)
  /-- Print the outline of the tree. -/
  | outline (details : Bool)
  /-- Write a families file. -/
  | exportFamilies (file : String)
  /-- Write a configuration file. -/
  | exportConfiguration (file : String)
  deriving DecidableEq, Repr

/-- The settings given with a command. -/
structure CommandOptions where
  configuration : Option String := none
  root : Option String := none
  families : Option String := none
  /-- Whether the files are images without records, if that is said. -/
  raw : Option Bool := none
  keep : Option Binary64 := none
  headless : Bool := false
  verbose : Bool := false
  deriving DecidableEq, Repr

/-- The arguments of the program. -/
structure Arguments where
  options : CommandOptions
  command : Command
  deriving DecidableEq, Repr

namespace Arguments

/-- A path, which must not be empty. -/
def readPath (s : String) : Except UsageStop String := if s == "" then .error .invalid else .ok s

/-- A number. -/
def readNumber (s : String) : Except UsageStop Binary64 :=
  match Binary64.ofText? s with
  | some x => .ok x
  | none => .error .invalid

/-- Passes if something is not set yet. -/
def unlessSet (isSet : Bool) : Except UsageStop Unit := if isSet then .error .invalid else .ok ()

/-- An option with a value that may be given once. -/
def valueOption {σ α : Type} (letter : Option Char) (name : String)
    (read : String → Except UsageStop α) (get : σ → Option α) (set : α → σ → σ) : OptionRule σ :=
  ⟨letter, name, .value fun text s => do
    unlessSet (get s).isSome
    return set (← read text) s⟩

/-- An option without value that may be given once. -/
def flagOption {σ : Type} (letter : Option Char) (name : String) (get : σ → Bool) (set : σ → σ) :
    OptionRule σ :=
  ⟨letter, name, .flag fun s => do
    unlessSet (get s)
    return set s⟩

/-- The options before the command. -/
def globalRules : List (OptionRule CommandOptions) :=
  [valueOption (some 'c') "conf" readPath CommandOptions.configuration
      (fun v s => { s with configuration := some v }),
   valueOption (some 'r') "root" readPath CommandOptions.root (fun v s =>
     { s with root := some v }),
   valueOption (some 'f') "families" readPath CommandOptions.families
      (fun v s => { s with families := some v }),
   flagOption (some 'a') "raw" (fun s => s.raw == some true) (fun s => { s with raw := some true }),
   flagOption none "no-raw" (fun s => s.raw == some false) (fun s => { s with raw := some false }),
   valueOption (some 'k') "keep" readNumber CommandOptions.keep (fun v s =>
     { s with keep := some v }),
   flagOption (some 'H') "headless" CommandOptions.headless (fun s => { s with headless := true }),
   flagOption (some 'v') "verbose" CommandOptions.verbose (fun s => { s with verbose := true }),
   OptionRule.help]

/-- The options of the command that prints tags. -/
def tagsRules : List (OptionRule (Option Binary64)) :=
  [valueOption none "keep" readNumber id (fun v _ => some v), OptionRule.help]

/-- The options of the command that prints the outline. -/
def outlineRules : List (OptionRule Bool) :=
  [flagOption (some 'd') "details" id (fun _ => true), OptionRule.help]

/-- The one option of the command that searches. -/
def searchRules : List (OptionRule Bool) :=
  [flagOption none "json" id (fun _ => true), OptionRule.help]

/-- Takes no positional argument. -/
def takeNone {σ : Type} (_ : σ) (_ : String) : Except UsageStop σ := .error .invalid

/-- Takes one path as positional argument. -/
def takePath (given : Option String) (arg : String) : Except UsageStop (Option String) := do
  unlessSet given.isSome
  return some (← readPath arg)

/-- The file that a command writes. -/
def readFile (args : List String) : Except UsageStop String :=
  match readArguments [OptionRule.help] takePath none args with
  | .ok (some file) => .ok file
  | .ok none => .error .invalid
  | .error stop => .error stop

/-- Whether an argument in front of a query is an option of the command that searches. What only
looks like an option belongs to the query. -/
def isSearchOption (arg : String) : Bool :=
  match ArgumentShape.of arg with
  | .terminator => true
  | .named name _ => (OptionRule.byName? searchRules name).isSome
  | .letters letters => letters.all fun c => (OptionRule.byLetter? searchRules c).isSome
  | .plain => false

/-- Reads the command that searches. The query starts with the first argument that is no option, and
all arguments after it belong to it. -/
def readSearch (json : Bool) : List String → Except UsageStop Command
  | [] => .error .invalid
  | arg :: args =>
    if !isSearchOption arg then .ok (.search (arg :: args) json)
    else
      match readOption? searchRules json arg args with
      | some (.ok (next, _)) => readSearch next args
      | some (.error stop) => .error stop
      | none => if args.isEmpty then .error .invalid else .ok (.search args json)

/-- Reads the request for help on a command. -/
def readHelp (names : List String) : List String → Except UsageStop Command
  | [] => .error .help
  | [name] => .error (if names.contains name then .help else .invalid)
  | _ => .error .invalid

/-- The names of the commands. -/
def commandNames : List String :=
  ["search", "tags", "map", "export-families", "export-conf", "help"]

/-- Reads a command. -/
def readCommand : List String → Except UsageStop Command
  | "search" :: args => readSearch false args
  | "tags" :: args => .tags <$> readArguments tagsRules takeNone none args
  | "map" :: args => .outline <$> readArguments outlineRules takeNone false args
  | "export-families" :: args => .exportFamilies <$> readFile args
  | "export-conf" :: args => .exportConfiguration <$> readFile args
  | "help" :: args => readHelp commandNames args
  | _ => .error .invalid

/-- Reads the arguments of the program. -/
def read (args : List String) : Except UsageStop Arguments := do
  let after ← readOptions globalRules {} args
  if after.terminated then .error .invalid
  else return ⟨after.settings, ← readCommand after.rest⟩

end Arguments

end Catalog
