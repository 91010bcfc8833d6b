import Catalog.Command.Arguments
import Catalog.Configuration
import Catalog.Json
import Catalog.Load.Families
import Catalog.Load.Tree
import Catalog.Normal.Basic
import Catalog.Screen.Results
import Catalog.Search.Engine
import Catalog.Tags.Ranking
import Catalog.Tree.Walk

/-!
# Running commands

A command runs on a file system that is a value, so what it reads has to be there before it runs.

* `CommandOptions.resolve` is the configuration for a command: the defaults, the configuration file,
  and the settings given with the command, each over the one before;
* `Configuration.loadTree` is the tree of the files;
* `Arguments.run` runs a command on a file system, and `runProgram` reads the arguments first;
* `Arguments.needs` are the paths that a command looks at, as far as they are known: those that a
  configuration file names are known once that file is there;
* `FileSystem.changes` are the files that a command has written.
-/

namespace Catalog

/-! ### Running commands -/

/-- What a command leaves behind. -/
structure CommandResult where
  /-- The text for standard output. -/
  output : List Span := []
  files : FileSystem
  failure : Option Failure := none

/-- What the program leaves behind. -/
structure Outcome where
  exitCode : Nat
  output : List Span
  /-- The lines for standard error. -/
  complaints : List String
  files : FileSystem

namespace CommandOptions

/-- A configuration with the settings given with a command. -/
def apply (o : CommandOptions) (c : Configuration) : Configuration :=
  { c with
    root := o.root.getD c.root
    families := match o.families with
      | some path => some path
      | none => c.families
    raw := o.raw.getD c.raw
    keep := o.keep.getD c.keep
    headless := c.headless || o.headless
    verbose := c.verbose || o.verbose }

/-- The configuration for a command. The file of the environment stands in for one that is not
given. -/
def resolve (o : CommandOptions) (fs : FileSystem) (environment : Option String) :
    Logged Configuration :=
  match o.configuration.or environment with
  | some path => o.apply <$> Configuration.load fs path
  | none => pure (o.apply {})

end CommandOptions

namespace Configuration

/-- How the files are loaded. -/
def mode (c : Configuration) : LoadMode := if c.raw then .images else .records

/-- The tree of the files, with what is known about families. Images have no families file. -/
def loadTree (c : Configuration) (fs : FileSystem) : Logged Tree := do
  let tree ← fs.buildTree c.root c.mode
  match c.mode, c.familiesFile? fs with
  | .records, some path => tree.loadFamilies fs path
  | _, _ => return tree

end Configuration

namespace Command

/-- What a command that writes a file leaves behind. -/
def written (fs : FileSystem) : Except Failure FileSystem → CommandResult
  | .ok files => { files := files }
  | .error failure => { files := fs, failure := some failure }

/-- The output of a search. -/
def searchSpans (c : Configuration) (t : Tree) (words : List String) (json : Bool) : List Span :=
  let r := ((SearchEngine.ofTree t).searchRatio (Text.joinWith " " words) c.headless).1
  if json then [Span.ofText (r.toJson.pretty ++ "\n")] else r.spans c.showGraphNumbers

/-- Runs a command. -/
def run (command : Command) (c : Configuration) (fs : FileSystem) : Logged CommandResult :=
  match command with
  | .exportConfiguration file => written fs <$> c.exportTo fs file
  | .exportFamilies file => do
    let tree ← c.loadTree fs
    written fs <$> tree.exportFamilies fs file
  | .search words json => do
    let tree ← (← c.loadTree fs).normalize
    return { output := searchSpans c tree words json, files := fs }
  | .tags keep => do
    let tree ← (← c.loadTree fs).normalize
    return { output := tagSpans (tree.tags (keep.getD c.keep)), files := fs }
  | .outline details => do
    let tree ← (← c.loadTree fs).normalize
    return { output := [Span.ofText (tree.outline details ++ "\n")], files := fs }

end Command

/-- Runs the command of the arguments. -/
def Arguments.run (a : Arguments) (fs : FileSystem) (environment : Option String) :
    Logged CommandResult := do
  a.command.run (← a.options.resolve fs environment) fs

/-- The text that shows how the program is used. -/
def usage : String :=
  "Usage: [OPTIONS] <COMMAND>\n\n" ++
  "Commands:\n" ++
  "  search [--json] <QUERY>...\n" ++
  "  tags [--keep <KEEP>]\n" ++
  "  map [--details]\n" ++
  "  export-families <FILE>\n" ++
  "  export-conf <FILE>\n\n" ++
  "Options:\n" ++
  "  -c, --conf <CONF>\n" ++
  "  -r, --root <ROOT>\n" ++
  "  -f, --families <FAMILIES>\n" ++
  "  -a, --raw\n" ++
  "  -k, --keep <KEEP>\n" ++
  "  -H, --headless\n" ++
  "  -v, --verbose\n"

/-- Runs the program on a file system. Wrong arguments end it with code 2, and a failure with code
1. -/
def runProgram (args : List String) (fs : FileSystem) (environment : Option String) : Outcome :=
  match Arguments.read args with
  | .error .help => ⟨0, [Span.ofText usage], [], fs⟩
  | .error .invalid => ⟨2, [], [usage], fs⟩
  | .ok arguments =>
    let done := arguments.run fs environment
    let complaints := done.warnings.map Warning.message
    match done.value.failure with
    | none => ⟨0, done.value.output, complaints, done.value.files⟩
    | some failure => ⟨1, [], complaints ++ [failure.message], done.value.files⟩

/-! ### What a command reads -/

/-- The file that a command writes. -/
def Command.target? : Command → Option String
  | .exportFamilies file => some file
  | .exportConfiguration file => some file
  | _ => none

/-- The paths that a command looks at. -/
def Arguments.needs (a : Arguments) (fs : FileSystem) (environment : Option String) : List String :=
  let c := (a.options.resolve fs environment).value
  (a.options.configuration.or environment).toList ++ [c.root] ++ c.families.toList ++
    a.command.target?.toList

/-- Whether the text of a file may matter for what it is called: it may be a record file or a
families file. -/
def isReadable (name : String) : Bool :=
  Path.endsWithAny Path.recordExtensions name || FileSystem.isFamiliesName name

/-- The files with a text that another file system does not have under the same names. -/
def FileSystem.changes (fs before : FileSystem) : List (List String × String) :=
  fs.entries.entries.filterMap fun e =>
    match e.2 with
    | .file (some text) =>
      if before.entryAt? e.1 = some (.file (some text)) then none else some (e.1, text)
    | _ => none

end Catalog
