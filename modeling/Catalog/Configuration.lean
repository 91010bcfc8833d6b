import Catalog.Decimal.Binary
import Catalog.Decimal.Notation
import Catalog.FileSystem.Files
import Catalog.Text.Visible
import Catalog.Value.Basic
import Catalog.Warning
import Catalog.Yaml.Reader
import Catalog.Yaml.Writer

/-!
# Configuration

A configuration is a mapping of settings by their names. Names that are not known are passed over
with a warning; a value of the wrong type is an error, and the first one in the document is
reported.

* `Configuration` holds the settings of the program, each with its default, and
  `Configuration.toValue` is the mapping that shows all settings;
* `ConfigurationFault` lists what can be wrong, and `ConfigurationFault.message` words it;
* `Configuration.ofValue` reads a mapping, and `Configuration.ofText` a document;
* `Configuration.load` reads a configuration file; the defaults stand in for one that cannot be
  used;
* `Configuration.familiesFile?` is the families file to be used;
* `Configuration.exportTo` writes a configuration file.
-/

namespace Catalog

/-! ### Settings -/

/-- The share of words that are tags by default: one fifth. -/
def defaultKeep : Binary64 := ⟨0x3FC999999999999A⟩

/-- The settings of the program. -/
structure Configuration where
  /-- The directory below which the files are. -/
  root : String := "default_graph_dir"
  /-- The families file; if none is set it is looked for in the root. -/
  families : Option String := none
  title : String := "Default title"
  subtitle : String := "Default subtitle"
  placeholder : String := "Free text and #keywords"
  header : String := ""
  footer : String := ""
  showFamilyNumbers : Bool := true
  showGraphNumbers : Bool := true
  theme : String := "dark"
  /-- The share of the words that are tags. -/
  keep : Binary64 := defaultKeep
  logfile : String := "webapp.log"
  /-- Whether the files are images without records. -/
  raw : Bool := false
  verbose : Bool := false
  debug : Bool := false
  /-- Whether searches only count. -/
  headless : Bool := false
  port : UInt16 := 5555
  deriving DecidableEq, Repr

namespace Configuration

instance : Inhabited Configuration := ⟨{}⟩

/-- The mapping of all settings. -/
def toValue (c : Configuration) : Value :=
  .map
    [(.text "root", .text c.root),
     (.text "families", (c.families.map .text).getD .null),
     (.text "title", .text c.title),
     (.text "subtitle", .text c.subtitle),
     (.text "placeholder", .text c.placeholder),
     (.text "header", .text c.header),
     (.text "footer", .text c.footer),
     (.text "show_family_numbers", .bool c.showFamilyNumbers),
     (.text "show_graph_numbers", .bool c.showGraphNumbers),
     (.text "theme", .text c.theme),
     (.text "keep", .float c.keep),
     (.text "logfile", .text c.logfile),
     (.text "raw", .bool c.raw),
     (.text "verbose", .bool c.verbose),
     (.text "debug", .bool c.debug),
     (.text "headless", .bool c.headless),
     (.text "port", .int c.port.toNat)]

end Configuration

/-! ### Reading a configuration -/

/-- What a setting is expected to be. -/
inductive SettingKind where
  | path
  | text
  | flag
  | number
  | port
  deriving DecidableEq, Repr

/-- Why a text is no configuration. -/
inductive ConfigurationFault where
  /-- The text is no document. -/
  | noDocument (fault : Yaml.Fault)
  /-- The document is no mapping. -/
  | noMapping
  /-- A setting is given twice, under one name or two. -/
  | repeated (name : String)
  /-- A value is not of the expected kind. -/
  | wrongKind (found : Value) (expected : SettingKind)
  /-- An integer is no port. -/
  | portOutOfRange (port : Int)
  /-- The share of words that are tags is none. -/
  | keepOutOfRange (keep : Binary64)
  deriving Repr

/-- What is expected, in words. -/
def SettingKind.message : SettingKind → String
  | .path => "path string"
  | .text => "a string"
  | .flag => "a boolean"
  | .number => "f64"
  | .port => "u16"

/-- A value that was found, in words. -/
def Value.describe : Value → String
  | .null => "unit value"
  | .bool b => "boolean `" ++ (if b then "true" else "false") ++ "`"
  | .int i => "integer `" ++ toString i ++ "`"
  | .float x => "floating point `" ++ FloatNotation.message.render x ++ "`"
  | .text s => "string " ++ Text.visibleText s
  | .list _ => "sequence"
  | .map _ => "map"
  | .tagged _ content => content.describe

/-- The wording of a fault. -/
def ConfigurationFault.message : ConfigurationFault → String
  | .noDocument _ => "YAML parsing failed"
  | .noMapping => "document is not a YAML dict"
  | .repeated name => "duplicate field `" ++ name ++ "`"
  | .wrongKind found expected =>
      "invalid type: " ++ found.describe ++ ", expected " ++ expected.message
  | .portOutOfRange port => "invalid value: integer `" ++ toString port ++ "`, expected u16"
  | .keepOutOfRange keep => "keep must be within [0, 1], got " ++ FloatNotation.display.render keep

namespace Value

/-- A value without its tags. -/
def untagged : Value → Value
  | .tagged _ content => content.untagged
  | v => v

/-- The text of a setting. -/
def asSettingText (expected : SettingKind) (v : Value) : Except ConfigurationFault String :=
  match v.untagged with
  | .text s => .ok s
  | found => .error (.wrongKind found expected)

/-- The path of a setting that may be missing. -/
def asOptionalPath (v : Value) : Except ConfigurationFault (Option String) :=
  if v.isNull then .ok none else some <$> v.asSettingText .path

/-- The truth value of a setting. -/
def asFlag (v : Value) : Except ConfigurationFault Bool :=
  match v.untagged with
  | .bool b => .ok b
  | found => .error (.wrongKind found .flag)

/-- The number of a setting. -/
def asNumber (v : Value) : Except ConfigurationFault Binary64 :=
  match v.untagged with
  | .int i => .ok (Binary64.ofInt i)
  | .float x => .ok x
  | found => .error (.wrongKind found .number)

/-- The port of a setting. -/
def asPort (v : Value) : Except ConfigurationFault UInt16 :=
  match v.untagged with
  | .int i =>
    if 0 ≤ i ∧ i < 65536 then .ok (UInt16.ofNat i.toNat) else .error (.portOutOfRange i)
  | found => .error (.wrongKind found .port)

end Value

namespace Configuration

/-- The names of settings under which a configuration file may give them. -/
def knownKeys : List String :=
  ["root", "families", "title", "subtitle", "placeholder", "header", "footer",
    "show_family_numbers", "showfamilynumbers", "show_graph_numbers", "showgraphnumbers", "theme",
    "keep", "logfile", "raw", "verbose", "debug", "headless", "port"]

/-- The name of the setting that is given under a name. -/
def settingName (key : String) : String :=
  if key == "showfamilynumbers" then "show_family_numbers"
  else if key == "showgraphnumbers" then "show_graph_numbers"
  else key

/-- Sets the setting with a name. -/
def set (c : Configuration) (name : String) (v : Value) :
    Except ConfigurationFault Configuration := do
  match name with
  | "root" => return { c with root := ← v.asSettingText .path }
  | "families" => return { c with families := ← v.asOptionalPath }
  | "title" => return { c with title := ← v.asSettingText .text }
  | "subtitle" => return { c with subtitle := ← v.asSettingText .text }
  | "placeholder" => return { c with placeholder := ← v.asSettingText .text }
  | "header" => return { c with header := ← v.asSettingText .text }
  | "footer" => return { c with footer := ← v.asSettingText .text }
  | "show_family_numbers" => return { c with showFamilyNumbers := ← v.asFlag }
  | "show_graph_numbers" => return { c with showGraphNumbers := ← v.asFlag }
  | "theme" => return { c with theme := ← v.asSettingText .text }
  | "keep" => return { c with keep := ← v.asNumber }
  | "logfile" => return { c with logfile := ← v.asSettingText .path }
  | "raw" => return { c with raw := ← v.asFlag }
  | "verbose" => return { c with verbose := ← v.asFlag }
  | "debug" => return { c with debug := ← v.asFlag }
  | "headless" => return { c with headless := ← v.asFlag }
  | "port" => return { c with port := ← v.asPort }
  | _ => return c

/-- Sets settings one after the other. `given` are those that are set already. -/
def setAll (c : Configuration) (given : List String) :
    List (String × Value) → Except ConfigurationFault Configuration
  | [] => .ok c
  | (key, v) :: rest =>
    let name := settingName key
    if given.contains name then .error (.repeated name)
    else
      match c.set name v with
      | .ok next => setAll next (name :: given) rest
      | .error fault => .error fault

/-- Checks the settings whose type admits more than their meaning. -/
def check (c : Configuration) : Except ConfigurationFault Configuration :=
  if c.keep.inUnitInterval then .ok c else .error (.keepOutOfRange c.keep)

/-- The entries of a mapping whose keys are known, by their names. -/
def knownEntries : Entries → Logged (List (String × Value))
  | [] => pure []
  | (key, v) :: rest =>
    match key.asText?.filter knownKeys.contains with
    | some name => do
      let known ← knownEntries rest
      return (name, v) :: known
    | none => do
      Logged.warn .unknownConfigurationKey
      knownEntries rest

/-- The configuration that a value describes. Nothing describes the defaults. -/
def ofValue : Value → Logged (Except ConfigurationFault Configuration)
  | .null => pure (.ok {})
  | .map entries => do
    let known ← knownEntries entries
    return (setAll {} [] known).bind check
  | _ => pure (.error .noMapping)

/-- The configuration that a text describes. -/
def ofText (s : String) : Logged (Except ConfigurationFault Configuration) :=
  match Yaml.read s with
  | .ok v => ofValue v
  | .error fault => pure (.error (.noDocument fault))

/-! ### Configuration files -/

/-- The configuration whose paths are seen from where its file is. -/
def relocate (c : Configuration) (file : String) : Configuration :=
  let base := (Path.parent? file).getD ""
  { c with root := Path.join base c.root, families := c.families.map (Path.join base) }

/-- The configuration in a file that is there. -/
def read (fs : FileSystem) (path : String) : Logged (Option Configuration) :=
  match fs.read? path with
  | some text => Except.toOption <$> ofText text
  | none => pure none

/-- The configuration in a file, or the defaults. -/
def load (fs : FileSystem) (path : String) : Logged Configuration :=
  if fs.isFile path then do
    match ← read fs path with
    | some c => return c.relocate path
    | none => do
      Logged.warn .defaultConfiguration
      return {}
  else do
    Logged.warn .missingConfiguration
    return {}

/-- The families file that is set, or the one in the root. -/
def familiesFile? (c : Configuration) (fs : FileSystem) : Option String :=
  match c.families with
  | some path => some path
  | none => fs.familiesFile? c.root

/-- The document that shows a configuration. -/
def toText (c : Configuration) : String := (Yaml.document c.toValue).getD ""

/-- Writes a configuration to a file, unless there is a file already. -/
def exportTo (c : Configuration) (fs : FileSystem) (path : String) :
    Logged (Except Failure FileSystem) :=
  if fs.isFile path then do
    Logged.warn .exportExists
    return .ok fs
  else pure (fs.writeText path c.toText)

end Configuration

end Catalog
