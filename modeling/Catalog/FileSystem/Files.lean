import Catalog.FileSystem.Basic
import Catalog.Warning
import Catalog.Yaml.Reader

/-!
# Finding and reading files

* `FileSystem.files` lists the files below a root with given endings, in the order of their names at
  each level. Links are followed, and hidden entries are passed over;
* `FileSystem.familiesFile?` finds the families file of a data root;
* `Failure` lists what can go wrong with a file, and `Failure.message` words it;
* `FileSystem.readValue` and `FileSystem.readRecord` read a file as a value and as a record, and
  `FileSystem.writeText` writes a file.
-/

namespace Catalog

/-! ### The files below a directory -/

namespace FileSystem

/-- Whether a name is hidden. -/
def isHidden (name : String) : Bool := Text.startsWith '.' name

/-- Whether the entry with a name in a directory is a link. -/
def isLink (fs : FileSystem) (dir : List String) (name : String) : Bool :=
  match fs.entryAt? (dir ++ [name]) with
  | some (.link _) => true
  | _ => false

/-- Notes an entry that cannot be reached. -/
def unreadable : Logged (List String) := do
  Logged.warn .unreadableEntry
  return []

/-- The files at and below a path. `above` holds the directories that the walk is in, and `linked`
tells whether the path ends with a link: a link back to a directory above cannot be followed. What
is hidden is passed over unless it cannot be reached. -/
def filesBelow (fs : FileSystem) :
    Nat → (above : List (List String)) → (linked hidden : Bool) → String → Logged (List String)
  | 0, _, _, _, _ => pure []
  | fuel + 1, above, linked, hidden, path =>
    match fs.locate path with
    | .present dir .directory =>
      if linked && above.contains dir then unreadable
      else if hidden then pure []
      else do
        let below ← Logged.mapList
          (fun name => filesBelow fs fuel (dir :: above) (fs.isLink dir name) (isHidden name)
            (Path.join path name)) (fs.namesIn dir)
        return below.flatten
    | .present _ _ => pure (if hidden then [] else [path])
    | _ => unreadable

/-- A bound on the depth of a walk. Each link on the way leads to a directory that the walk is not
in, and between two links the walk only goes down. -/
def depthBound (fs : FileSystem) : Nat := (fs.entries.size + 2) * (fs.entries.size + 2)

/-- The files below a root, or the root itself, whose names have one of the given endings. -/
def files (fs : FileSystem) (endings : List String) (root : String) : Logged (List String) :=
  List.filter (Path.hasExtension endings) <$> fs.filesBelow fs.depthBound [] false false root

/-- Whether a name is that of a families file. -/
def isFamiliesName (name : String) : Bool := ".FAMILIES.".toList.isPrefixOf name.toList

/-- The first file right in a data root that has the name of a families file. -/
def familiesFile? (fs : FileSystem) (root : String) : Option String :=
  (((fs.list? root).getD []).filter isFamiliesName).findSome? fun name =>
    let path := Path.join root name
    if fs.isFile path then some path else none

end FileSystem

/-! ### Failures -/

/-- Why a file cannot be used. -/
inductive Failure where
  /-- The file cannot be read as a text. -/
  | unreadable (path : String)
  /-- The text of the file is no document. -/
  | noDocument (path : String) (fault : Yaml.Fault)
  /-- The document in the file is no mapping. -/
  | noMapping (path : String)
  /-- The file cannot be written. -/
  | unwritable (path : String)
  /-- The families hold a value that no document can show. -/
  | noFamiliesDocument
  deriving DecidableEq, Repr

/-- The wording of a failure. -/
def Failure.message : Failure → String
  | .unreadable path => "Failed to read " ++ path
  | .noDocument path _ => path ++ " parsing failed (YAML expected)"
  | .noMapping path => path ++ " did not contain a YAML dict"
  | .unwritable path => "Failed to write " ++ path
  | .noFamiliesDocument => "Failed to serialize families"

namespace FileSystem

/-- The value in a file. -/
def readValue (fs : FileSystem) (path : String) : Except Failure Value :=
  match fs.read? path with
  | none => .error (.unreadable path)
  | some text =>
    match Yaml.read text with
    | .ok v => .ok v
    | .error fault => .error (.noDocument path fault)

/-- The mapping in a file. -/
def readRecord (fs : FileSystem) (path : String) : Except Failure Entries :=
  match fs.readValue path with
  | .ok (.map entries) => .ok entries
  | .ok _ => .error (.noMapping path)
  | .error failure => .error failure

/-- The file system with a file written. -/
def writeText (fs : FileSystem) (path text : String) : Except Failure FileSystem :=
  match fs.write? path text with
  | some written => .ok written
  | none => .error (.unwritable path)

end FileSystem

end Catalog
