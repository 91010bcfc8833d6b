import Catalog.FileSystem.Files
import Catalog.Path.Basic
import Catalog.Record.Basic
import Catalog.Tree.Basic

/-!
# Trees from files

The files below a data root become a tree of families, in one of two ways.

* `Tree.ofImages` makes an item of every image and groups them by tens, in the order in which they
  are found;
* `Tree.ofRecordFiles` makes an item of every record and puts it into the family that the record
  names;
* `FileSystem.buildTree` finds the files and does either.
-/

namespace Catalog

/-- What the files below a data root are. -/
inductive LoadMode where
  /-- Images without records. -/
  | images
  /-- Records that describe items. -/
  | records
  deriving DecidableEq, Repr

/-- The endings of the files that count. -/
def LoadMode.extensions : LoadMode → List String
  | .images => Path.imageExtensions
  | .records => Path.recordExtensions

namespace Tree

/-- Puts an item at the end of the family with a path. -/
def place (t : Tree) (path : List String) (item : Item) : Tree :=
  let made := t.create path
  made.1.addItem made.2 item

/-! ### Images -/

/-- The number of images in a group. -/
def groupSize : Nat := 10

/-- The name of the group that holds the image at a position: the positions of its first and last
image, counted from one. -/
def groupName (position : Nat) : String :=
  let start := position / groupSize * groupSize
  "Graphs " ++ Text.padLeft 6 (toString (start + 1)) ++ "-" ++
    Text.padLeft 6 (toString (start + groupSize))

/-- The item for an image, whose title is the name of the file. -/
def imageItem (root file : String) : Item :=
  { name := some (Path.relativeTo file root)
    pending := { title := (Path.fileName? file).map .text } }

/-- The tree of the groups of images. -/
def ofImages (root : String) (files : List String) : Tree :=
  files.zipIdx.foldl (fun t file => t.place [groupName file.2] (imageItem root file.1)) ∅

/-! ### Records -/

/-- Adds the item that a record describes to the family that it names; one without family goes to
the root. -/
def addRecord (t : Tree) (record : Entries) (file root : String) : Logged Tree := do
  let taken ← Record.takeFamily record
  let item ← Item.ofRecord taken.2 file root
  return t.place (taken.1.getD []) item

/-- Adds the item of a record file. A file without record is passed over. -/
def addRecordFile (fs : FileSystem) (root : String) (t : Tree) (file : String) : Logged Tree :=
  match fs.readRecord file with
  | .ok record => t.addRecord record file root
  | .error _ => do
    Logged.warn .skippedRecord
    return t

/-- The tree of the items of record files. -/
def ofRecordFiles (fs : FileSystem) (root : String) (files : List String) : Logged Tree :=
  Logged.foldList (addRecordFile fs root) ∅ files

end Tree

/-- The tree of the files below a data root. -/
def FileSystem.buildTree (fs : FileSystem) (root : String) (mode : LoadMode) : Logged Tree :=
  if fs.isDirectory root then do
    let files ← fs.files mode.extensions root
    match mode with
    | .images => return Tree.ofImages root files
    | .records => Tree.ofRecordFiles fs root files
  else do
    Logged.warn .rootIsNoDirectory
    return ∅

end Catalog
