import Catalog.FileSystem.Files
import Catalog.Record.Basic
import Catalog.Tree.Walk

/-!
# The families file

What is known about families stands in a file of its own: a list of mappings, each of which names a
family.

* `Tree.applyFamilies` applies such a list to a tree, and `Tree.loadFamilies` reads it from a file;
* `Tree.familyEntries` is the list that shows a tree, and `Tree.exportFamilies` writes it to a file.
-/

namespace Catalog

namespace Tree

/-! ### Applying -/

/-- Applies one entry of a families document to the tree. The count goes up if the entry is used. -/
def applyFamily (counted : Tree × Nat) : Value → Logged (Tree × Nat)
  | .map entries =>
    match Value.extract? (.text "family") entries with
    | none => do
      Logged.warn .unnamedFamily
      return counted
    | some (family, fields) => do
      let path ← Record.familyPath family
      match counted.1.find? path with
      | none => do
        Logged.warn .unknownFamily
        return counted
      | some id => do
        let merged ← (counted.1.family id).merge fields
        return (counted.1.modify id fun _ => merged, counted.2 + 1)
  | _ => do
    Logged.warn .familyIsNoMapping
    return counted

/-- Applies a families document to the tree and counts the entries that are used. -/
def applyFamilies (t : Tree) : Value → Logged (Tree × Nat)
  | .list entries => Logged.foldList applyFamily (t, 0) entries
  | _ => do
    Logged.warn .familiesAreNoList
    return (t, 0)

/-- Applies a families file to the tree, or nothing if it cannot be used. -/
def loadFamilies (t : Tree) (fs : FileSystem) (path : String) : Logged Tree :=
  if fs.isFile path then
    match fs.readValue path with
    | .ok document => (·.1) <$> t.applyFamilies document
    | .error _ => do
      Logged.warn .skippedFamiliesFile
      return t
  else do
    Logged.warn .missingFamiliesFile
    return t

end Tree

/-! ### Exporting -/

/-- Whether a value says anything: nothing and what is empty do not. -/
def Value.isFilled : Value → Bool
  | .null => false
  | .text s => s != ""
  | .list items => !items.isEmpty
  | .map entries => !entries.isEmpty
  | _ => true

namespace Family

/-- An entry with a value that says something. -/
def fieldIfFilled (key : String) (v : Value) : Entries :=
  if v.isFilled then [(.text key, v)] else []

/-- The text of a family as a value. -/
def textValue (f : Family) : Value := f.pending.text.getD (.text f.text)

/-- The alias of a family as a value. -/
def aliasValue (f : Family) : Value := f.pending.aliasName.getD ((f.aliasName.map .text).getD .null)

/-- The labels of a family as a value. -/
def labelsValue (f : Family) : Value :=
  f.pending.labels.getD (.list (f.labels.toList.map Label.toValue))

/-- The fields that tell about a family, except its path. -/
def toEntries (f : Family) : Entries :=
  fieldIfFilled "text" f.textValue ++ (f.rank.map fun r => (.text "rank", r.toValue)).toList ++
    fieldIfFilled "alias" f.aliasValue ++ fieldIfFilled "labels" f.labelsValue

end Family

namespace Tree

/-- All nodes in the order of their paths. -/
def byPath (t : Tree) : List Nat :=
  t.all.mergeSort fun a b => (compare (t.node a).path (t.node b).path).isLE

/-- The entry that shows the family at a place. -/
def familyEntry (t : Tree) (id : Nat) : Value :=
  .map ((.text "family", .list ((t.node id).path.map .text)) :: (t.family id).toEntries)

/-- The entries that show the families of a tree. -/
def familyEntries (t : Tree) : List Value := t.byPath.map t.familyEntry

/-- Writes the families of a tree to a file, unless there is a file already. -/
def exportFamilies (t : Tree) (fs : FileSystem) (path : String) :
    Logged (Except Failure FileSystem) :=
  if fs.isFile path then do
    Logged.warn .exportExists
    return .ok fs
  else
    match Yaml.document (.list t.familyEntries) with
    | none => pure (.error .noFamiliesDocument)
    | some text => pure (fs.writeText path text)

end Tree

end Catalog
