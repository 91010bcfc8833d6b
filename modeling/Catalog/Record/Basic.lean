import Catalog.Item
import Catalog.Keyword
import Catalog.Path.Basic
import Catalog.Yaml.Reader
import Catalog.Yaml.Writer

/-!
# Records

A record is a mapping that tells about one item or one family. Its values are taken as they come: a
list may stand for several values and a single value for a list of one.

* `Value.members` lists what a value stands for;
* `Record.keyName?` gives the name of a key;
* `Record.familyPath` reads the path of a family, and `Record.takeFamily` takes it out of a record;
* `Item.ofRecord` reads an item from a record without its family. The locators of the item are found
  from the record file and kept as seen from the data root;
* `Family.merge` overwrites what is known about a family with the fields that a record mentions.
-/

namespace Catalog

/-! ### Records -/

namespace Value

/-- The values that a value stands for: the members of a list, or the value itself. Nothing counts
for nothing. -/
def members : Value → List Value
  | .null => []
  | .list items => items.filter fun v => !v.isNull
  | v => [v]

theorem not_isNull_of_mem_members {v w : Value} (h : w ∈ v.members) : w.isNull = false := by
  cases v <;> simp_all [members, isNull]

/-- The text of a value unless it is nothing. -/
def textUnlessNull (v : Value) : Option String := if v.isNull then none else some v.toText

/-- Whether a value counts as a yes: anything but nothing, `false`, zero and what is empty. -/
def isTruthy : Value → Bool
  | .null => false
  | .bool b => b
  | .int i => i != 0
  | .float x => !x.isZero
  | .text s => s != ""
  | .list items => !items.isEmpty
  | .map entries => !entries.isEmpty
  | .tagged _ content => content.isTruthy

end Value

namespace Record

/-- The name of a key that is a text, a boolean or a number. -/
def keyName? : Value → Option String
  | .text s => some s
  | .bool b => some (Value.bool b).toText
  | .int i => some (Value.int i).toText
  | .float x => some (Value.float x).toText
  | _ => none

/-- The path that the value of a `family` entry gives. A name must not hold `/`, which becomes
`-`. -/
def familyPath (v : Value) : Logged (List String) :=
  Logged.mapList (fun name => Text.exchange '/' '-' name.toText) v.members

@[simp] theorem value_familyPath (v : Value) :
    (familyPath v).value = v.members.map fun name => Text.replaceChar '/' '-' name.toText := by
  simp [familyPath]

/-- No name in the path of a family holds `/`. -/
theorem not_slash_mem_familyPath {v : Value} {name : String} (h : name ∈ (familyPath v).value) :
    '/' ∉ name.toList := by
  rw [value_familyPath, List.mem_map] at h
  obtain ⟨w, _, rfl⟩ := h
  exact Text.not_mem_replaceChar (by decide) _

/-- The path of the family that a record names, if any, and the record without it. -/
def takeFamily (record : Entries) : Logged (Option (List String) × Entries) :=
  match Value.extract? (.text "family") record with
  | none => pure (none, record)
  | some (v, rest) => do
    let path ← familyPath v
    return (some path, rest)

/-- Takes up one entry of a record by its name. An entry whose key has no name is passed over with a
warning. -/
def foldEntry {α : Type} (f : α → String → Value → Logged α) (a : α) (entry : Value × Value) :
    Logged α :=
  match keyName? entry.1 with
  | some key => f a key entry.2
  | none => do
    Logged.warn .nonScalarKey
    return a

/-- Goes through the entries of a record in their order, carrying a value along. -/
def foldEntries {α : Type} (f : α → String → Value → Logged α) (a : α) (record : Entries) :
    Logged α :=
  Logged.foldList (foldEntry f) a record

/-- Passes over an entry whose name is not known. -/
def passOver {α : Type} (a : α) (key : String) : Logged α := do
  Logged.warn (.unknownKey key)
  return a

end Record

/-! ### Items in records -/

namespace Item

/-- Sets the field that an entry of a record names. -/
def setField (item : Item) (key : String) (v : Value) : Logged Item :=
  match key with
  | "name" => pure { item with name := v.textUnlessNull }
  | "file" => pure { item with file := v.textUnlessNull }
  | "export" => pure { item with exportFile := v.textUnlessNull }
  | "title" => pure { item with pending.title := some v }
  | "index" => pure { item with pending.index := some v }
  | "pretext" => pure { item with pending.pretext := some v }
  | "text" => pure { item with pending.text := some v }
  | "labels" => pure { item with pending.labels := some v }
  | "rank" => pure { item with rank := Rank.ofValue? v }
  | "showtitle" => pure { item with showTitle := v.isTruthy }
  | "other" => pure { item with other := if v.isNull then none else some v }
  | _ => Record.passOver item key

/-- A locator as seen from the data root. An empty locator stays as it is. -/
def rebaseLocator (recordFile root locator : String) : String :=
  if locator == "" then locator else Path.rebase locator recordFile root

/-- Changes the locators of an item. -/
def mapLocators (f : String → String) (item : Item) : Item :=
  { item with
    name := item.name.map f
    file := item.file.map f
    exportFile := item.exportFile.map f }

/-- The item that a record describes. -/
def ofRecord (record : Entries) (recordFile root : String) : Logged Item :=
  mapLocators (rebaseLocator recordFile root) <$> Record.foldEntries setField {} record

end Item

/-! ### Families in records -/

namespace Family

/-- Sets the field that an entry of a record names. -/
def setField (f : Family) (key : String) (v : Value) : Logged Family :=
  match key with
  | "text" => pure { f with pending.text := some v }
  | "alias" => pure { f with pending.aliasName := some v }
  | "labels" => pure { f with pending.labels := some v }
  | "rank" => pure { f with rank := Rank.ofValue? v }
  | _ => Record.passOver f key

/-- The family with the fields of a record. -/
def merge (f : Family) (record : Entries) : Logged Family := Record.foldEntries setField f record

theorem items_setField (f : Family) (key : String) (v : Value) :
    (setField f key v).value.items = f.items := by
  unfold setField
  split <;> rfl

theorem items_foldEntry (f : Family) (entry : Value × Value) :
    (Record.foldEntry setField f entry).value.items = f.items := by
  unfold Record.foldEntry
  split
  · exact items_setField f _ entry.2
  · rfl

/-- Records of families never touch items. -/
theorem items_merge (f : Family) (record : Entries) : (f.merge record).value.items = f.items := by
  simp only [merge, Record.foldEntries, Logged.value_foldList]
  induction record generalizing f with
  | nil => rfl
  | cons entry rest ih => exact (ih _).trans (items_foldEntry f entry)

end Family

end Catalog
