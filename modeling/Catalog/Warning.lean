import Catalog.Text.Visible

/-!
# Warnings

Reading records never stops at something odd: it goes on in a stated way and notes a warning.

* `Warning` lists what can be odd, and `Warning.message` words it;
* `Logged` is a value with the warnings noted while it was found. It is a monad, and `value_bind`
  says that warnings never change a value.
-/

namespace Catalog

/-- Something odd that was met on the way to a value. -/
inductive Warning where
  /-- A name holds a character that is exchanged for another. -/
  | illegalCharacter (name : String) (old new : Char)
  /-- A record has a key that is not known. -/
  | unknownKey (key : String)
  /-- A record has a key that is no scalar. -/
  | nonScalarKey
  /-- A label has a field that is not known. -/
  | unknownLabelField
  /-- A label is none of the known ones. -/
  | unknownLabel
  /-- A family has sub-families and items. -/
  | mixedFamily
  /-- The ranks of the items of a family differ in kind. -/
  | mixedItemRanks
  /-- The ranks of the sub-families of a family differ in kind. -/
  | mixedFamilyRanks
  /-- A record file cannot be used. -/
  | skippedRecord
  /-- A file or directory cannot be reached. -/
  | unreadableEntry
  /-- The data root is no directory. -/
  | rootIsNoDirectory
  /-- The families file is missing. -/
  | missingFamiliesFile
  /-- The families file cannot be used. -/
  | skippedFamiliesFile
  /-- The families file holds no list. -/
  | familiesAreNoList
  /-- An entry of the families file is no mapping. -/
  | familyIsNoMapping
  /-- An entry of the families file names no family. -/
  | unnamedFamily
  /-- An entry of the families file names a family that does not exist. -/
  | unknownFamily
  /-- A file to be written is there already. -/
  | exportExists
  /-- The configuration file is missing. -/
  | missingConfiguration
  /-- The configuration file cannot be used. -/
  | defaultConfiguration
  /-- The configuration has a key that is not known. -/
  | unknownConfigurationKey
  deriving DecidableEq, Repr

/-- The wording of a warning. -/
def Warning.message : Warning → String
  | .illegalCharacter _ old new =>
    "illegal char " ++ Text.visibleChar old ++ ", replacing with " ++ Text.visibleChar new
  | .unknownKey _ => "preventing addition of unknown key"
  | .nonScalarKey => "ignoring non-scalar key"
  | .unknownLabelField => "unknown label key ignored"
  | .unknownLabel => "label not in known labels, using defaults"
  | .mixedFamily => "family had both sub-families and graphs, moving graphs to sub-family"
  | .mixedItemRanks => "mix of types found in graph ranks, skipping sort"
  | .mixedFamilyRanks => "mix of types found in family ranks, using ranks as strings"
  | .skippedRecord => "skipping record"
  | .unreadableEntry => "skipping unreadable entry"
  | .rootIsNoDirectory => "data root is not a directory"
  | .missingFamiliesFile => "families file does not exist"
  | .skippedFamiliesFile => "skipping families file"
  | .familiesAreNoList => "families file did not contain a YAML list"
  | .familyIsNoMapping => "families entry is not a YAML dict"
  | .unnamedFamily => "missing \"family\" key, skipping"
  | .unknownFamily => "family was not found in data"
  | .exportExists => "file exists, skipping export"
  | .missingConfiguration => "configuration file does not exist"
  | .defaultConfiguration => "using default configuration"
  | .unknownConfigurationKey => "unknown configuration key ignored"

/-- A value with the warnings noted on the way to it, in their order. -/
structure Logged (α : Type) where
  value : α
  warnings : List Warning := []

namespace Logged

variable {α β : Type}

/-- Goes on with a value and keeps the warnings so far. -/
def andThen (x : Logged α) (f : α → Logged β) : Logged β :=
  ⟨(f x.value).value, x.warnings ++ (f x.value).warnings⟩

instance : Monad Logged where
  pure a := ⟨a, []⟩
  bind := andThen

/-- Notes a warning. -/
def warn (w : Warning) : Logged Unit := ⟨(), [w]⟩

@[simp] theorem value_pure (a : α) : (pure a : Logged α).value = a := rfl

@[simp] theorem warnings_pure (a : α) : (pure a : Logged α).warnings = [] := rfl

@[simp] theorem value_bind (x : Logged α) (f : α → Logged β) :
    (x >>= f).value = (f x.value).value := rfl

@[simp] theorem warnings_bind (x : Logged α) (f : α → Logged β) :
    (x >>= f).warnings = x.warnings ++ (f x.value).warnings := rfl

@[simp] theorem value_map (f : α → β) (x : Logged α) : (f <$> x).value = f x.value := rfl

@[simp] theorem value_warn (w : Warning) : (warn w).value = () := rfl

theorem ext {x y : Logged α} (hv : x.value = y.value) (hw : x.warnings = y.warnings) : x = y := by
  cases x
  cases y
  simp_all

instance : LawfulMonad Logged :=
  LawfulMonad.mk' Logged (fun _ => ext rfl (List.append_nil _)) (fun _ _ => rfl)
    (fun _ _ _ => ext rfl (List.append_assoc ..))

/-- Applies a function to the members of a list in turn. -/
def mapList (f : α → Logged β) : List α → Logged (List β)
  | [] => pure []
  | a :: rest => do
    let b ← f a
    let bs ← mapList f rest
    return b :: bs

@[simp] theorem value_mapList (f : α → Logged β) (xs : List α) :
    (mapList f xs).value = xs.map fun a => (f a).value := by
  induction xs with
  | nil => rfl
  | cons a rest ih => simp [mapList, ih]

/-- Goes through the members of a list in turn, carrying a value along. -/
def foldList (f : β → α → Logged β) (b : β) : List α → Logged β
  | [] => pure b
  | a :: rest => do foldList f (← f b a) rest

@[simp] theorem value_foldList (f : β → α → Logged β) (b : β) (xs : List α) :
    (foldList f b xs).value = xs.foldl (fun c a => (f c a).value) b := by
  induction xs generalizing b with
  | nil => rfl
  | cons a rest ih => simp [foldList, ih]

end Logged

end Catalog
