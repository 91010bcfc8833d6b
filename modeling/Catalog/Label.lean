import Catalog.Keyword
import Catalog.Sorted.Set
import Catalog.Yaml.Writer

/-!
# Labels

A label is a small coloured tag on families and items. Its name is a keyword, so that searching for
the name finds everything that bears the label.

* `Label.ofValue` reads a label from a record: a mapping of fields, a well-known name, or any other
  text;
* `Label.toValue` is the mapping of the five fields of a label;
* labels are ordered field by field, and `Label.sortedForDisplay` orders them by colour and name.
-/

namespace Catalog

/-- A coloured tag on families and items. -/
structure Label where
  name : String
  text : String
  color : String
  textColor : String
  tooltip : String
  deriving DecidableEq, Repr, Inhabited

namespace Label

/-! ### Order -/

/-- The fields of a label in the order in which they are compared. -/
def fields (l : Label) : List String := [l.name, l.text, l.color, l.textColor, l.tooltip]

theorem fields_injective {a b : Label} (h : a.fields = b.fields) : a = b := by
  cases a
  cases b
  simp_all [fields]

instance : Ord Label := ⟨compareOn fields⟩

instance : Std.TransOrd Label := inferInstanceAs (Std.TransCmp (compareOn fields))

instance : Std.LawfulEqOrd Label where
  eq_of_compare {a b} h := by
    have h' : compare a.fields b.fields = .eq := h
    exact fields_injective (Std.LawfulEqOrd.eq_of_compare h')

/-- Whether the first label is not shown after the second: the colours decide, then the names. -/
def displayedBefore (a b : Label) : Bool := (compare [a.color, a.name] [b.color, b.name]).isLE

/-- Labels as they are shown: by colour, then by name, and otherwise as they came. -/
def sortedForDisplay (labels : List Label) : List Label := labels.mergeSort displayedBefore

/-! ### Well-known labels -/

/-- The text and the colours that go with a well-known name. -/
structure Preset where
  name : String
  text : String
  textColor : String
  color : String

/-- The well-known labels. -/
def presets : List Preset :=
  [⟨"ongoing", "ON-GOING", "white", "#859900"⟩,
   ⟨"new", "NEW", "white", "#268bd2"⟩,
   ⟨"update", "UPDATE", "white", "#268bd2"⟩,
   ⟨"obsolete", "OBSOLETE", "white", "#586e75"⟩,
   ⟨"bugfix", "BUGFIX", "white", "#cb4b16"⟩,
   ⟨"warning", "WARNING", "white", "#cb4b16"⟩,
   ⟨"error", "ERROR", "white", "#dc322f"⟩,
   ⟨"important", "IMPORTANT", "white", "#b58900"⟩]

/-! ### Labels in records -/

/-- What a record tells about a label. The name is not a keyword yet, and the tooltip may be
missing. -/
structure Draft where
  name : String := "no_name_provided"
  text : String := "No text provided"
  color : String := "#268bd2"
  textColor : String := "white"
  tooltip : Option String := none

namespace Draft

/-- Sets the field that an entry of a mapping names. -/
def setField (d : Draft) (entry : Value × Value) : Logged Draft :=
  match entry.1.asText? with
  | some "name" => pure { d with name := entry.2.toText }
  | some "text" => pure { d with text := entry.2.toText }
  | some "color" => pure { d with color := entry.2.toText }
  | some "text_color" => pure { d with textColor := entry.2.toText }
  | some "tooltip" =>
    pure { d with tooltip := if entry.2.isNull then none else some entry.2.toText }
  | _ => do
    Logged.warn .unknownLabelField
    return d

/-- The label named by a text. A name that is not well known is its own text. -/
def ofName (name : String) : Logged Draft :=
  match presets.find? fun preset => preset.name == name with
  | some preset => pure ⟨name, preset.text, preset.color, preset.textColor, none⟩
  | none => do
    Logged.warn .unknownLabel
    return { name := name, text := name }

/-- Reads a mapping field by field, and any other value as a name. -/
def ofValue : Value → Logged Draft
  | .map entries => Logged.foldList setField {} entries
  | v => ofName v.toText

/-- The label of a draft: the name becomes a keyword, and a missing tooltip tells how to use it. -/
def toLabel (d : Draft) : Logged Label := do
  let name ← Keyword.ofText d.name
  let tooltip := d.tooltip.getD ("Use " ++ name ++ " to search for this label.")
  return ⟨name, d.text, d.color, d.textColor, tooltip⟩

end Draft

/-- The label that a value of a record gives. -/
def ofValue (v : Value) : Logged Label := do (← Draft.ofValue v).toLabel

theorem name_ofValue (v : Value) :
    (ofValue v).value.name = (Keyword.ofText (Draft.ofValue v).value.name).value := rfl

/-- The mapping of the fields of a label. -/
def toValue (l : Label) : Value :=
  .map [(.text "name", .text l.name), (.text "text", .text l.text), (.text "color", .text l.color),
    (.text "text_color", .text l.textColor), (.text "tooltip", .text l.tooltip)]

end Label

end Catalog
