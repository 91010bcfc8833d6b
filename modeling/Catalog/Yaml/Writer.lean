import Catalog.Decimal.Notation
import Catalog.Text.Pieces
import Catalog.Yaml.Page

/-!
# Writing documents

A value is written in block style: one line for each item of a list and each entry of a mapping,
brackets only for those without items or entries.

* `scalarText` gives the text of a value that is no collection, and `isSimpleKey` tells which keys
  stand on the line of their value;
* `isWritable` excludes the values that have no document: a tag directly under a tag, and a mapping
  of one entry whose key is tagged or is itself a mapping of one entry;
* `document` writes a value;
* `Value.toText` is the text by which records show a value: scalars stand for themselves, nothing is
  the empty text, and collections and tagged values become a document without the blanks at its end.
-/

namespace Catalog

/-! ### Writing documents -/

namespace Yaml

/-- The text of a scalar value and the style wished for it. -/
def scalarText : Value → Option (String × ScalarStyle)
  | .null => some ("null", .plain)
  | .bool b => some (if b then "true" else "false", .plain)
  | .int i => some (toString i, .plain)
  | .float x => some (FloatNotation.document.render x, .plain)
  | .text s => some (s, wishedStyle s)
  | _ => none

/-- Whether a key is short enough and has one line, so that it stands on the line of its value. -/
def isSimpleKey : Value → Bool
  | .tagged tag content => isSimpleUntagged (1 + (Value.tagName tag).utf8ByteSize) content
  | key => isSimpleUntagged 0 key
where
  /-- The same for what stands under a tag that takes `length` bytes. -/
  isSimpleUntagged (length : Nat) (key : Value) : Bool :=
    match key with
    | .list items => items.isEmpty && length ≤ 128
    | .map entries => entries.isEmpty && length ≤ 128
    | _ =>
      match scalarText key with
      | some (s, _) => !(Traits.of s.toList).multiline && length + s.utf8ByteSize ≤ 128
      | none => false

/-- The indentation of a collection inside another. -/
def deeper (indent : Int) : Int := if indent < 0 then 0 else indent + 2

/-- Writes a scalar; its further lines stand deeper than the node around it. -/
def writeScalar (indent : Int) (isKey : Bool) (s : String) (wish : ScalarStyle) (p : Page) : Page :=
  let cs := s.toList
  p.scalar (chooseStyle wish (Traits.of cs) isKey) (if indent < 0 then 2 else indent + 2) cs

mutual

/-- Writes a value. `inMapping` tells whether it is a key or value of a mapping, where the items of
a list need no deeper indentation, and `isKey` whether it is a key on the line of its value. -/
def writeValue (indent : Int) (inMapping isKey : Bool) : Value → Page → Page
  | .tagged tag content, p => writeValue indent inMapping isKey content (p.tag tag)
  | .list [], p => (p.indicator ['['] true true false).indicator [']'] false false false
  | .list (item :: items), p =>
    let inner := if inMapping && !p.onlyIndented && 0 ≤ indent then indent else deeper indent
    writeItems inner (item :: items) p
  | .map [], p => (p.indicator ['\x7b'] true true false).indicator ['\x7d'] false false false
  | .map (entry :: entries), p => writeEntries (deeper indent) (entry :: entries) p
  | .null, p => writeScalar indent isKey "null" .plain p
  | .bool b, p => writeScalar indent isKey (if b then "true" else "false") .plain p
  | .int i, p => writeScalar indent isKey (toString i) .plain p
  | .float x, p => writeScalar indent isKey (FloatNotation.document.render x) .plain p
  | .text s, p => writeScalar indent isKey s (wishedStyle s) p

/-- Writes the items of a list. -/
def writeItems (indent : Int) : List Value → Page → Page
  | [], p => p
  | item :: items, p =>
    let q := (p.newLine indent).indicator ['-'] true false true
    writeItems indent items (writeValue indent false false item q)

/-- Writes the entries of a mapping. -/
def writeEntries (indent : Int) : List (Value × Value) → Page → Page
  | [], p => p
  | (key, value) :: entries, p =>
    let q := p.newLine indent
    let r :=
      if isSimpleKey key then (writeValue indent true true key q).indicator [':'] false false false
      else
        let keyed := writeValue indent true false key (q.indicator ['?'] true false true)
        (keyed.newLine indent).indicator [':'] true false true
    writeEntries indent entries (writeValue indent true false value r)

end

/-- Whether a key cannot open a mapping of one entry. -/
def closesEarly : Value → Bool
  | .tagged .. => true
  | .map [_] => true
  | _ => false

mutual

/-- Whether a value has a document; `underTag` tells whether it stands directly under a tag. -/
def isWritable (underTag : Bool) : Value → Bool
  | .tagged _ content => !underTag && isWritable true content
  | .list items => areWritable items
  | .map [(key, value)] =>
    (underTag || !closesEarly key) && isWritable false key && isWritable false value
  | .map entries => entriesWritable entries
  | _ => true

/-- Whether all items have a document. -/
def areWritable : List Value → Bool
  | [] => true
  | item :: items => isWritable false item && areWritable items

/-- Whether all entries have a document. -/
def entriesWritable : List (Value × Value) → Bool
  | [] => true
  | (key, value) :: entries =>
    isWritable false key && isWritable false value && entriesWritable entries

end

/-- The document of a value, ending with a line break. -/
def document (v : Value) : Option String :=
  if isWritable false v then some ((writeValue (-1) false false v {}).newLine (-1)).text else none

end Yaml

/-! ### The text of a value -/

namespace Value

/-- The text of a value. A value without document has the empty text. -/
def toText : Value → String
  | .null => ""
  | .bool b => if b then "true" else "false"
  | .int i => toString i
  | .float x => FloatNotation.document.render x
  | .text s => s
  | v => Text.trimEnd ((Yaml.document v).getD "")

@[simp] theorem toText_text (s : String) : toText (.text s) = s := rfl

end Value

end Catalog
