import Catalog.Decimal.Notation
import Catalog.Search.Engine
import Catalog.Text.Pieces

/-!
# JSON documents

* `Json` is a document, the members of its objects in order;
* `Json.pretty` writes it with one member a line, each level two spaces further in;
* `RatioResult.toJson` is the document of a search result.
-/

namespace Catalog

/-! ### JSON documents -/

/-- A JSON document. -/
inductive Json where
  | null
  | number (n : Nat)
  | float (x : Binary64)
  | text (s : String)
  | array (items : List Json)
  | object (members : List (String × Json))
  deriving Inhabited

namespace Json

/-- The four hexadecimal digits of a control character. -/
def controlDigits (n : Nat) : List Char :=
  let digits := Nat.toDigits 16 n
  List.replicate (4 - digits.length) '0' ++ digits

/-- A character as it is written between quotes. -/
def escape (c : Char) : List Char :=
  if c == '"' || c == '\\' then ['\\', c]
  else if c == '\n' then ['\\', 'n']
  else if c == '\r' then ['\\', 'r']
  else if c == '\t' then ['\\', 't']
  else if c == '\x08' then ['\\', 'b']
  else if c == '\x0c' then ['\\', 'f']
  else if c.toNat < 0x20 then ['\\', 'u'] ++ controlDigits c.toNat
  else [c]

/-- A text between quotes. -/
def quoted (s : String) : String := String.ofList (['"'] ++ s.toList.flatMap escape ++ ['"'])

/-- A line break and the blanks in front of a line at a depth. -/
def lineBreak (depth : Nat) : String := String.ofList ('\n' :: List.replicate (2 * depth) ' ')

mutual

/-- A document at a depth. -/
def write (depth : Nat) : Json → String
  | .null => "null"
  | .number n => toString n
  | .float x => FloatNotation.document.render x
  | .text s => quoted s
  | .array [] => "[]"
  | .array (item :: items) =>
    "[" ++ lineBreak (depth + 1) ++ write (depth + 1) item ++ writeItems (depth + 1) items ++
      lineBreak depth ++ "]"
  | .object [] => "\x7b\x7d"
  | .object ((name, value) :: members) =>
    "\x7b" ++ lineBreak (depth + 1) ++ quoted name ++ ": " ++ write (depth + 1) value ++
      writeMembers (depth + 1) members ++ lineBreak depth ++ "\x7d"

/-- The items after the first one. -/
def writeItems (depth : Nat) : List Json → String
  | [] => ""
  | item :: items => "," ++ lineBreak depth ++ write depth item ++ writeItems depth items

/-- The members after the first one. -/
def writeMembers (depth : Nat) : List (String × Json) → String
  | [] => ""
  | (name, value) :: members =>
    "," ++ lineBreak depth ++ quoted name ++ ": " ++ write depth value ++ writeMembers depth members

end

/-- The text of a document. -/
def pretty (j : Json) : String := write 0 j

end Json

/-! ### Results as JSON -/

/-- The document of a label. -/
def Label.toJson (l : Label) : Json :=
  .object
    [("name", .text l.name), ("text", .text l.text), ("color", .text l.color),
     ("text_color", .text l.textColor), ("tooltip", .text l.tooltip)]

/-- The document of a found item. -/
def MatchedItem.toJson (item : MatchedItem) : Json :=
  .object
    [("title", .text item.title), ("text", .text item.text),
     ("labels", .array (item.labels.map Label.toJson)),
     ("id", (item.number.map .number).getD .null)]

/-- The members of the document of a search result. -/
def SearchResult.jsonMembers (r : SearchResult) : List (String × Json) :=
  [("matches", .object (r.found.entries.map fun e => (e.1, .array (e.2.map MatchedItem.toJson)))),
   ("families", .array (r.families.map .text)),
   ("aliases", .object (r.aliases.entries.map fun e => (e.1, .text e.2))),
   ("nb_matches", .number r.count)]

/-- The document of the result of a text with two parts. -/
def RatioResult.toJson (r : RatioResult) : Json :=
  .object
    (r.result.jsonMembers ++
      [("inner_value", .text r.query.inner), ("outer_value", .text r.query.outer),
       ("nb_total", .number r.total), ("ratio", .float r.ratio)])

end Catalog
