import Catalog.Decimal.Binary

/-!
# Record values

A record holds values of no fixed type: nothing, booleans, integers, floating-point numbers, texts,
lists, mappings in the order of their entries, and values under a tag.

* `Value.same` is the equality by which the keys of a mapping are told apart;
* `Value.asText?` gives the text of a value, looking through tags;
* `Value.lookup?` and `Value.extract?` find an entry of a mapping.
-/

namespace Catalog

/-- A value of a record. -/
inductive Value where
  | null
  | bool (b : Bool)
  | int (i : Int)
  | float (x : Binary64)
  | text (s : String)
  | list (items : List Value)
  | map (entries : List (Value × Value))
  | tagged (tag : String) (content : Value)
  deriving Inhabited, Repr

/-- The entries of a mapping, in order. -/
abbrev Entries := List (Value × Value)

namespace Value

/-- The name of a tag, without a leading exclamation mark. -/
def tagName (tag : String) : String :=
  match tag.toList with
  | '!' :: c :: rest => String.ofList (c :: rest)
  | _ => tag

mutual

/-- Whether two values are one key. Numbers are equal only within their kind, and mappings are equal
whatever the order of their entries. -/
def same : Value → Value → Bool
  | .null, .null => true
  | .bool a, .bool b => a == b
  | .int i, .int j => i == j
  | .float x, .float y => x.sameValue y
  | .text s, .text t => s == t
  | .list xs, .list ys => sameItems xs ys
  | .map es, .map fs => es.length == fs.length && sameEntries es fs
  | .tagged t x, .tagged u y => tagName t == tagName u && same x y
  | _, _ => false

/-- Whether two lists have the same items. -/
def sameItems : List Value → List Value → Bool
  | [], [] => true
  | x :: xs, y :: ys => same x y && sameItems xs ys
  | _, _ => false

/-- Whether every entry of the first list has a partner in the second. -/
def sameEntries : List (Value × Value) → List (Value × Value) → Bool
  | [], _ => true
  | (k, v) :: es, fs => (fs.any fun f => same k f.1 && same v f.2) && sameEntries es fs

end

/-- The text of a value that is a text, perhaps under tags. -/
def asText? : Value → Option String
  | .text s => some s
  | .tagged _ v => v.asText?
  | _ => none

/-- Whether a value is nothing. -/
def isNull : Value → Bool
  | .null => true
  | _ => false

/-- The value of the entry with the given key. -/
def lookup? (key : Value) (entries : Entries) : Option Value :=
  (entries.find? fun e => e.1.same key).map (·.2)

/-- Takes the entry with the given key out of a mapping. The last entry moves into its place. -/
def extract? (key : Value) (entries : Entries) : Option (Value × Entries) :=
  match entries.findIdx? fun e => e.1.same key with
  | none => none
  | some i =>
    match entries[i]?, entries.getLast? with
    | some e, some last =>
      let rest := if i + 1 = entries.length then entries.dropLast else (entries.set i last).dropLast
      some (e.2, rest)
    | _, _ => none

end Value

end Catalog
