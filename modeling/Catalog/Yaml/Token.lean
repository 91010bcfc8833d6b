import Catalog.Yaml.Style

/-!
# Tokens of a document

* `Fault` names the causes why a text is no document, from single characters up to values;
* `Token` lists the tokens; the start of a block and its end are tokens too, found by indentation;
* `Mark` is a place in the text;
* `Reading` is what a scanner of one token gives: its result, the place after it and the rest of the
  text.
-/

namespace Catalog.Yaml

/-! ### Why a text is no document -/

/-- Why a text is no document. -/
inductive Fault where
  /-- A character may not stand in a document. -/
  | character
  /-- The characters at some place form no token. -/
  | token
  /-- A quoted text is not closed, or has an escape that stands for nothing. -/
  | quoted
  /-- White space is used where it has no meaning. -/
  | indentation
  /-- A key, a value or an item may not stand at its place. -/
  | placement
  /-- A key has no value on its line. -/
  | unfinishedKey
  /-- A directive is unknown, repeated or not understood. -/
  | directive
  /-- The tokens form no node. -/
  | node
  /-- A tag has a handle that no directive declares. -/
  | tagHandle
  /-- An alias has no anchor. -/
  | unknownAlias
  /-- There is more than one document. -/
  | severalDocuments
  /-- Collections are nested too deeply. -/
  | tooDeep
  /-- Aliases repeat too much of the document. -/
  | tooManyAliases
  /-- A mapping has a key twice. -/
  | duplicateKey
  /-- A scalar is not of the kind that its tag asks for. -/
  | tagMismatch
  /-- An integer is too large for a value. -/
  | integerTooLarge
  deriving DecidableEq, Repr, Inhabited

/-! ### Tokens of a document -/

/-- A token. -/
inductive Token where
  | versionDirective (major minor : Nat)
  | tagDirective (handle expansion : String)
  | documentStart
  | documentEnd
  | blockSequenceStart
  | blockMappingStart
  | blockEnd
  | flowSequenceStart
  | flowSequenceEnd
  | flowMappingStart
  | flowMappingEnd
  | blockEntry
  | flowEntry
  | key
  | value
  | aliasOf (name : String)
  | anchor (name : String)
  | tag (handle suffix : String)
  | scalar (text : String) (style : ScalarStyle)
  deriving DecidableEq, Repr, Inhabited

/-- A place in the text: characters and lines before it, and characters before it on its line. -/
structure Mark where
  index : Nat := 0
  line : Nat := 0
  column : Nat := 0
  deriving DecidableEq, Repr

/-- The place after `n` more characters of the line. -/
def Mark.advance (m : Mark) (n : Nat) : Mark :=
  { m with index := m.index + n, column := m.column + n }

/-- The place after a line break of `n` characters. -/
def Mark.nextLine (m : Mark) (n : Nat) : Mark := ⟨m.index + n, m.line + 1, 0⟩

/-- A result together with the place and the text after it. -/
structure Reading (α : Type) where
  result : α
  mark : Mark
  rest : List Char

/-- Whether a character may be part of a name: an ASCII letter or digit, `-` or `_`. -/
def isNameChar (c : Char) : Bool :=
  ('0' ≤ c && c ≤ '9') || ('A' ≤ c && c ≤ 'Z') || ('a' ≤ c && c ≤ 'z') || c == '-' || c == '_'

/-- Whether a line starts with a mark between documents. -/
def atDocumentMark (m : Mark) (cs : List Char) : Bool :=
  m.column == 0 && startsWithMark cs && blankNext (cs.drop 3)

/-- What a line break leaves in a text: the separators of lines and paragraphs stay, others become
`\n`. -/
def keptBreak (c : Char) : Char :=
  if c.toNat == 0x2028 || c.toNat == 0x2029 then c else '\n'

end Catalog.Yaml
