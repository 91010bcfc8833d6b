import Catalog.Yaml.Plain

/-!
# How a scalar may be written

A text can be written plainly, between single or double quotes, or as a block of lines. `Traits.of`
finds out which of these keep the text, and `chooseStyle` takes the plainest one that does.

* `isBreak` and `isPrintable` classify characters as documents do;
* `Traits` records what decides the style;
* `ScalarStyle` names the styles.
-/

namespace Catalog.Yaml

/-- Whether a character ends a line. -/
def isBreak (c : Char) : Bool :=
  c == '\n' || c == '\r' || c.toNat == 0x85 || c.toNat == 0x2028 || c.toNat == 0x2029

/-- Whether a character is a space or a tab. -/
def isSpaceOrTab (c : Char) : Bool := c == ' ' || c == '\t'

/-- Whether a character may stand in a document without an escape. -/
def isPrintable (c : Char) : Bool :=
  let n := c.toNat
  n == 0x0A || (0x20 ≤ n && n ≤ 0x7E) || (0xA0 ≤ n && n ≤ 0xD7FF) ||
    (0xE000 ≤ n && n ≤ 0xFFFD && n != 0xFEFF) || 0x10000 ≤ n

/-- The ways to write a scalar. -/
inductive ScalarStyle where
  | plain
  | singleQuoted
  | doubleQuoted
  | literal
  | folded
  deriving DecidableEq, Repr

/-- What the characters of a text allow. -/
structure Traits where
  /-- The text is empty. -/
  isEmpty : Bool
  /-- The text has more than one line. -/
  multiline : Bool
  /-- The text can stand without quotes inside brackets. -/
  plainInFlow : Bool
  /-- The text can stand without quotes elsewhere. -/
  plainInBlock : Bool
  /-- The text can stand between single quotes. -/
  singleQuoted : Bool
  /-- The text can be written as a block of lines. -/
  block : Bool

/-- Whether the next character, if any, is white space; the end counts as such. -/
def blankNext : List Char → Bool
  | [] => true
  | c :: _ => isSpaceOrTab c || isBreak c

/-- Characters that cannot start a plain scalar. -/
def reservedAtStart : List Char :=
  ['#', ',', '[', ']', '{', '}', '&', '*', '!', '|', '>', '\x27', '"', '%', '@', '\x60']

/-- What a walk over a text has met. -/
structure Findings where
  flowIndicator : Bool := false
  blockIndicator : Bool := false
  lineBreak : Bool := false
  special : Bool := false
  breakSpace : Bool := false
  spaceBreak : Bool := false

/-- Walks over a text, knowing whether it is at the start, whether white space precedes, and whether
the last character was a space or a line break. -/
def findings (first afterBlank afterSpace afterBreak : Bool) : List Char → Findings → Findings
  | [], f => f
  | c :: cs, f =>
    let flowStart := first && (reservedAtStart.contains c || c == '?' || c == ':' ||
      (c == '-' && blankNext cs))
    let blockStart := first && (reservedAtStart.contains c || ((c == '?' || c == ':' || c == '-') &&
      blankNext cs))
    let flowInside := !first &&
      (c == ',' || c == '?' || c == '[' || c == ']' || c == '{' || c == '}' ||
      c == ':' || (c == '#' && afterBlank))
    let blockInside := !first && ((c == ':' && blankNext cs) || (c == '#' && afterBlank))
    let found : Findings :=
      { flowIndicator := f.flowIndicator || flowStart || flowInside
        blockIndicator := f.blockIndicator || blockStart || blockInside
        lineBreak := f.lineBreak || isBreak c
        special := f.special || !isPrintable c
        breakSpace := f.breakSpace || (c == ' ' && afterBreak)
        spaceBreak := f.spaceBreak || (isBreak c && afterSpace) }
    findings false (isSpaceOrTab c || isBreak c) (c == ' ') (isBreak c) cs found

/-- Whether a text starts with one of the marks between documents. -/
def startsWithMark (cs : List Char) : Bool :=
  cs.take 3 == ['-', '-', '-'] || cs.take 3 == ['.', '.', '.']

/-- What the characters of a text allow. -/
def Traits.of (cs : List Char) : Traits :=
  if cs.isEmpty then
    { isEmpty := true, multiline := false, plainInFlow := false, plainInBlock := true
      singleQuoted := true, block := false }
  else
    let mark := startsWithMark cs
    let f := findings true true false false cs {}
    let atEdge (p : Char → Bool) : Bool := cs.head?.any p || cs.getLast?.any p
    let spaceAtEnd := cs.getLast? == some ' '
    let plain := !(atEdge (· == ' ') || atEdge isBreak || f.breakSpace || f.spaceBreak ||
      f.special || f.lineBreak)
    { isEmpty := false
      multiline := f.lineBreak
      plainInFlow := plain && !(f.flowIndicator || mark)
      plainInBlock := plain && !(f.blockIndicator || mark)
      singleQuoted := !(f.breakSpace || f.spaceBreak || f.special)
      block := !(spaceAtEnd || f.spaceBreak || f.special) }

/-- The style in which a scalar is written where one is wished for. A key on the line of its value
has one line, and what the wish does not allow falls back to quotes. -/
def chooseStyle (wish : ScalarStyle) (traits : Traits) (isSimpleKey : Bool) : ScalarStyle :=
  let keyed := if isSimpleKey && traits.multiline then .doubleQuoted else wish
  let unplain :=
    if keyed == .plain &&
      (!traits.plainInBlock || (traits.isEmpty && isSimpleKey)) then .singleQuoted
    else keyed
  let quoted :=
    if unplain == .singleQuoted && !traits.singleQuoted then .doubleQuoted else unplain
  if (quoted == .literal || quoted == .folded) && (!traits.block || isSimpleKey) then .doubleQuoted
  else quoted

/-- The style wished for a text: lines as a block, quotes where it would read as something else. -/
def wishedStyle (s : String) : ScalarStyle :=
  if s.toList.contains '\n' then .literal
  else if needsQuotes s then .singleQuoted
  else .plain

end Catalog.Yaml
