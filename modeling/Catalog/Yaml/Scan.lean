import Catalog.Yaml.PropertyToken

/-!
# From characters to tokens

The scanner goes through the text once. Blocks open and close with the indentation of their lines.
Whether a scalar is a key shows only at the colon after it, so tokens are appended, and the places
where a key turned out to begin are kept aside and spliced in at the end.

* `Scanner` is the state between two tokens;
* `Scanner.step` reads one token;
* `tokens` scans a whole text.
-/

namespace Catalog.Yaml

/-- A place where a key may begin: the number of tokens before it, whether it must be a key because
it stands at the indentation of its block, and its place in the text. -/
structure PossibleKey where
  position : Nat
  isRequired : Bool
  mark : Mark

/-- The state of the scanner between two tokens. -/
structure Scanner where
  rest : List Char
  mark : Mark := {}
  /-- The indentation of the innermost block, `-1` outside all blocks, and of the blocks around
  it. -/
  indent : Int := -1
  outer : List Int := []
  /-- How many brackets are open. -/
  depth : Nat := 0
  /-- Whether a key may begin here. -/
  keyAllowed : Bool := true
  /-- The place of a possible key outside brackets and inside each open pair, the innermost
  first. -/
  keys : List (Option PossibleKey) := [none]
  tokens : Array Token := #[]
  /-- Tokens to be spliced in, each list before the token with the given number. -/
  spliced : List (Nat × List Token) := []

namespace Scanner

/-- Whether the scanner is inside brackets. -/
def inFlow (s : Scanner) : Bool := 0 < s.depth

/-- Appends a token. -/
def push (s : Scanner) (t : Token) : Scanner := { s with tokens := s.tokens.push t }

/-- Goes on behind a reading. -/
def moveTo {α : Type} (s : Scanner) (r : Reading α) : Scanner :=
  { s with mark := r.mark, rest := r.rest }

/-- Goes on behind `n` characters of the line. -/
def skip (s : Scanner) (n : Nat) : Scanner :=
  { s with mark := s.mark.advance n, rest := s.rest.drop n }

/-! ### Possible keys -/

/-- Forgets the possible keys that are too far back: a key and its colon are on one line, at most
1024 characters apart. -/
def dropStaleKeys (s : Scanner) : Except Fault Scanner := do
  let isStale (k : PossibleKey) : Bool :=
    k.mark.line < s.mark.line || k.mark.index + 1024 < s.mark.index
  if s.keys.any fun k => k.any fun k => isStale k && k.isRequired then throw .unfinishedKey
  return { s with keys := s.keys.map fun k => k.filter fun k => !isStale k }

/-- Forgets the innermost possible key. -/
def removeKey (s : Scanner) : Except Fault Scanner :=
  match s.keys with
  | some k :: others =>
    if k.isRequired then .error .unfinishedKey else .ok { s with keys := none :: others }
  | _ => .ok s

/-- Remembers that a key may begin here. -/
def saveKey (s : Scanner) : Except Fault Scanner := do
  if !s.keyAllowed then return s
  let required := !s.inFlow && s.indent == (s.mark.column : Int)
  let t ← s.removeKey
  return { t with keys := some ⟨t.tokens.size, required, t.mark⟩ :: t.keys.drop 1 }

/-! ### Indentation -/

/-- Opens a block at a column if it lies deeper than the block around. -/
def rollIndent (s : Scanner) (column : Nat) : Scanner × Bool :=
  if !s.inFlow && s.indent < (column : Int) then
    ({ s with indent := column, outer := s.indent :: s.outer }, true)
  else (s, false)

/-- Opens a block at the current column, with its token, if it lies deeper than the block around. -/
def openBlock (s : Scanner) (start : Token) : Scanner :=
  let (t, isNew) := s.rollIndent s.mark.column
  if isNew then t.push start else t

/-- The blocks deeper than a column, as the number of their ends, and the indentations that stay. -/
def closedBlocks (column : Int) : Int → List Int → Nat × Int × List Int
  | indent, [] => (0, indent, [])
  | indent, outer :: others =>
    if column < indent then
      let (n, kept) := closedBlocks column outer others
      (n + 1, kept)
    else (0, indent, outer :: others)

/-- Closes the blocks deeper than a column. -/
def unrollIndent (s : Scanner) (column : Int) : Scanner :=
  if s.inFlow then s
  else
    let (n, indent, outer) := closedBlocks column s.indent s.outer
    { s with indent := indent, outer := outer, tokens := s.tokens ++ Array.replicate n .blockEnd }

/-! ### Between tokens -/

/-- Skips blanks, comments and line breaks. A line break outside brackets allows a key again; a tab
is skipped only where no key may begin. A byte order mark at the start of the text counts as a
blank, so what follows it stands in the second column. -/
def skipSpace (inFlow inComment keyAllowed : Bool) (m : Mark) : List Char → Bool × Mark × List Char
  | [] => (keyAllowed, m, [])
  | '\r' :: '\n' :: cs => skipSpace inFlow false (keyAllowed || !inFlow) (m.nextLine 2) cs
  | c :: cs =>
    if isBreak c then skipSpace inFlow false (keyAllowed || !inFlow) (m.nextLine 1) cs
    else if inComment then skipSpace inFlow true keyAllowed (m.advance 1) cs
    else if c == ' ' || (c == '\t' && (inFlow || !keyAllowed)) ||
      (c.toNat == 0xFEFF && m.index == 0) then
      skipSpace inFlow false keyAllowed (m.advance 1) cs
    else if c == '#' then skipSpace inFlow true keyAllowed (m.advance 1) cs
    else (keyAllowed, m, c :: cs)

/-- Moves to the next token, forgets old keys and closes the blocks that ended. -/
def toNextToken (s : Scanner) : Except Fault Scanner := do
  let (allowed, mark, rest) := skipSpace s.inFlow false s.keyAllowed s.mark s.rest
  let t ← dropStaleKeys { s with keyAllowed := allowed, mark := mark, rest := rest }
  return t.unrollIndent t.mark.column

/-! ### Single tokens -/

/-- Reads a directive. -/
def stepDirective (s : Scanner) : Except Fault Scanner := do
  let t ← (s.unrollIndent (-1)).removeKey
  let r ← directive (t.mark.advance 1) (t.rest.drop 1)
  return ({ t with keyAllowed := false }.push r.result).moveTo r

/-- Reads a mark between documents. -/
def stepDocumentMark (s : Scanner) (t : Token) : Except Fault Scanner := do
  let u ← (s.unrollIndent (-1)).removeKey
  return ({ u with keyAllowed := false }.push t).skip 3

/-- Reads an opening bracket, inside which a key may begin. -/
def stepOpen (s : Scanner) (t : Token) : Except Fault Scanner := do
  let u ← s.saveKey
  return ({ u with depth := u.depth + 1, keys := none :: u.keys, keyAllowed := true }.push t).skip 1

/-- Reads a closing bracket. -/
def stepClose (s : Scanner) (t : Token) : Except Fault Scanner := do
  let u ← s.removeKey
  let closed :=
    if u.inFlow then { u with depth := u.depth - 1, keys := u.keys.drop 1 } else u
  return ({ closed with keyAllowed := false }.push t).skip 1

/-- Reads a comma. -/
def stepFlowEntry (s : Scanner) : Except Fault Scanner := do
  let t ← s.removeKey
  return ({ t with keyAllowed := true }.push .flowEntry).skip 1

/-- Reads the dash of an item, which may open a block. -/
def stepBlockEntry (s : Scanner) : Except Fault Scanner := do
  if !s.inFlow && !s.keyAllowed then throw .placement
  let t ← (s.openBlock .blockSequenceStart).removeKey
  return ({ t with keyAllowed := true }.push .blockEntry).skip 1

/-- Reads the question mark of a key, which may open a block. -/
def stepKey (s : Scanner) : Except Fault Scanner := do
  if !s.inFlow && !s.keyAllowed then throw .placement
  let t ← (s.openBlock .blockMappingStart).removeKey
  return ({ t with keyAllowed := !t.inFlow }.push .key).skip 1

/-- Reads the colon of a value. If a key may have begun before, it did. -/
def stepValue (s : Scanner) : Except Fault Scanner := do
  match s.keys with
  | some k :: others =>
    let (t, isNew) := s.rollIndent k.mark.column
    let opening : List Token := if isNew then [.blockMappingStart, .key] else [.key]
    let u : Scanner :=
      { t with
        spliced := (k.position, opening) :: t.spliced, keys := none :: others, keyAllowed := false }
    return (u.push .value).skip 1
  | _ =>
    if !s.inFlow && !s.keyAllowed then throw .placement
    let t := s.openBlock .blockMappingStart
    return ({ t with keyAllowed := !t.inFlow }.push .value).skip 1

/-- Reads an anchor or an alias. -/
def stepAnchor (s : Scanner) (t : String → Token) : Except Fault Scanner := do
  let u ← s.saveKey
  let r ← anchorName (u.mark.advance 1) (u.rest.drop 1)
  return ({ u with keyAllowed := false }.push (t r.result)).moveTo r

/-- Reads a tag. -/
def stepTag (s : Scanner) : Except Fault Scanner := do
  let t ← s.saveKey
  let r ← tagToken t.inFlow t.mark t.rest
  return ({ t with keyAllowed := false }.push r.result).moveTo r

/-- Reads a block scalar. -/
def stepBlockScalar (s : Scanner) (folded : Bool) : Except Fault Scanner := do
  let t ← s.removeKey
  let r ← blockScalar folded t.indent (t.mark.advance 1) (t.rest.drop 1)
  let style : ScalarStyle := if folded then .folded else .literal
  return ({ t with keyAllowed := true }.push (.scalar (String.ofList r.result) style)).moveTo r

/-- Reads a quoted scalar. -/
def stepQuoted (s : Scanner) (single : Bool) : Except Fault Scanner := do
  let t ← s.saveKey
  let r ← quotedFrom single false .text [] {} (t.mark.advance 1) (t.rest.drop 1)
  let style : ScalarStyle := if single then .singleQuoted else .doubleQuoted
  return ({ t with keyAllowed := false }.push (.scalar (String.ofList r.result) style)).moveTo r

/-- Reads a plain scalar; a line break behind it allows a key again. -/
def stepPlain (s : Scanner) : Except Fault Scanner := do
  let t ← s.saveKey
  let r ← plainFrom t.inFlow (t.indent + 1) false [] {} t.mark t.rest
  return ({ t with keyAllowed := r.result.2 }.push
    (.scalar (String.ofList r.result.1) .plain)).moveTo r

/-- Whether a plain scalar may start with a character. -/
def startsPlain (inFlow : Bool) (c : Char) (next : List Char) : Bool :=
  !(isSpaceOrTab c || isBreak c || c == '-' || c == '?' || c == ':' ||
    reservedAtStart.contains c) ||
    (c == '-' && !next.head?.any isSpaceOrTab) ||
    (!inFlow && (c == '?' || c == ':') && !blankNext next)

/-- Reads the token that starts with the given character. -/
def stepAt (s : Scanner) (c : Char) (next : List Char) : Except Fault Scanner :=
  if s.mark.column == 0 && c == '%' then s.stepDirective
  else if atDocumentMark s.mark s.rest then
    s.stepDocumentMark (if c == '-' then .documentStart else .documentEnd)
  else if c == '[' then s.stepOpen .flowSequenceStart
  else if c == '\x7b' then s.stepOpen .flowMappingStart
  else if c == ']' then s.stepClose .flowSequenceEnd
  else if c == '\x7d' then s.stepClose .flowMappingEnd
  else if c == ',' then s.stepFlowEntry
  else if c == '-' && blankNext next then s.stepBlockEntry
  else if c == '?' && (s.inFlow || blankNext next) then s.stepKey
  else if c == ':' && (s.inFlow || blankNext next) then s.stepValue
  else if c == '*' then s.stepAnchor .aliasOf
  else if c == '&' then s.stepAnchor .anchor
  else if c == '!' then s.stepTag
  else if c == '|' && !s.inFlow then s.stepBlockScalar false
  else if c == '>' && !s.inFlow then s.stepBlockScalar true
  else if c == '\x27' then s.stepQuoted true
  else if c == '"' then s.stepQuoted false
  else if startsPlain s.inFlow c next then s.stepPlain
  else .error .token

/-- Closes all blocks at the end of the text. -/
def finish (s : Scanner) : Except Fault Scanner := (s.unrollIndent (-1)).removeKey

/-- Reads all tokens. Each one takes at least a character of the text. -/
def run (s : Scanner) : Except Fault Scanner :=
  match s.toNextToken with
  | .error e => .error e
  | .ok t =>
    match t.rest with
    | [] => t.finish
    | c :: next =>
      match t.stepAt c next with
      | .error e => .error e
      | .ok u => if _h : u.rest.length < s.rest.length then u.run else .error .token
termination_by s.rest.length

end Scanner

/-- Splices lists of tokens in, each before the token with its number; `n` is the number of the next
token. -/
def splice (spliced : List (Nat × List Token)) (n : Nat) : List Token → List Token
  | [] => []
  | t :: ts =>
    (match spliced.find? fun e => e.1 == n with
      | some e => e.2
      | none => []) ++ t :: splice spliced (n + 1) ts

/-- Whether a character may stand in a text that is read. -/
def isReadable (c : Char) : Bool :=
  c == '\t' || c == '\r' || c.toNat == 0x85 || c.toNat == 0xFEFF || isPrintable c

/-- The tokens of a text. -/
def tokens (text : String) : Except Fault (List Token) := do
  if !text.toList.all isReadable then throw .character
  let s ← Scanner.run { rest := text.toList }
  return splice s.spliced 0 s.tokens.toList

end Catalog.Yaml
