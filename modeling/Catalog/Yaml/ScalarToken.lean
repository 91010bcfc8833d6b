import Catalog.Yaml.Token

/-!
# Scanning scalars

The three forms of scalars are read character by character. White space between words is held back
until the next word shows whether it is kept, folded or dropped.

* `Folding` is the white space held back, and `Folding.joined` what becomes of it;
* `plainFrom`, `quotedFrom` and `blockScalar` read one scalar each.
-/

namespace Catalog.Yaml

/-! ### White space between words -/

/-- White space held back inside a scalar: the blanks of the line, then, after a line break, the
first break and the later ones. -/
structure Folding where
  blanks : List Char := []
  afterBreak : Bool := false
  firstBreak : List Char := []
  laterBreaks : List Char := []

/-- Holds back a blank; blanks at the start of a line are dropped. -/
def Folding.addBlank (f : Folding) (c : Char) : Folding :=
  if f.afterBreak then f else { f with blanks := f.blanks ++ [c] }

/-- Holds back a line break; it drops the blanks before it. -/
def Folding.addBreak (f : Folding) (c : Char) : Folding :=
  if f.afterBreak then { f with laterBreaks := f.laterBreaks ++ [keptBreak c] }
  else { f with blanks := [], afterBreak := true, firstBreak := [keptBreak c] }

/-- What the white space becomes when a word follows: blanks stay, one break becomes a space, and of
several breaks the first is dropped. -/
def Folding.joined (f : Folding) : List Char :=
  if f.afterBreak then
    if f.firstBreak == ['\n'] then
      if f.laterBreaks.isEmpty then [' '] else f.laterBreaks
    else f.firstBreak ++ f.laterBreaks
  else f.blanks

/-! ### Plain scalars -/

/-- Whether a plain scalar ends before a character. -/
def endsPlain (inFlow : Bool) (c : Char) (next : List Char) : Bool :=
  (c == ':' && blankNext next) || (inFlow && [',', '[', ']', '{', '}'].contains c)

/-- Whether a colon stands where it would end a plain scalar but may not. -/
def misplacedColon (inFlow : Bool) (c : Char) (next : List Char) : Bool :=
  inFlow && c == ':' && next.head?.any fun d => [',', '?', '[', ']', '{', '}'].contains d

/-- Reads a plain scalar from its first character on. `fresh` tells whether white space precedes;
`text` holds the characters so far, last first. The result tells whether a line break was met at the
end. -/
def plainFrom (inFlow : Bool) (indent : Int) (fresh : Bool) (text : List Char) (f : Folding)
    (m : Mark) : List Char → Except Fault (Reading (List Char × Bool))
  | [] => .ok ⟨(text.reverse, f.afterBreak), m, []⟩
  | '\r' :: '\n' :: cs => plainFrom inFlow indent true text (f.addBreak '\n') (m.nextLine 2) cs
  | c :: cs =>
    if isSpaceOrTab c then
      if f.afterBreak && (m.column : Int) < indent && c == '\t' then .error .indentation
      else plainFrom inFlow indent true text (f.addBlank c) (m.advance 1) cs
    else if isBreak c then plainFrom inFlow indent true text (f.addBreak c) (m.nextLine 1) cs
    else if fresh && ((!inFlow && (m.column : Int) < indent) || atDocumentMark m (c :: cs) ||
      c == '#')
    then .ok ⟨(text.reverse, f.afterBreak), m, c :: cs⟩
    else if misplacedColon inFlow c cs then .error .token
    else if endsPlain inFlow c cs then .ok ⟨(text.reverse, f.afterBreak), m, c :: cs⟩
    else plainFrom inFlow indent false (c :: (f.joined.reverse ++ text)) {} (m.advance 1) cs

/-! ### Quoted scalars -/

/-- The character that a one-letter escape stands for. -/
def shortEscape? (c : Char) : Option Char :=
  match c with
  | '0' => some (Char.ofNat 0x00)
  | 'a' => some (Char.ofNat 0x07)
  | 'b' => some (Char.ofNat 0x08)
  | 't' => some '\t'
  | '\t' => some '\t'
  | 'n' => some '\n'
  | 'v' => some (Char.ofNat 0x0B)
  | 'f' => some (Char.ofNat 0x0C)
  | 'r' => some '\r'
  | 'e' => some (Char.ofNat 0x1B)
  | ' ' => some ' '
  | '"' => some '"'
  | '/' => some '/'
  | '\\' => some '\\'
  | 'N' => some (Char.ofNat 0x85)
  | '_' => some (Char.ofNat 0xA0)
  | 'L' => some (Char.ofNat 0x2028)
  | 'P' => some (Char.ofNat 0x2029)
  | _ => none

/-- The number of hexadecimal digits after a letter of an escape. -/
def escapeDigits? (c : Char) : Option Nat :=
  match c with
  | 'x' => some 2
  | 'u' => some 4
  | 'U' => some 8
  | _ => none

/-- Where a reader of a quoted scalar stands: in the text, after a backslash, among the digits of an
escape, with the number of digits still to come and the value of those read, or behind a single
quote that closes the text unless another one follows. -/
inductive QuotedState where
  | text
  | escape
  | digits (remaining value : Nat)
  | closing

/-- Reads a quoted scalar from behind its opening quote. `fresh` tells whether white space precedes,
and `text` holds the characters so far, last first. -/
def quotedFrom (single fresh : Bool) (state : QuotedState) (text : List Char) (f : Folding)
    (m : Mark) : List Char → Except Fault (Reading (List Char))
  | [] =>
    match state with
    | .closing => .ok ⟨text.reverse, m, []⟩
    | _ => .error .quoted
  | '\r' :: '\n' :: cs =>
    match state with
    | .digits .. => .error .quoted
    | .closing => .ok ⟨text.reverse, m, '\r' :: '\n' :: cs⟩
    | .escape => quotedFrom single true .text text { afterBreak := true } (m.nextLine 2) cs
    | .text => quotedFrom single true .text text (f.addBreak '\n') (m.nextLine 2) cs
  | c :: cs =>
    match state with
    | .closing =>
      if c == '\x27' then quotedFrom single false .text ('\x27' :: text) {} (m.advance 1) cs
      else .ok ⟨text.reverse, m, c :: cs⟩
    | .digits remaining value =>
      match digitIn? 16 c with
      | none => .error .quoted
      | some d =>
        let n := 16 * value + d
        if 1 < remaining then
          quotedFrom single false (.digits (remaining - 1) n) text f (m.advance 1) cs
        else if n < 0x110000 && !(0xD800 ≤ n && n ≤ 0xDFFF) then
          quotedFrom single false .text (Char.ofNat n :: text) f (m.advance 1) cs
        else .error .quoted
    | .escape =>
      if isBreak c then quotedFrom single true .text text { afterBreak := true } (m.nextLine 1) cs
      else
        match shortEscape? c, escapeDigits? c with
        | some d, _ => quotedFrom single false .text (d :: text) f (m.advance 1) cs
        | none, some n => quotedFrom single false (.digits n 0) text f (m.advance 1) cs
        | none, none => .error .quoted
    | .text =>
      if isSpaceOrTab c then quotedFrom single true .text text (f.addBlank c) (m.advance 1) cs
      else if isBreak c then quotedFrom single true .text text (f.addBreak c) (m.nextLine 1) cs
      else if fresh && atDocumentMark m (c :: cs) then .error .quoted
      else
        let joined := f.joined.reverse ++ text
        if single && c == '\x27' then quotedFrom single false .closing joined {} (m.advance 1) cs
        else if !single && c == '"' then .ok ⟨joined.reverse, m.advance 1, cs⟩
        else if !single && c == '\\' then quotedFrom single false .escape joined {} (m.advance 1) cs
        else quotedFrom single false .text (c :: joined) {} (m.advance 1) cs

/-! ### Block scalars -/

/-- What becomes of the line breaks at the end of a block: dropped, one kept, or all kept. -/
inductive Chomping where
  | strip
  | clip
  | keep
  deriving DecidableEq

/-- The header of a block scalar: its chomping and, if given, how much deeper it stands. -/
def blockHeader (m : Mark) (cs : List Char) : Except Fault (Reading (Chomping × Nat)) :=
  let chomping? (c : Char) : Option Chomping :=
    if c == '+' then some .keep else if c == '-' then some .strip else none
  match cs with
  | c :: d :: rest =>
    match chomping? c, isDigit c with
    | some chomp, _ =>
      if d == '0' then .error .token
      else if isDigit d then .ok ⟨(chomp, digitValue d), m.advance 2, rest⟩
      else .ok ⟨(chomp, 0), m.advance 1, d :: rest⟩
    | none, true =>
      if c == '0' then .error .token
      else
        match chomping? d with
        | some chomp => .ok ⟨(chomp, digitValue c), m.advance 2, rest⟩
        | none => .ok ⟨(.clip, digitValue c), m.advance 1, d :: rest⟩
    | none, false => .ok ⟨(.clip, 0), m, c :: d :: rest⟩
  | [c] =>
    match chomping? c, isDigit c with
    | some chomp, _ => .ok ⟨(chomp, 0), m.advance 1, []⟩
    | none, true => if c == '0' then .error .token else .ok ⟨(.clip, digitValue c), m.advance 1, []⟩
    | none, false => .ok ⟨(.clip, 0), m, [c]⟩
  | [] => .ok ⟨(.clip, 0), m, []⟩

/-- Skips blanks and a comment up to the end of the line, and the line break. -/
def finishLine (inComment : Bool) (m : Mark) : List Char → Except Fault (Reading Unit)
  | [] => .ok ⟨(), m, []⟩
  | '\r' :: '\n' :: cs => .ok ⟨(), m.nextLine 2, cs⟩
  | c :: cs =>
    if isBreak c then .ok ⟨(), m.nextLine 1, cs⟩
    else if inComment || isSpaceOrTab c then finishLine inComment (m.advance 1) cs
    else if c == '#' then finishLine true (m.advance 1) cs
    else .error .token

/-- A block scalar under way. The indentation is absent until the first line that is not empty shows
it; `widest` is the widest of the empty lines before. `text` holds the characters so far, last
first. -/
structure BlockState where
  indent : Option Nat
  widest : Nat := 0
  text : List Char := []
  leadingBreak : List Char := []
  laterBreaks : List Char := []
  leadingBlank : Bool := false

/-- The text of a block scalar with the line breaks at its end chomped. -/
def BlockState.finish (s : BlockState) (chomping : Chomping) : List Char :=
  s.text.reverse ++ (if chomping == .strip then [] else s.leadingBreak) ++
    (if chomping == .keep then s.laterBreaks else [])

/-- Starts a line whose first character is given. In a folded block the break before a line becomes
a space unless the line or the one before starts with a blank. -/
def BlockState.startLine (s : BlockState) (folded : Bool) (c : Char) : BlockState :=
  let blank := isSpaceOrTab c
  let joined :=
    if folded && s.leadingBreak == ['\n'] && !s.leadingBlank && !blank then
      if s.laterBreaks.isEmpty then [' '] else s.laterBreaks
    else s.leadingBreak ++ s.laterBreaks
  { s with text := c :: (joined.reverse ++ s.text), leadingBreak := [], laterBreaks := []
           leadingBlank := blank }

/-- Reads the lines of a block scalar. `outer` is the indentation around it, and `inLine` tells
whether the reader is past the indentation of a line. -/
def blockFrom (folded : Bool) (outer : Int) (chomping : Chomping) (inLine : Bool) (s : BlockState)
    (m : Mark) : List Char → Except Fault (Reading (List Char))
  | [] => .ok ⟨s.finish chomping, m, []⟩
  | '\r' :: '\n' :: cs =>
    let t :=
      if inLine then { s with leadingBreak := ['\n'], laterBreaks := [] }
      else { s with widest := max s.widest m.column, laterBreaks := s.laterBreaks ++ ['\n'] }
    blockFrom folded outer chomping false t (m.nextLine 2) cs
  | c :: cs =>
    if inLine then
      if isBreak c then
        blockFrom folded outer chomping false
          { s with leadingBreak := [keptBreak c], laterBreaks := [] } (m.nextLine 1) cs
      else blockFrom folded outer chomping true { s with text := c :: s.text } (m.advance 1) cs
    else
      let inside := s.indent.all fun n => m.column < n
      if inside && c == ' ' then blockFrom folded outer chomping false s (m.advance 1) cs
      else if inside && c == '\t' then .error .indentation
      else if isBreak c then
        blockFrom folded outer chomping false
          { s with widest := max s.widest m.column, laterBreaks := s.laterBreaks ++ [keptBreak c] }
          (m.nextLine 1) cs
      else
        let indent := s.indent.getD (max (max s.widest m.column) (max (outer + 1).toNat 1))
        let t := { s with indent := some indent }
        if m.column == indent then
          blockFrom folded outer chomping true (t.startLine folded c) (m.advance 1) cs
        else .ok ⟨t.finish chomping, m, c :: cs⟩

/-- Reads a block scalar from behind its mark. -/
def blockScalar (folded : Bool) (outer : Int) (m : Mark) (cs : List Char) :
    Except Fault (Reading (List Char)) := do
  let header ← blockHeader m cs
  let line ← finishLine false header.mark header.rest
  let (chomping, increment) := header.result
  let indent :=
    if increment = 0 then none else some (if 0 ≤ outer then outer.toNat + increment else increment)
  blockFrom folded outer chomping false { indent := indent } line.mark line.rest

end Catalog.Yaml
