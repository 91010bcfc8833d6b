import Catalog.Yaml.Style

/-!
# A page under way

Documents are written character by character onto a page that remembers its column, whether white
space precedes, and whether only indentation stands on the current line.

* `Page.indicator` and `Page.newLine` keep words apart and lines indented;
* `Page.scalar` writes a text in a given style;
* `Page.tag` writes the tag of the node that follows.
-/

namespace Catalog.Yaml

/-- A page under way. -/
structure Page where
  text : String := ""
  column : Nat := 0
  afterBlank : Bool := true
  onlyIndented : Bool := true

namespace Page

/-- Writes one character. -/
def put (p : Page) (c : Char) : Page := { p with text := p.text.push c, column := p.column + 1 }

/-- Writes characters one after the other. -/
def puts (p : Page) (cs : List Char) : Page := cs.foldl put p

/-- Ends the line. -/
def lineFeed (p : Page) : Page := { p with text := p.text.push '\n', column := 0 }

/-- Writes a line break of a text. -/
def lineBreak (p : Page) (c : Char) : Page :=
  if c == '\n' then p.lineFeed else { p with text := p.text.push c, column := 0 }

/-- Writes a space unless white space precedes. -/
def gap (p : Page) : Page := if p.afterBlank then p else p.put ' '

/-- Writes an indicator, after a gap if it `needsGap`. The indicator may count as white space or as
indentation for what follows. -/
def indicator (p : Page) (mark : List Char) (needsGap isBlank isIndentation : Bool) : Page :=
  let q := (if needsGap then p.gap else p).puts mark
  { q with afterBlank := isBlank, onlyIndented := p.onlyIndented && isIndentation }

/-- Moves to a column on a line where nothing but indentation stands before it. -/
def newLine (p : Page) (indent : Int) : Page :=
  let width := indent.toNat
  let q :=
    if !p.onlyIndented || width < p.column || (p.column == width && !p.afterBlank) then p.lineFeed
    else p
  let padded := q.puts (List.replicate (width - q.column) ' ')
  { padded with afterBlank := true, onlyIndented := true }

/-- Nothing is left open before the next word. -/
def closed (p : Page) : Page := { p with afterBlank := false, onlyIndented := false }

/-! ### Scalars -/

/-- Writes a text as it is. -/
def plain (p : Page) (cs : List Char) : Page :=
  ((if cs.isEmpty then p else p.gap).puts cs).closed

/-- Writes the characters of a single-quoted text, where `afterBreak` tells whether a line break was
the last. A quote is written twice. -/
def singleQuotedBody (indent : Int) : Bool → List Char → Page → Page
  | afterBreak, [], p => if afterBreak then p.newLine indent else p
  | afterBreak, c :: cs, p =>
    if c == ' ' then singleQuotedBody indent afterBreak cs (p.put c)
    else if isBreak c then
      let q := if !afterBreak && c == '\n' then p.lineFeed else p
      singleQuotedBody indent true cs { q.lineBreak c with onlyIndented := true }
    else
      let q := if afterBreak then p.newLine indent else p
      let r := if c == '\x27' then q.put c else q
      singleQuotedBody indent false cs { r.put c with onlyIndented := false }

/-- Writes a text between single quotes. -/
def singleQuoted (p : Page) (indent : Int) (cs : List Char) : Page :=
  let opened := p.indicator ['\x27'] true false false
  ((singleQuotedBody indent false cs opened).indicator ['\x27'] false false false).closed

/-- A number in upper-case hexadecimal digits, filled up with zeros to a width. -/
def hexField (width n : Nat) : List Char :=
  let digits := (Nat.toDigits 16 n).map Char.toUpper
  List.replicate (width - digits.length) '0' ++ digits

/-- A character in the form in which it stands between double quotes. -/
def doubleQuotedChar (c : Char) : List Char :=
  let n := c.toNat
  if isPrintable c && !isBreak c && c != '"' && c != '\\' then [c]
  else
    match n with
    | 0x00 => ['\\', '0']
    | 0x07 => ['\\', 'a']
    | 0x08 => ['\\', 'b']
    | 0x09 => ['\\', 't']
    | 0x0A => ['\\', 'n']
    | 0x0B => ['\\', 'v']
    | 0x0C => ['\\', 'f']
    | 0x0D => ['\\', 'r']
    | 0x1B => ['\\', 'e']
    | 0x22 => ['\\', '"']
    | 0x5C => ['\\', '\\']
    | 0x85 => ['\\', 'N']
    | 0xA0 => ['\\', '_']
    | 0x2028 => ['\\', 'L']
    | 0x2029 => ['\\', 'P']
    | _ =>
      if n ≤ 0xFF then ['\\', 'x'] ++ hexField 2 n
      else if n ≤ 0xFFFF then ['\\', 'u'] ++ hexField 4 n
      else ['\\', 'U'] ++ hexField 8 n

/-- Writes a text between double quotes. -/
def doubleQuoted (p : Page) (cs : List Char) : Page :=
  let opened := p.indicator ['"'] true false false
  ((opened.puts (cs.flatMap doubleQuotedChar)).indicator ['"'] false false false).closed

/-- The hints after the mark of a block: the indentation if the text starts with white space, and
what becomes of the line breaks at its end. -/
def blockHints (cs : List Char) : List Char :=
  let indentation := if cs.head?.any fun c => c == ' ' || isBreak c then ['2'] else []
  let ending :=
    match cs.reverse with
    | [] => ['-']
    | [c] => if isBreak c then ['+'] else ['-']
    | c :: d :: _ => if !isBreak c then ['-'] else if isBreak d then ['+'] else []
  indentation ++ ending

/-- Writes the lines of a block. -/
def blockBody (indent : Int) : Bool → List Char → Page → Page
  | _, [], p => p
  | afterBreak, c :: cs, p =>
    if isBreak c then blockBody indent true cs { p.lineBreak c with onlyIndented := true }
    else
      let q := if afterBreak then p.newLine indent else p
      blockBody indent false cs { q.put c with onlyIndented := false }

/-- Writes a text as a block of lines. -/
def literal (p : Page) (indent : Int) (cs : List Char) : Page :=
  let opened := ((p.indicator ['|'] true false false).puts (blockHints cs)).lineFeed
  blockBody indent true cs { opened with afterBlank := true, onlyIndented := true }

/-- Writes a text in a style, with its further lines at an indentation. -/
def scalar (p : Page) (style : ScalarStyle) (indent : Int) (cs : List Char) : Page :=
  match style with
  | .plain => p.plain cs
  | .singleQuoted => p.singleQuoted indent cs
  | .doubleQuoted => p.doubleQuoted cs
  | .literal | .folded => p.literal indent cs

/-! ### Tags -/

/-- Whether a character may stand in a tag as it is. -/
def isTagChar (c : Char) : Bool :=
  ('0' ≤ c && c ≤ '9') || ('A' ≤ c && c ≤ 'Z') || ('a' ≤ c && c ≤ 'z') ||
    ['_', '-', ';', '/', '?', ':', '@', '&', '=', '+', '$', ',', '.', '~', '*', '\x27',
      '(', ')', '[', ']', '!'].contains c

/-- A tag character, or the bytes of another character in hexadecimal after percent signs. -/
def tagChar (c : Char) : List Char :=
  if isTagChar c then [c]
  else (String.ofList [c]).toUTF8.toList.flatMap fun b => '%' :: hexField 2 b.toNat

/-- The characters of a tag after its exclamation mark. -/
def tagBody (tag : String) : List Char := (Value.tagName tag).toList.flatMap tagChar

/-- Writes a tag. -/
def tag (p : Page) (name : String) : Page :=
  let q := p.gap.put '!'
  (q.puts (tagBody name)).closed

end Page

end Catalog.Yaml
