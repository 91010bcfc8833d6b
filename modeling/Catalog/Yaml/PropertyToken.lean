import Catalog.Yaml.ScalarToken

/-!
# Scanning directives, anchors and tags

None of these goes past the end of its line.

* `anchorName` reads the name of an anchor or alias;
* `tagToken` reads a tag in one of its forms;
* `directive` reads a directive and the rest of its line.
-/

namespace Catalog.Yaml

/-- Reads the characters that fit, and says where they end. -/
def takeChars (fits : Char → Bool) (m : Mark) (cs : List Char) : Reading (List Char) :=
  let taken := cs.takeWhile fits
  ⟨taken, m.advance taken.length, cs.dropWhile fits⟩

/-- Reads the name of an anchor or alias, which something that is no name has to follow. -/
def anchorName (m : Mark) (cs : List Char) : Except Fault (Reading String) :=
  let name := takeChars isNameChar m cs
  let closed := blankNext name.rest ||
    name.rest.head?.any fun c => ['?', ':', ',', ']', '}', '%', '@', '\x60'].contains c
  if name.result.isEmpty || !closed then .error .token
  else .ok ⟨String.ofList name.result, name.mark, name.rest⟩

/-! ### Tags -/

/-- Whether a character may stand in the suffix of a tag. Inside angle brackets commas and square
brackets may, too. -/
def isUriChar (inAngles : Bool) (c : Char) : Bool :=
  isNameChar c ||
    [';', '/', '?', ':', '@', '&', '=', '+', '$', '.', '%', '!', '~', '*', '\x27', '(',
      ')'].contains c ||
    (inAngles && [',', '[', ']'].contains c)

/-- The number of bytes that a character takes whose first byte is given. -/
def utf8Width? (byte : Nat) : Option Nat :=
  if byte < 0x80 then some 1
  else if 0xC0 ≤ byte && byte < 0xE0 then some 2
  else if 0xE0 ≤ byte && byte < 0xF0 then some 3
  else if 0xF0 ≤ byte && byte < 0xF8 then some 4
  else none

/-- The value of the byte that two hexadecimal digits write. -/
def hexByte? (c d : Char) : Option Nat :=
  match digitIn? 16 c, digitIn? 16 d with
  | some a, some b => some (16 * a + b)
  | _, _ => none

/-- The characters of a tag with its escaped bytes read: `missing` bytes of a character are still to
come, and `bits` holds those of the bytes before. -/
def unescapeUri (missing bits : Nat) : List Char → Option (List Char)
  | [] => if missing = 0 then some [] else none
  | '%' :: c :: d :: cs =>
    match hexByte? c d with
    | none => none
    | some byte =>
      if missing = 0 then
        match utf8Width? byte with
        | none => none
        | some 1 => (unescapeUri 0 0 cs).map (Char.ofNat byte :: ·)
        | some width => unescapeUri (width - 1) (byte % (1 <<< (7 - width))) cs
      else if 0x80 ≤ byte && byte < 0xC0 then
        let n := 64 * bits + byte % 64
        if missing = 1 then (unescapeUri 0 0 cs).map (Char.ofNat n :: ·)
        else unescapeUri (missing - 1) n cs
      else none
  | c :: cs =>
    if missing = 0 && c != '%' then (unescapeUri 0 0 cs).map (c :: ·) else none

/-- Reads the suffix of a tag. It may be empty only if something was read before it. -/
def tagSuffix (inAngles mayBeEmpty : Bool) (m : Mark) (cs : List Char) :
    Except Fault (Reading (List Char)) :=
  let taken := takeChars (isUriChar inAngles) m cs
  if taken.result.isEmpty && !mayBeEmpty then .error .token
  else
    match unescapeUri 0 0 taken.result with
    | some suffix => .ok ⟨suffix, taken.mark, taken.rest⟩
    | none => .error .token

/-- Reads a handle: an exclamation mark, name characters, and perhaps another exclamation mark. -/
def tagHandle (m : Mark) (cs : List Char) : Except Fault (Reading (List Char)) :=
  match cs with
  | '!' :: rest =>
    let name := takeChars isNameChar (m.advance 1) rest
    match name.rest with
    | '!' :: after => .ok ⟨'!' :: name.result ++ ['!'], name.mark.advance 1, after⟩
    | after => .ok ⟨'!' :: name.result, name.mark, after⟩
  | _ => .error .token

/-- Reads the handle and the suffix of a tag: in angle brackets, with a declared handle, or
local. -/
def tagParts (m : Mark) (cs : List Char) : Except Fault (Reading (String × String)) := do
  match cs with
  | '!' :: '<' :: rest =>
    let suffix ← tagSuffix true false (m.advance 2) rest
    match suffix.rest with
    | '>' :: after => return ⟨("", String.ofList suffix.result), suffix.mark.advance 1, after⟩
    | _ => throw .token
  | _ =>
    let handle ← tagHandle m cs
    if 1 < handle.result.length && handle.result.getLast? == some '!' then
      let suffix ← tagSuffix false false handle.mark handle.rest
      return ⟨(String.ofList handle.result, String.ofList suffix.result), suffix.mark, suffix.rest⟩
    else
      let suffix ← tagSuffix false true handle.mark handle.rest
      let name := handle.result.drop 1 ++ suffix.result
      if name.isEmpty then return ⟨("", "!"), suffix.mark, suffix.rest⟩
      else return ⟨("!", String.ofList name), suffix.mark, suffix.rest⟩

/-- Reads a tag, which white space has to follow, or a comma inside brackets. -/
def tagToken (inFlow : Bool) (m : Mark) (cs : List Char) : Except Fault (Reading Token) := do
  let parts ← tagParts m cs
  if blankNext parts.rest || (inFlow && parts.rest.head? == some ',') then
    return ⟨.tag parts.result.1 parts.result.2, parts.mark, parts.rest⟩
  else throw .token

/-! ### Directives -/

/-- Reads a number of at most nine digits. -/
def versionNumber (m : Mark) (cs : List Char) : Except Fault (Reading Nat) :=
  let digits := takeChars isDigit m cs
  if digits.result.isEmpty || 9 < digits.result.length then .error .directive
  else .ok ⟨natOfDigits digits.result, digits.mark, digits.rest⟩

/-- Reads a version of two numbers. -/
def versionDirective (m : Mark) (cs : List Char) : Except Fault (Reading Token) := do
  let blanks := takeChars isSpaceOrTab m cs
  let major ← versionNumber blanks.mark blanks.rest
  match major.rest with
  | '.' :: rest =>
    let minor ← versionNumber (major.mark.advance 1) rest
    return ⟨.versionDirective major.result minor.result, minor.mark, minor.rest⟩
  | _ => throw .directive

/-- Reads a handle and what it stands for. -/
def tagDirective (m : Mark) (cs : List Char) : Except Fault (Reading Token) := do
  let blanks := takeChars isSpaceOrTab m cs
  let handle ← tagHandle blanks.mark blanks.rest
  if handle.result != ['!'] && handle.result.getLast? != some '!' then throw .directive
  let gap := takeChars isSpaceOrTab handle.mark handle.rest
  if gap.result.isEmpty then throw .directive
  let expansion ← tagSuffix true false gap.mark gap.rest
  if !blankNext expansion.rest then throw .directive
  return ⟨.tagDirective (String.ofList handle.result) (String.ofList expansion.result),
    expansion.mark, expansion.rest⟩

/-- Reads a directive from behind its percent sign, to the end of its line. -/
def directive (m : Mark) (cs : List Char) : Except Fault (Reading Token) := do
  let name := takeChars isNameChar m cs
  if name.result.isEmpty || !blankNext name.rest then throw .directive
  let token ←
    if String.ofList name.result == "YAML" then versionDirective name.mark name.rest
    else if String.ofList name.result == "TAG" then tagDirective name.mark name.rest
    else throw .directive
  let line ← finishLine false token.mark token.rest
  return ⟨token.result, line.mark, line.rest⟩

end Catalog.Yaml
