import Catalog.Text.LowerCase
import Catalog.Text.Pieces
import Catalog.Text.Slice

/-!
# Colours

A colour is one of eight basic ones, one of 256 by its number, or given by its red, green and blue
parts.

* `Color.ofHex?` reads three parts of two bytes, and `Color.ofText?` reads any spelling of a colour;
* `Color.codes` is the control sequence for a colour as foreground or background.
-/

namespace Catalog

/-- A colour of the screen. -/
inductive Color where
  /-- One of the eight basic colours, by its number. -/
  | basic (n : Nat)
  /-- One of 256 colours, by its number. -/
  | indexed (n : Nat)
  | rgb (red green blue : Nat)
  deriving DecidableEq, Repr

namespace Color

/-- The names of the basic colours in the order of their numbers. -/
def basicNames : List String :=
  ["black", "red", "green", "yellow", "blue", "magenta", "cyan", "white"]

/-- The value of a digit in a base up to sixteen. -/
def digit? (base : Nat) (c : Char) : Option Nat :=
  let value :=
    if '0' ≤ c && c ≤ '9' then c.toNat - '0'.toNat
    else if 'a' ≤ c && c ≤ 'f' then c.toNat - 'a'.toNat + 10
    else if 'A' ≤ c && c ≤ 'F' then c.toNat - 'A'.toNat + 10
    else base
  if value < base then some value else none

/-- The number below 256 that digits stand for. -/
def byteOfDigits? (base : Nat) (digits : List Char) : Option Nat :=
  if digits.isEmpty then none
  else
    (digits.mapM (digit? base)).bind fun values =>
      let n := values.foldl (fun n d => n * base + d) 0
      if n < 256 then some n else none

/-- The number below 256 that a text stands for; a plus sign may precede it. -/
def byte? (base : Nat) : List Char → Option Nat
  | '+' :: digits => byteOfDigits? base digits
  | digits => byteOfDigits? base digits

/-- The number that the two bytes of a text from a place on stand for in base sixteen. -/
def hexPart? (hex : String) (start : Nat) : Option Nat :=
  (Text.slice? hex start (start + 2)).bind fun digits => byte? 16 digits.toList

/-- The colour with red, green and blue parts of two bytes each. -/
def ofHex? (hex : String) : Option Color :=
  if hex.utf8ByteSize != 6 then none
  else do
    let red ← hexPart? hex 0
    let green ← hexPart? hex 2
    let blue ← hexPart? hex 4
    return rgb red green blue

/-- A number in base ten, or in base sixteen after `0x`. -/
def number? (s : String) : Option Nat :=
  match s.toList with
  | '0' :: 'x' :: digits => byte? 16 digits
  | digits => byte? 10 digits

/-- The colour of a number, or of three numbers with commas between them. -/
def ofNumbers? (s : String) : Option Color :=
  match Text.splitAt ',' s with
  | [n] => (number? n).map indexed
  | [r, g, b] => do
    let red ← number? r
    let green ← number? g
    let blue ← number? b
    return rgb red green blue
  | _ => none

/-- The colour that a text names: `#` and three parts in base sixteen, the name of a basic colour
whatever the case of its letters, or numbers. -/
def ofText? (s : String) : Option Color :=
  match Text.afterLeading '#' s with
  | some hex => ofHex? hex
  | none =>
    match basicNames.findIdx? fun name => name == Text.lower s with
    | some n => some (basic n)
    | none => ofNumbers? s

/-- The codes that select a colour after the leading `3` for the foreground or `4` for the
background. -/
def codes : Color → String
  | basic n => toString n
  | indexed n => "8;5;" ++ toString n
  | rgb red green blue => "8;2;" ++ toString red ++ ";" ++ toString green ++ ";" ++ toString blue

end Color

end Catalog
