import Catalog.Decimal.Reading
import Catalog.Value.Basic

/-!
# What a plain scalar stands for

A scalar written without quotes is nothing, a boolean, an integer, a floating-point number or a
text.

* `plainNull`, `plainBool?`, `plainInteger` and `plainFloat?` recognise the forms of each kind;
* `plainValue` tries them in this order;
* `needsQuotes` tells which texts would be taken for something else.
-/

namespace Catalog.Yaml

/-- Whether a scalar is one of the words for nothing. -/
def plainNull (s : String) : Bool := s == "null" || s == "Null" || s == "NULL" || s == "~"

/-- The boolean that a scalar writes. -/
def plainBool? (s : String) : Option Bool :=
  if s == "true" || s == "True" || s == "TRUE" then some true
  else if s == "false" || s == "False" || s == "FALSE" then some false
  else none

/-- The value of a digit in a base of at most sixteen. -/
def digitIn? (base : Nat) (c : Char) : Option Nat :=
  let n :=
    if '0' ≤ c && c ≤ '9' then c.toNat - '0'.toNat
    else if 'a' ≤ c && c ≤ 'f' then c.toNat - 'a'.toNat + 10
    else if 'A' ≤ c && c ≤ 'F' then c.toNat - 'A'.toNat + 10
    else base
  if n < base then some n else none

/-- The number that digits write in a base; there must be a digit. -/
def natIn? (base : Nat) : List Char → Option Nat
  | [] => none
  | cs => cs.foldlM (fun n c => (digitIn? base c).map (base * n + ·)) 0

/-- Whether a scalar is a longer run of digits that starts with a zero. Such a scalar is a text. -/
def isZeroLed (cs : List Char) : Bool :=
  let digits :=
    match cs with
    | '+' :: rest => rest
    | '-' :: rest => rest
    | rest => rest
  1 < digits.length && digits.head? == some '0' && digits.all isDigit

/-- The number that a scalar without sign writes: in base sixteen, eight or two after a mark,
otherwise in base ten. -/
def magnitude? (cs : List Char) : Option Nat :=
  match cs with
  | '0' :: 'x' :: rest => natIn? 16 rest
  | '0' :: 'o' :: rest => natIn? 8 rest
  | '0' :: 'b' :: rest => natIn? 2 rest
  | _ => if isZeroLed cs then none else natIn? 10 cs

/-- The integer that a scalar writes, whatever its size. -/
def wholeNumber? : List Char → Option Int
  | '-' :: rest => (magnitude? rest).map fun n => -(n : Int)
  | '+' :: rest => (magnitude? rest).map fun n => (n : Int)
  | cs => (magnitude? cs).map fun n => (n : Int)

/-- What a scalar says about integers. -/
inductive IntegerReading where
  /-- It is no integer. -/
  | none
  /-- It is an integer that no value can hold. -/
  | tooLarge
  /-- It is the integer given. -/
  | value (i : Int)
  deriving DecidableEq

/-- Reads an integer. Integers hold 64 bits, with a sign below zero; more than 128 bits are not
taken for an integer at all. -/
def plainInteger (s : String) : IntegerReading :=
  match wholeNumber? s.toList with
  | none => .none
  | some i =>
    if -0x8000000000000000 ≤ i ∧ i < 0x10000000000000000 then .value i
    else if -0x80000000000000000000000000000000 ≤ i ∧
        i < 0x100000000000000000000000000000000 then .tooLarge
    else .none

/-- The floating-point number that a scalar writes. Decimals too large for a number are texts. -/
def plainFloat? (s : String) : Option Binary64 :=
  let unsigned :=
    match s.toList with
    | '+' :: '+' :: _ => none
    | '+' :: '-' :: _ => none
    | '+' :: rest => some (String.ofList rest)
    | _ => some s
  unsigned.bind fun u =>
    if u == ".inf" || u == ".Inf" || u == ".INF" then some (Binary64.infinity false)
    else if s == "-.inf" || s == "-.Inf" || s == "-.INF" then some (Binary64.infinity true)
    else if s == ".nan" || s == ".NaN" || s == ".NAN" then some Binary64.nan
    else
      (Binary64.ofText? u).filter fun x =>
        match x.decode with
        | .finite .. => true
        | _ => false

/-- The value that a plain scalar stands for; `none` for an integer that no value can hold. -/
def plainValue (s : String) : Option Value :=
  if s == "" || plainNull s then some .null
  else
    match plainBool? s with
    | some b => some (.bool b)
    | none =>
      match plainInteger s with
      | .value i => some (.int i)
      | .tooLarge => none
      | .none =>
        if isZeroLed s.toList then some (.text s)
        else
          match plainFloat? s with
          | some x => some (.float x)
          | none => some (.text s)

/-- Whether a text has to be quoted because it reads as something else, or looks too much like
it. -/
def needsQuotes (s : String) : Bool :=
  match plainValue s with
  | some (.text _) => isZeroLed s.toList
  | _ => true

end Catalog.Yaml
