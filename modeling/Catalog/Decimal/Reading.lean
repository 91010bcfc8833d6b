import Catalog.Decimal.Binary

/-!
# Reading decimals

A written decimal is read as the nearest floating-point number. It has an optional sign, digits with
at most one point among them, at least one digit in all, and an optional power of ten; or it is one
of the names of infinity and of no number, in any case.

* `splitDigits` takes the leading digits of a text;
* `Binary64.ofDecimal` rounds digits and a power of ten;
* `Binary64.ofText?` reads a text.
-/

namespace Catalog

/-- The value of a digit in base ten. -/
def digitValue (c : Char) : Nat := c.toNat - '0'.toNat

/-- Whether a character is an ASCII digit. -/
def isDigit (c : Char) : Bool := '0' ≤ c && c ≤ '9'

/-- The leading digits of a text and what follows them. -/
def splitDigits (cs : List Char) : List Char × List Char :=
  (cs.takeWhile isDigit, cs.dropWhile isDigit)

/-- The number that a list of digits writes in base ten. -/
def natOfDigits (cs : List Char) : Nat := cs.foldl (fun n c => 10 * n + digitValue c) 0

namespace Binary64

/-- The number nearest to `digits * 10 ^ power`. Powers far outside the range of the format are not
computed: they give infinity or zero. -/
def ofDecimal (negative : Bool) (digits : Nat) (power : Int) : Binary64 :=
  let size : Int := (Nat.log2 digits : Int) * 3 / 10 + power
  if digits = 0 then ofRatio negative 0 1
  else if 400 < size then infinity negative
  else if size < -400 then ofRatio negative 0 1
  else if 0 ≤ power then ofRatio negative (digits * Nat.pow 10 power.toNat) 1
  else ofRatio negative digits (Nat.pow 10 (-power).toNat)

/-- The power of ten after the digits of a decimal; `none` when what follows is no such power. -/
def powerOfText? : List Char → Option Int
  | [] => some 0
  | c :: cs =>
    if c == 'e' || c == 'E' then
      let (negative, rest) :=
        match cs with
        | '-' :: r => (true, r)
        | '+' :: r => (false, r)
        | r => (false, r)
      let (digits, after) := splitDigits rest
      if digits.isEmpty || !after.isEmpty then none
      else some (if negative then -(natOfDigits digits : Int) else natOfDigits digits)
    else none

/-- Reads a decimal without sign. -/
def ofUnsigned? (negative : Bool) (cs : List Char) : Option Binary64 :=
  let name := String.ofList (cs.map Char.toLower)
  if name == "inf" || name == "infinity" then some (infinity negative)
  else if name == "nan" then some nan
  else
    let (whole, afterWhole) := splitDigits cs
    let (places, afterPlaces) :=
      match afterWhole with
      | '.' :: r => splitDigits r
      | r => ([], r)
    if whole.isEmpty && places.isEmpty then none
    else
      (powerOfText? afterPlaces).map fun power =>
        ofDecimal negative (natOfDigits (whole ++ places)) (power - places.length)

/-- Reads a decimal. -/
def ofText? (s : String) : Option Binary64 :=
  match s.toList with
  | '-' :: cs => ofUnsigned? true cs
  | '+' :: cs => ofUnsigned? false cs
  | cs => ofUnsigned? false cs

end Binary64

end Catalog
