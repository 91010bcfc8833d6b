import Catalog.Decimal.Binary

/-!
# Written numbers

A floating-point number is written with the fewest decimal digits that are read back as the same
number; of two such decimals of one length the nearer is taken. It is written in the notations that
the catalog uses, or with a fixed number of places.

* `Decimal` is an integer with a power of ten;
* `shortest` finds the decimal, trying one digit, two digits and so on up to seventeen;
* `FloatNotation` holds the choices of one notation: where positional notation ends, whether a whole
  number keeps its point, and the names of the values that are no finite numbers;
* `FloatNotation.display`, `.message`, `.ranking` and `.document` are the notations;
* `fixedPlaces` rounds to a number of places.
-/

namespace Catalog

/-! ### The shortest decimal that reads back -/

/-- The number `digits * 10 ^ exponent`. -/
structure Decimal where
  digits : Nat
  exponent : Int
  deriving DecidableEq, Repr

namespace Decimal

/-- The decimal digits of a number, most significant first. -/
def digitsOf (n : Nat) : List Char := Nat.toDigits 10 n

/-- Drops trailing zeros from the digits, at most `fuel` of them. -/
def dropZeros : Nat → Decimal → Decimal
  | 0, d => d
  | fuel + 1, d =>
    if d.digits % 10 = 0 ∧ d.digits ≠ 0 then dropZeros fuel ⟨d.digits / 10, d.exponent + 1⟩ else d

/-- The greatest decimal below `num / den` whose last digit stands at `10 ^ exponent`. -/
def floorOnGrid (num den : Nat) (exponent : Int) : Nat :=
  if 0 ≤ exponent then num / (den * Nat.pow 10 exponent.toNat)
  else num * Nat.pow 10 (-exponent).toNat / den

/-- Compares `a * 10 ^ exponent` with `num / den`, as `≤`. -/
def atMost (a : Nat) (exponent : Int) (num den : Nat) : Bool :=
  if 0 ≤ exponent then a * Nat.pow 10 exponent.toNat * den ≤ num
  else a * den ≤ num * Nat.pow 10 (-exponent).toNat

/-- Compares `num / den` with `a * 10 ^ exponent`, as `≤`. -/
def atLeast (a : Nat) (exponent : Int) (num den : Nat) : Bool :=
  if 0 ≤ exponent then num ≤ a * Nat.pow 10 exponent.toNat * den
  else num * Nat.pow 10 (-exponent).toNat ≤ a * den

/-- The positive reals that round to one number: its value and the ends of the interval over one
denominator, and whether the ends belong to it. -/
structure Interval where
  low : Nat
  value : Nat
  high : Nat
  den : Nat
  closed : Bool

/-- The interval of the number `mantissa * 2 ^ exponent`. Below a power of two the numbers lie
closer. -/
def Interval.of (mantissa : Nat) (exponent : Int) : Interval :=
  let low :=
    if mantissa = Binary64.leadingBit ∧ -1074 < exponent then 4 * mantissa - 1 else 4 * mantissa - 2
  let scale := (exponent - 2).toNat
  ⟨low <<< scale, (4 * mantissa) <<< scale, (4 * mantissa + 2) <<< scale,
    1 <<< (2 - exponent).toNat, mantissa % 2 = 0⟩

/-- Whether a decimal is read back as the number of the interval. -/
def Interval.holds (i : Interval) (a : Nat) (exponent : Int) : Bool :=
  if i.closed then atLeast a exponent i.low i.den && atMost a exponent i.high i.den
  else !atMost a exponent i.low i.den && !atLeast a exponent i.high i.den

/-- Whether the upper of two neighbouring decimals is the nearer one. -/
def Interval.upperNearer (i : Interval) (a : Nat) (exponent : Int) : Bool :=
  -- the middle `a + 1/2` lies below the value
  if 0 ≤ exponent then (2 * a + 1) * Nat.pow 10 exponent.toNat * i.den < 2 * i.value
  else (2 * a + 1) * i.den < 2 * i.value * Nat.pow 10 (-exponent).toNat

/-- The first decimal that is read back as the number, on grids from `exponent` downwards. -/
def search (i : Interval) : Nat → Int → Decimal
  | 0, exponent => ⟨floorOnGrid i.value i.den exponent, exponent⟩
  | fuel + 1, exponent =>
    let a := floorOnGrid i.value i.den exponent
    match i.holds a exponent, i.holds (a + 1) exponent with
    | true, true => if i.upperNearer a exponent then ⟨a + 1, exponent⟩ else ⟨a, exponent⟩
    | true, false => ⟨a, exponent⟩
    | false, true => ⟨a + 1, exponent⟩
    | false, false => search i fuel (exponent - 1)

/-- The power of ten of the leading digit of `num / den`, or one more. -/
def leadingPower (num den : Nat) : Int :=
  ((digitsOf num).length : Int) - (digitsOf den).length

/-- The shortest decimal that is read back as the positive number `mantissa * 2 ^ exponent`. -/
def shortest (mantissa : Nat) (exponent : Int) : Decimal :=
  if mantissa = 0 then ⟨0, 0⟩
  else
    let i := Interval.of mantissa exponent
    dropZeros 20 (search i 20 (leadingPower i.value i.den))

end Decimal

/-! ### Written numbers -/

/-- The choices of one notation. Positional notation is used when the power of ten of the leading
digit lies between `least` and `greatest`, both included, or always when the ends are absent. -/
structure FloatNotation where
  ends : Option (Int × Int)
  keepsPoint : Bool
  nan : String
  infinity : String
  negativeInfinity : String

namespace FloatNotation

/-- Numbers in sentences: always positional, and a whole number has no point. -/
def display : FloatNotation := ⟨none, false, "NaN", "inf", "-inf"⟩

/-- Numbers in messages about types: always positional, and a whole number keeps its point. -/
def message : FloatNotation := ⟨none, true, "NaN", "inf", "-inf"⟩

/-- Ranks: positional from `10 ^ -4` to below `10 ^ 16`, and a whole number keeps its point. -/
def ranking : FloatNotation := ⟨some (-4, 15), true, "NaN", "inf", "-inf"⟩

/-- Documents: positional from `10 ^ -5` to below `10 ^ 16`, and a whole number keeps its point. -/
def document : FloatNotation := ⟨some (-5, 15), true, ".nan", ".inf", "-.inf"⟩

/-- The decimal written out, with a point when digits follow it or when the notation keeps it. -/
def positional (style : FloatNotation) (d : Decimal) : List Char :=
  let digits := Decimal.digitsOf d.digits
  if 0 ≤ d.exponent then
    digits ++ List.replicate d.exponent.toNat '0' ++ if style.keepsPoint then ['.', '0'] else []
  else
    let places := (-d.exponent).toNat
    if places < digits.length then
      digits.take (digits.length - places) ++ ['.'] ++ digits.drop (digits.length - places)
    else ['0', '.'] ++ List.replicate (places - digits.length) '0' ++ digits

/-- The decimal with one digit before the point and a power of ten. -/
def scientific (d : Decimal) : List Char :=
  let digits := Decimal.digitsOf d.digits
  let power : Int := d.exponent + (digits.length - 1 : Nat)
  let mantissa :=
    match digits with
    | first :: second :: rest => first :: '.' :: second :: rest
    | short => short
  mantissa ++ ['e'] ++ (if power < 0 then ['-'] else []) ++ Decimal.digitsOf power.natAbs

/-- A floating-point number in a notation, with the fewest digits that read back. -/
def render (style : FloatNotation) (x : Binary64) : String :=
  match x.decode with
  | .notANumber => style.nan
  | .infinite negative => if negative then style.negativeInfinity else style.infinity
  | .finite negative mantissa exponent =>
    let d := Decimal.shortest mantissa exponent
    let power : Int := d.exponent + ((Decimal.digitsOf d.digits).length - 1 : Nat)
    let isPositional :=
      match style.ends with
      | none => true
      | some (least, greatest) => d.digits = 0 || (least ≤ power && power ≤ greatest)
    String.ofList ((if negative then ['-'] else []) ++
      if isPositional then positional style d else scientific d)

end FloatNotation

/-- A floating-point number rounded to a number of places, a half of its exact value going to the
even digit. -/
def fixedPlaces (places : Nat) (x : Binary64) : String :=
  match x.decode with
  | .notANumber => "NaN"
  | .infinite negative => if negative then "-inf" else "inf"
  | .finite negative mantissa exponent =>
    let scaled :=
      if 0 ≤ exponent then (mantissa <<< exponent.toNat) * Nat.pow 10 places
      else roundDiv (mantissa * Nat.pow 10 places) (1 <<< (-exponent).toNat)
    let digits := Decimal.digitsOf scaled
    let padded := List.replicate (places + 1 - digits.length) '0' ++ digits
    String.ofList ((if negative then ['-'] else []) ++ padded.take (padded.length - places) ++
      (if places = 0 then [] else ['.']) ++ padded.drop (padded.length - places))

end Catalog
