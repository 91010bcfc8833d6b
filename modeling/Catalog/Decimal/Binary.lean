/-!
# Binary floating-point numbers

A `Binary64` is the bit pattern of a number in the 64-bit binary format: a sign, eleven bits of
exponent and fifty-two bits of fraction. All arithmetic is exact on natural numbers and rounded
once.

* `Binary64.decode` gives the number that a pattern stands for;
* `roundDiv` divides and rounds to the nearest integer, a half going to the even one, and
  `roundDiv_near` says that it is never more than half a unit off;
* `BinaryFormat.encode` rounds a quotient to the nearest number of a format;
* `Binary64.orderKey` numbers the patterns in their total order, from negative to positive.
-/

namespace Catalog

/-! ### Rounding a quotient -/

/-- The quotient rounded to the nearest integer; a half goes to the even neighbour. -/
def roundDiv (num den : Nat) : Nat :=
  let q := num / den
  let r := num % den
  if den < 2 * r ∨ (2 * r = den ∧ q % 2 = 1) then q + 1 else q

theorem roundDiv_near {num den : Nat} (h : 0 < den) :
    2 * num ≤ 2 * (den * roundDiv num den) + den ∧
      2 * (den * roundDiv num den) ≤ 2 * num + den := by
  have hd : den * (num / den) + num % den = num := Nat.div_add_mod num den
  have hr : num % den < den := Nat.mod_lt num h
  unfold roundDiv
  simp only
  split
  · next hc =>
    rw [Nat.mul_add]
    omega
  · next hc => omega

/-- The quotient rounded to the nearest integer; a half goes up. -/
def roundHalfUp (num den : Nat) : Nat := (2 * num + den) / (2 * den)

/-! ### Formats -/

/-- A binary format: the bits of the fraction, the exponent of the least number above zero, and the
bit pattern of infinity. -/
structure BinaryFormat where
  fractionBits : Nat
  leastExponent : Int
  infinity : Nat

/-- The format of 64 bits. -/
def binary64 : BinaryFormat := ⟨52, -1074, 0x7FF0000000000000⟩

/-- The format of 32 bits. -/
def binary32 : BinaryFormat := ⟨23, -149, 0x7F800000⟩

/-- The bit pattern, without sign, of the number of a format that is nearest to a quotient. A
quotient that is too large gives infinity. -/
def BinaryFormat.encode (format : BinaryFormat) (num den : Nat) : Nat :=
  if num = 0 ∨ den = 0 then 0
  else
    let guess : Int := (Nat.log2 num : Int) - Nat.log2 den
    let below : Bool :=
      if 0 ≤ guess then num < den <<< guess.toNat else num <<< (-guess).toNat < den
    let leading := if below then guess - 1 else guess
    let exponent := max (leading - format.fractionBits) format.leastExponent
    let mantissa :=
      if 0 ≤ exponent then roundDiv num (den <<< exponent.toNat)
      else roundDiv (num <<< (-exponent).toNat) den
    min (((exponent - format.leastExponent).toNat <<< format.fractionBits) + mantissa)
      format.infinity

/-! ### Numbers of 64 bits -/

/-- A floating-point number, given by its 64 bits. -/
structure Binary64 where
  bits : UInt64
  deriving DecidableEq, Repr, Inhabited

/-- What a bit pattern stands for: a finite number is `mantissa * 2 ^ exponent` with a sign. -/
inductive FloatValue where
  | notANumber
  | infinite (negative : Bool)
  | finite (negative : Bool) (mantissa : Nat) (exponent : Int)
  deriving DecidableEq, Repr

namespace Binary64

/-- The bit that holds the sign. -/
def signBit : Nat := 0x8000000000000000

/-- The bit above the fraction, which a pattern leaves out where it is one. -/
def leadingBit : Nat := 0x10000000000000

/-- The pattern of a number that is no number. -/
def nan : Binary64 := ⟨0x7FF8000000000000⟩

/-- The pattern with the given magnitude and sign. -/
def ofMagnitude (negative : Bool) (magnitude : Nat) : Binary64 :=
  ⟨UInt64.ofNat (magnitude + if negative then signBit else 0)⟩

/-- Positive or negative infinity. -/
def infinity (negative : Bool) : Binary64 := ofMagnitude negative binary64.infinity

/-- The number nearest to a quotient. -/
def ofRatio (negative : Bool) (num den : Nat) : Binary64 :=
  ofMagnitude negative (binary64.encode num den)

/-- The number nearest to an integer. -/
def ofInt (i : Int) : Binary64 := ofRatio (i < 0) i.natAbs 1

/-- The number that a pattern stands for. -/
def decode (x : Binary64) : FloatValue :=
  let n : Nat := x.bits.toNat
  let negative : Bool := signBit ≤ n
  let exponent : Nat := n / leadingBit % 0x800
  let fraction := n % leadingBit
  if exponent = 0x7FF then
    if fraction = 0 then .infinite negative else .notANumber
  else if exponent = 0 then .finite negative fraction (-1074)
  else .finite negative (leadingBit + fraction) ((exponent : Int) - 1075)

/-- Whether the number is plus or minus zero. -/
def isZero (x : Binary64) : Bool :=
  match x.decode with
  | .finite _ 0 _ => true
  | _ => false

/-- Whether the pattern stands for no number. -/
def isNaN (x : Binary64) : Bool := x.decode == .notANumber

/-- Whether two patterns count as one value: all that are no number do, and so do the two zeros. -/
def sameValue (x y : Binary64) : Bool :=
  x == y || (x.isNaN && y.isNaN) || (x.isZero && y.isZero)

/-- Whether the number lies between zero and one, both included. -/
def inUnitInterval (x : Binary64) : Bool :=
  match x.decode with
  | .finite negative m e =>
    if m = 0 then true
    else if negative then false
    else if 0 ≤ e then m <<< e.toNat ≤ 1
    else m ≤ 1 <<< (-e).toNat
  | _ => false

/-- The place of a pattern in the total order: below zero larger magnitudes come first, minus zero
comes before zero, and the patterns of no number come last or, with a sign, first. -/
def orderKey (x : Binary64) : Nat :=
  let n := x.bits.toNat
  if signBit ≤ n then 2 * signBit - 1 - n else n + signBit

theorem orderKey_injective {x y : Binary64} (h : x.orderKey = y.orderKey) : x = y := by
  have hx : x.bits.toNat < 2 ^ 64 := x.bits.toNat_lt
  have hy : y.bits.toNat < 2 ^ 64 := y.bits.toNat_lt
  have hs : signBit = 2 ^ 63 := rfl
  have e : x.bits.toNat = y.bits.toNat := by
    simp only [orderKey] at h
    split at h <;> split at h <;> omega
  cases x
  cases y
  exact congrArg Binary64.mk (UInt64.toNat_inj.mp e)

/-- The share of `n` that lies between zero and all of it, rounded to an integer, a half going up.
The share is first cut to the unit interval; the product is a floating-point number before it is
rounded. -/
def shareOf (share : Binary64) (n : Nat) : Nat :=
  let product : Binary64 :=
    match share.decode with
    | .notANumber => ofRatio false 0 1
    | .infinite negative => if negative then ofRatio false 0 1 else ofInt n
    | .finite negative m e =>
      if negative then ofRatio false 0 1
      else if share.inUnitInterval then ofRatio false (m * n) (1 <<< (-e).toNat)
      else ofInt n
  match product.decode with
  | .finite _ m e => if 0 ≤ e then m <<< e.toNat else roundHalfUp m (1 <<< (-e).toNat)
  | _ => 0

end Binary64

end Catalog
