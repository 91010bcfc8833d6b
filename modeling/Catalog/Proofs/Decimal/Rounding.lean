import Catalog.Decimal.Binary
import Mathlib.Algebra.Order.Ring.Nat
import Mathlib.Tactic.Ring

/-!
# Rounding never passes an integer

An integer below `2 ^ 53` is a floating-point number, so rounding a smaller quotient does not lead
beyond it. A share of a count is rounded twice, to a number and to an integer, and so it is never
more than the count.

* `roundDiv_le`, `le_roundDiv` and `roundHalfUp_le` say that rounding to an integer passes no
  integer;
* `leadingExponent` is the exponent of the leading bit of a quotient, and `exists_leadingExponent`
  says what that is;
* `encode_of_lt` gives the pattern of a quotient below the limit, and `decode_ofMagnitude` what a
  pattern stands for;
* `Binary64.toNearest_ofRatio_le` is about a rounded quotient, and `Binary64.shareOf_le` about
  shares.
-/

namespace Catalog

variable {num den q : Nat}

/-! ### Rounding to an integer -/

theorem roundDiv_le (hden : 0 < den) (h : num ≤ den * q) : roundDiv num den ≤ q := by
  by_contra hlt
  have hstep : den * (q + 1) ≤ den * roundDiv num den := Nat.mul_le_mul_left den (by omega)
  have hnear := (@roundDiv_near num den hden).2
  rw [Nat.mul_add] at hstep
  omega

theorem le_roundDiv (hden : 0 < den) (h : den * q ≤ num) : q ≤ roundDiv num den := by
  by_contra hlt
  have hstep : den * (roundDiv num den + 1) ≤ den * q := Nat.mul_le_mul_left den (by omega)
  have hnear := (@roundDiv_near num den hden).1
  rw [Nat.mul_add] at hstep
  omega

theorem roundHalfUp_le (hden : 0 < den) (h : num ≤ den * q) : roundHalfUp num den ≤ q := by
  rw [roundHalfUp, ← Nat.lt_add_one_iff, Nat.div_lt_iff_lt_mul (by omega)]
  have hgoal : (q + 1) * (2 * den) = 2 * (den * q) + 2 * den := by ring
  omega

/-! ### The leading bit -/

/-- Whether the quotient of two numbers is below the power of two to which the lengths of the
numbers point. -/
def isBelowGuess (num den : Nat) : Bool :=
  let guess : Int := (Nat.log2 num : Int) - Nat.log2 den
  if 0 ≤ guess then num < den <<< guess.toNat else num <<< (-guess).toNat < den

/-- The exponent of the leading bit of a quotient. -/
def leadingExponent (num den : Nat) : Int :=
  if isBelowGuess num den then (Nat.log2 num : Int) - Nat.log2 den - 1
    else (Nat.log2 num : Int) - Nat.log2 den

theorem encode_eq (format : BinaryFormat) (hnum : num ≠ 0) (hden : den ≠ 0) :
    format.encode num den =
      let exponent := max (leadingExponent num den - format.fractionBits) format.leastExponent
      let mantissa :=
        if 0 ≤ exponent then roundDiv num (den <<< exponent.toNat)
        else roundDiv (num <<< (-exponent).toNat) den
      min (((exponent - format.leastExponent).toNat <<< format.fractionBits) + mantissa)
        format.infinity := by
  rw [BinaryFormat.encode, if_neg (not_or.mpr ⟨hnum, hden⟩)]
  rfl

theorem isBelowGuess_iff (num den : Nat) :
    isBelowGuess num den = true ↔ num * 2 ^ Nat.log2 den < den * 2 ^ Nat.log2 num := by
  generalize ha : Nat.log2 num = a
  generalize hb : Nat.log2 den = b
  have hlow : isBelowGuess num den =
      if (0 : Int) ≤ (a : Int) - b then decide (num < den <<< ((a : Int) - b).toNat)
      else decide (num <<< (-((a : Int) - b)).toNat < den) := by
    rw [← ha, ← hb, isBelowGuess]
  rw [hlow]
  by_cases hle : b ≤ a
  · obtain ⟨k, rfl⟩ := Nat.exists_eq_add_of_le hle
    have hk : (((b + k : Nat) : Int) - b).toNat = k := by omega
    have hright : den * 2 ^ (b + k) = den * 2 ^ k * 2 ^ b := by ring
    rw [if_pos (by omega), decide_eq_true_iff, hk, Nat.shiftLeft_eq, hright,
      Nat.mul_lt_mul_right (Nat.two_pow_pos b)]
  · obtain ⟨k, rfl⟩ := Nat.exists_eq_add_of_le (Nat.le_of_not_le hle)
    have hk : (-((a : Int) - (a + k : Nat))).toNat = k := by omega
    have hleft : num * 2 ^ (a + k) = num * 2 ^ k * 2 ^ a := by ring
    have hneg : ¬ (0 : Int) ≤ (a : Int) - (a + k : Nat) := by omega
    rw [if_neg hneg, decide_eq_true_iff, hk, Nat.shiftLeft_eq, hleft,
      Nat.mul_lt_mul_right (Nat.two_pow_pos a)]

/-- The quotient lies between the power of two with the leading exponent and the next one. The
exponent is given as a difference, and the quotient scaled by what is taken away. -/
theorem exists_leadingExponent (hnum : 0 < num) (hden : 0 < den) :
    ∃ a b : Nat, leadingExponent num den = (a : Int) - b ∧
      den * 2 ^ a ≤ num * 2 ^ b ∧ num * 2 ^ b < den * 2 ^ (a + 1) := by
  have hnum' : num < 2 ^ (Nat.log2 num + 1) := Nat.lt_log2_self
  have hden' : den < 2 ^ (Nat.log2 den + 1) := Nat.lt_log2_self
  have hnum'' : 2 ^ Nat.log2 num ≤ num := Nat.log2_self_le (by omega)
  have hden'' : 2 ^ Nat.log2 den ≤ den := Nat.log2_self_le (by omega)
  have hiff := isBelowGuess_iff num den
  unfold leadingExponent
  cases hlow : isBelowGuess num den with
  | true =>
    refine ⟨Nat.log2 num, Nat.log2 den + 1, by simp only [if_true]; omega, ?_, ?_⟩
    · calc den * 2 ^ Nat.log2 num ≤ 2 ^ (Nat.log2 den + 1) * num := Nat.mul_le_mul hden'.le hnum''
        _ = num * 2 ^ (Nat.log2 den + 1) := Nat.mul_comm _ _
    · have hlt := hiff.mp hlow
      rw [pow_succ, pow_succ, ← Nat.mul_assoc, ← Nat.mul_assoc]
      omega
  | false =>
    have hge : ¬ num * 2 ^ Nat.log2 den < den * 2 ^ Nat.log2 num := fun hlt => by
      rw [hiff.mpr hlt] at hlow
      cases hlow
    refine ⟨Nat.log2 num, Nat.log2 den, rfl, Nat.le_of_not_lt hge, ?_⟩
    calc num * 2 ^ Nat.log2 den < 2 ^ (Nat.log2 num + 1) * 2 ^ Nat.log2 den :=
          Nat.mul_lt_mul_of_pos_right hnum' (Nat.two_pow_pos _)
      _ ≤ 2 ^ (Nat.log2 num + 1) * den := Nat.mul_le_mul_left _ hden''
      _ = den * 2 ^ (Nat.log2 num + 1) := Nat.mul_comm _ _

/-! ### Numbers below the limit -/

/-- A quotient scaled to have its leading bit at the fifty-third place, or further down, is rounded
to at most the next power of two. -/
theorem roundDiv_scaled_le {a b k : Nat} (hden : 0 < den) (h : num * 2 ^ b < den * 2 ^ (a + 1))
    (hk : k + a ≤ b + 52) : roundDiv (num * 2 ^ k) den ≤ 2 ^ 53 := by
  refine roundDiv_le hden (Nat.le_of_mul_le_mul_right ?_ (Nat.two_pow_pos a))
  calc num * 2 ^ k * 2 ^ a = num * 2 ^ (k + a) := by ring
    _ ≤ num * 2 ^ (b + 52) := Nat.mul_le_mul_left num (Nat.pow_le_pow_right (by decide) hk)
    _ = num * 2 ^ b * 2 ^ 52 := by ring
    _ ≤ den * 2 ^ (a + 1) * 2 ^ 52 := Nat.mul_le_mul_right _ h.le
    _ = den * 2 ^ 53 * 2 ^ a := by ring

/-- A quotient scaled to have its leading bit at the fifty-third place is rounded to no less than
fifty-three bits. -/
theorem le_roundDiv_scaled {a b k : Nat} (hden : 0 < den) (h : den * 2 ^ a ≤ num * 2 ^ b)
    (hk : b + 52 = k + a) : 2 ^ 52 ≤ roundDiv (num * 2 ^ k) den := by
  refine le_roundDiv hden (Nat.le_of_mul_le_mul_right ?_ (Nat.two_pow_pos a))
  calc den * 2 ^ 52 * 2 ^ a = den * 2 ^ a * 2 ^ 52 := by ring
    _ ≤ num * 2 ^ b * 2 ^ 52 := Nat.mul_le_mul_right _ h
    _ = num * 2 ^ (b + 52) := by ring
    _ = num * 2 ^ k * 2 ^ a := by rw [hk]; ring

/-- The pattern of a quotient that the format scales up by so many places. -/
theorem encode_of_scale {k : Nat} (hnum : 0 < num) (hden : 0 < den)
    (hscale : max (leadingExponent num den - 52) (-1074) = -(k : Int))
    (hmantissa : roundDiv (num * 2 ^ k) den ≤ 2 ^ 53) :
    binary64.encode num den = (1074 - k) * 2 ^ 52 + roundDiv (num * 2 ^ k) den := by
  have hbits : ((binary64.fractionBits : Nat) : Int) = 52 := rfl
  have hleast : binary64.leastExponent = -1074 := rfl
  have hrounded : (if 0 ≤ -(k : Int) then roundDiv num (den <<< (-(k : Int)).toNat)
      else roundDiv (num <<< (- -(k : Int)).toNat) den) = roundDiv (num * 2 ^ k) den := by
    cases k with
    | zero => simp
    | succ k =>
      have hplaces : (- -((k + 1 : Nat) : Int)).toNat = k + 1 := by omega
      rw [if_neg (by omega), hplaces, Nat.shiftLeft_eq]
  have hplace : (-(k : Int) - (-1074)).toNat <<< binary64.fractionBits = (1074 - k) * 2 ^ 52 := by
    have hdifference : (-(k : Int) - (-1074)).toNat = 1074 - k := by omega
    rw [hdifference, Nat.shiftLeft_eq]
    rfl
  have hfits : (1074 - k) * 2 ^ 52 + roundDiv (num * 2 ^ k) den ≤ binary64.infinity :=
    calc (1074 - k) * 2 ^ 52 + roundDiv (num * 2 ^ k) den ≤ 1074 * 2 ^ 52 + 2 ^ 53 :=
          Nat.add_le_add (Nat.mul_le_mul_right _ (Nat.sub_le 1074 k)) hmantissa
      _ ≤ binary64.infinity := by decide
  rw [encode_eq binary64 hnum.ne' hden.ne', hbits, hleast]
  simp only [hscale, hrounded, hplace]
  exact Nat.min_eq_left hfits

/-- The pattern of a quotient below the limit: the quotient is scaled to fifty-three bits, or as far
as the format goes, and rounded. -/
theorem encode_of_lt (hnum : 0 < num) (hden : 0 < den) (hlt : num < 2 ^ 53 * den) :
    ∃ k ≤ 1074, binary64.encode num den = (1074 - k) * 2 ^ 52 + roundDiv (num * 2 ^ k) den ∧
      roundDiv (num * 2 ^ k) den ≤ 2 ^ 53 ∧ (k < 1074 → 2 ^ 52 ≤ roundDiv (num * 2 ^ k) den) := by
  obtain ⟨a, b, hleading, hge, hless⟩ := exists_leadingExponent hnum hden
  have hab : a < 53 + b := by
    have hpow : den * 2 ^ a < den * 2 ^ (53 + b) :=
      calc den * 2 ^ a ≤ num * 2 ^ b := hge
        _ < 2 ^ 53 * den * 2 ^ b := Nat.mul_lt_mul_of_pos_right hlt (Nat.two_pow_pos b)
        _ = den * 2 ^ (53 + b) := by ring
    exact (Nat.pow_lt_pow_iff_right (by decide)).mp (Nat.lt_of_mul_lt_mul_left hpow)
  obtain ⟨k, hk⟩ : ∃ k, k = min (52 + b - a) 1074 := ⟨_, rfl⟩
  have hupper := @roundDiv_scaled_le num den a b k hden hless (by omega)
  have hscale : max (leadingExponent num den - 52) (-1074) = -(k : Int) := by omega
  exact ⟨k, by omega, encode_of_scale hnum hden hscale hupper, hupper,
    fun hfree => le_roundDiv_scaled hden hge (by omega)⟩

/-- The number of a pattern without sign that is put together from an exponent and an integer of at
most fifty-three bits. Rounding may have made the integer one bit longer, which moves the exponent
up. -/
theorem decode_ofMagnitude {place mantissa : Nat} (hplace : place ≤ 1074)
    (hmantissa : mantissa ≤ 2 ^ 53) (hnormal : 0 < place → 2 ^ 52 ≤ mantissa) :
    (Binary64.ofMagnitude false (place * 2 ^ 52 + mantissa)).decode =
      if mantissa = 2 ^ 53 then .finite false (2 ^ 52) ((place : Int) - 1073)
      else .finite false mantissa ((place : Int) - 1074) := by
  have hbits : (Binary64.ofMagnitude false (place * 2 ^ 52 + mantissa)).bits.toNat =
      place * 2 ^ 52 + mantissa := by
    rw [Binary64.ofMagnitude, if_neg Bool.false_ne_true, Nat.add_zero, UInt64.toNat_ofNat']
    exact Nat.mod_eq_of_lt (by omega)
  unfold Binary64.decode
  rw [hbits]
  have hsign : decide (Binary64.signBit ≤ place * 2 ^ 52 + mantissa) = false := by
    have hbit : Binary64.signBit = 2 ^ 63 := rfl
    rw [decide_eq_false_iff_not, hbit]
    omega
  have hleading : Binary64.leadingBit = 2 ^ 52 := rfl
  simp only [hsign, hleading]
  by_cases htop : mantissa = 2 ^ 53
  · have hexponent : (place * 2 ^ 52 + mantissa) / 2 ^ 52 % 0x800 = place + 2 := by omega
    have hfraction : (place * 2 ^ 52 + mantissa) % 2 ^ 52 = 0 := by omega
    have hshift : ((place + 2 : Nat) : Int) - 1075 = place - 1073 := by omega
    rw [hexponent, hfraction, if_neg (by omega), if_neg (by omega), if_pos htop, hshift,
      Nat.add_zero]
  · rw [if_neg htop]
    by_cases hlong : 2 ^ 52 ≤ mantissa
    · have hexponent : (place * 2 ^ 52 + mantissa) / 2 ^ 52 % 0x800 = place + 1 := by omega
      have hfraction : (place * 2 ^ 52 + mantissa) % 2 ^ 52 = mantissa - 2 ^ 52 := by omega
      have hsum : 2 ^ 52 + (mantissa - 2 ^ 52) = mantissa := by omega
      have hshift : ((place + 1 : Nat) : Int) - 1075 = place - 1074 := by omega
      rw [hexponent, hfraction, if_neg (by omega), if_neg (by omega), hsum, hshift]
    · obtain rfl : place = 0 := by omega
      have hexponent : (0 * 2 ^ 52 + mantissa) / 2 ^ 52 % 0x800 = 0 := by omega
      have hfraction : (0 * 2 ^ 52 + mantissa) % 2 ^ 52 = mantissa := by omega
      have hleast : ((0 : Nat) : Int) - 1074 = -1074 := by omega
      rw [hexponent, hfraction, if_neg (by decide), if_pos rfl, hleast]

/-! ### Shares -/

namespace Binary64

/-- A number rounded to an integer, a half going up. What is no finite number counts as zero. -/
def toNearest (x : Binary64) : Nat :=
  match x.decode with
  | .finite _ m e => if 0 ≤ e then m <<< e.toNat else roundHalfUp m (1 <<< (-e).toNat)
  | _ => 0

/-- Rounding a scaled number to an integer passes no integer. -/
theorem round_scaled_le {m k n : Nat} (h : m ≤ n * 2 ^ k) :
    (if 0 ≤ -(k : Int) then m <<< (-(k : Int)).toNat
      else roundHalfUp m (1 <<< (- -(k : Int)).toNat)) ≤ n := by
  cases k with
  | zero => simpa using h
  | succ k =>
    have hscale : (- -((k + 1 : Nat) : Int)).toNat = k + 1 := by omega
    rw [if_neg (by omega), hscale, Nat.one_shiftLeft]
    exact roundHalfUp_le (Nat.two_pow_pos _) (by rwa [Nat.mul_comm])

/-- A quotient that is at most an integer below the limit is still so after it has been rounded to a
number and then to an integer. -/
theorem toNearest_ofRatio_le {n : Nat} (hden : 0 < den) (h : num ≤ den * n) (hn : n < 2 ^ 53) :
    (ofRatio false num den).toNearest ≤ n := by
  rcases Nat.eq_zero_or_pos num with rfl | hnum
  · have hzero : (ofRatio false 0 den).toNearest = 0 := by
      have hcode : binary64.encode 0 den = 0 := by rw [BinaryFormat.encode, if_pos (Or.inl rfl)]
      rw [ofRatio, hcode]
      decide +kernel
    rw [hzero]
    exact Nat.zero_le n
  · have hlt : num < 2 ^ 53 * den :=
      calc num ≤ den * n := h
        _ < den * 2 ^ 53 := Nat.mul_lt_mul_of_pos_left hn hden
        _ = 2 ^ 53 * den := Nat.mul_comm _ _
    obtain ⟨k, hk, hcode, hupper, hlower⟩ := encode_of_lt hnum hden hlt
    have hmantissa : roundDiv (num * 2 ^ k) den ≤ n * 2 ^ k := by
      refine roundDiv_le hden ?_
      calc num * 2 ^ k ≤ den * n * 2 ^ k := Nat.mul_le_mul_right _ h
        _ = den * (n * 2 ^ k) := Nat.mul_assoc _ _ _
    generalize roundDiv (num * 2 ^ k) den = mantissa at *
    have hplace : 1074 - k ≤ 1074 := Nat.sub_le 1074 k
    rw [toNearest, ofRatio, hcode, decode_ofMagnitude hplace hupper fun hpos => hlower (by omega)]
    by_cases htop : mantissa = 2 ^ 53
    · -- the exponent has moved up, and is still not above zero
      cases k with
      | zero => omega
      | succ k =>
        have hexponent : ((1074 - (k + 1) : Nat) : Int) - 1073 = -(k : Int) := by omega
        rw [if_pos htop, hexponent]
        rw [pow_succ, ← Nat.mul_assoc] at hmantissa
        exact round_scaled_le (by omega)
    · have hexponent : ((1074 - k : Nat) : Int) - 1074 = -(k : Int) := by omega
      rw [if_neg htop, hexponent]
      exact round_scaled_le hmantissa

/-- The share of a count before it is rounded to an integer. -/
def product (share : Binary64) (n : Nat) : Binary64 :=
  match share.decode with
  | .notANumber => ofRatio false 0 1
  | .infinite negative => if negative then ofRatio false 0 1 else ofInt n
  | .finite negative m e =>
    if negative then ofRatio false 0 1
    else if share.inUnitInterval then ofRatio false (m * n) (1 <<< (-e).toNat)
    else ofInt n

theorem shareOf_eq_toNearest (share : Binary64) (n : Nat) :
    share.shareOf n = (share.product n).toNearest := rfl

theorem ofInt_natCast (n : Nat) : ofInt n = ofRatio false n 1 := by
  rw [ofInt, decide_eq_false (by omega), Int.natAbs_natCast]

/-- A number in the unit interval is a quotient of at most one. -/
theorem le_of_inUnitInterval {share : Binary64} {negative : Bool} {m : Nat} {e : Int}
    (hdecode : share.decode = .finite negative m e) (h : share.inUnitInterval = true) :
    m ≤ 1 <<< (-e).toNat := by
  rw [inUnitInterval, hdecode] at h
  by_cases hm : m = 0
  · rw [hm]
    exact Nat.zero_le _
  · simp only [hm, if_false] at h
    cases negative with
    | true => cases h
    | false =>
      rw [if_neg Bool.false_ne_true] at h
      split at h
      · next he =>
        have hscale : (-e).toNat = 0 := by omega
        rw [hscale]
        exact (Nat.le_shiftLeft).trans (of_decide_eq_true h)
      · exact of_decide_eq_true h

/-- The share is a quotient of at most the count. -/
theorem exists_product_eq (share : Binary64) (n : Nat) :
    ∃ num den : Nat, 0 < den ∧ num ≤ den * n ∧ share.product n = ofRatio false num den := by
  have hnone : ∃ num den : Nat, 0 < den ∧ num ≤ den * n ∧
      ofRatio false 0 1 = ofRatio false num den :=
    ⟨0, 1, Nat.one_pos, Nat.zero_le _, rfl⟩
  have hall : ∃ num den : Nat, 0 < den ∧ num ≤ den * n ∧ ofInt n = ofRatio false num den :=
    ⟨n, 1, Nat.one_pos, (Nat.one_mul n).ge, ofInt_natCast n⟩
  unfold product
  cases hdecode : share.decode with
  | notANumber => exact hnone
  | infinite negative =>
    cases negative with
    | true => exact hnone
    | false => exact hall
  | finite negative m e =>
    cases negative with
    | true => exact hnone
    | false =>
      cases hunit : share.inUnitInterval with
      | false => exact hall
      | true =>
        refine ⟨m * n, 1 <<< (-e).toNat, ?_,
          Nat.mul_le_mul_right n (le_of_inUnitInterval hdecode hunit), rfl⟩
        rw [Nat.one_shiftLeft]
        exact Nat.two_pow_pos _

/-- A share of a count below the limit is at most the count. -/
theorem shareOf_le (share : Binary64) {n : Nat} (hn : n < 2 ^ 53) : share.shareOf n ≤ n := by
  obtain ⟨num, den, hden, h, heq⟩ := exists_product_eq share n
  rw [shareOf_eq_toNearest, heq]
  exact toNearest_ofRatio_le hden h hn

end Binary64

end Catalog
