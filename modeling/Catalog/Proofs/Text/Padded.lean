import Catalog.Text.Pieces
import Mathlib.Data.String.Basic

/-!
# Numbers filled up with blanks

A number is written with its digits behind blanks that fill it up to a width, and texts are compared
character by character. As long as two numbers fit into the width, this is the order of numbers,
since a blank is less than any digit. A number that does not fit is met with its leading digits
only.

* `Text.toDigits_lt` says that digits of one length are in the order of their numbers, and
  `Text.toDigits_split` which number the leading digits of another one are;
* `Text.leadingDigits` is the number whose digits stand against another number in a column of a
  width;
* `Text.compare_padLeft` says which of two different numbers comes first, when something that is
  less than a digit stands behind them.
-/

namespace Catalog.Text

/-! ### Texts that agree up to a place -/

/-- Whatever follows, texts of one length are compared where they first differ. -/
theorem append_lt_append_of_lt {xs ys : List Char} (hlength : xs.length = ys.length) (h : xs < ys)
    (us vs : List Char) : xs ++ us < ys ++ vs := by
  induction xs generalizing ys with
  | nil =>
    cases ys with
    | nil => exact absurd h (List.lt_irrefl _)
    | cons y ys => simp at hlength
  | cons x xs ih =>
    cases ys with
    | nil => simp at hlength
    | cons y ys =>
      rw [List.cons_lt_cons_iff] at h
      rw [List.cons_append, List.cons_append, List.cons_lt_cons_iff]
      rcases h with hhead | ⟨rfl, htail⟩
      · exact Or.inl hhead
      · exact Or.inr ⟨rfl, ih (Nat.succ.inj hlength) htail⟩

/-- A common beginning does not count. -/
theorem compare_append_left (r s t : String) : compare (r ++ s) (r ++ t) = compare s t := by
  have hlt : ∀ a b : String, compare a b = .lt → compare (r ++ a) (r ++ b) = .lt := by
    intro a b h
    rw [compare_lt_iff_lt, String.lt_iff_toList_lt] at h ⊢
    rw [String.toList_append, String.toList_append]
    exact List.append_left_lt h
  cases h : compare s t with
  | lt => exact hlt s t h
  | eq => rw [Std.LawfulEqOrd.eq_of_compare h, Std.ReflOrd.compare_self]
  | gt => exact Std.OrientedCmp.gt_of_lt (hlt t s (Std.OrientedCmp.lt_of_gt h))

/-! ### Digits -/

theorem digitChar_lt {a b : Nat} (h : a < b) (hb : b < 10) : Nat.digitChar a < Nat.digitChar b := by
  have hall : ∀ b < 10, ∀ a < b, Nat.digitChar a < Nat.digitChar b := by decide
  exact hall b hb a h

theorem length_toDigits_div {n : Nat} (h : 10 ≤ n) :
    (Nat.toDigits 10 n).length = (Nat.toDigits 10 (n / 10)).length + 1 := by
  rw [Nat.toDigits_of_base_le (by decide) h, List.length_append, List.length_singleton]

/-- Digits of one length are in the order of the numbers. -/
theorem toDigits_lt {a b : Nat} (h : a < b)
    (hlength : (Nat.toDigits 10 a).length = (Nat.toDigits 10 b).length) :
    Nat.toDigits 10 a < Nat.toDigits 10 b := by
  induction b using Nat.strongRecOn generalizing a with
  | ind b ih =>
    rcases Nat.lt_or_ge b 10 with hb | hb
    · rw [Nat.toDigits_of_lt_base (Nat.lt_trans h hb), Nat.toDigits_of_lt_base hb,
        List.cons_lt_cons_iff]
      exact Or.inl (digitChar_lt h hb)
    · have ha : 10 ≤ a := by
        by_contra hlt
        rw [Nat.toDigits_of_lt_base (Nat.lt_of_not_le hlt), length_toDigits_div hb] at hlength
        have hpos := Nat.length_toDigits_pos (b := 10) (n := b / 10)
        simp at hlength
      rw [length_toDigits_div ha, length_toDigits_div hb] at hlength
      rw [Nat.toDigits_of_base_le (by decide) ha, Nat.toDigits_of_base_le (by decide) hb]
      rcases Nat.lt_or_ge (a / 10) (b / 10) with hdiv | hdiv
      · exact append_lt_append_of_lt (Nat.succ.inj hlength)
          (ih (b / 10) (by omega) hdiv (Nat.succ.inj hlength)) _ _
      · have hsame : a / 10 = b / 10 := by omega
        rw [hsame]
        refine List.append_left_lt ?_
        rw [List.cons_lt_cons_iff]
        exact Or.inl (digitChar_lt (by omega) (Nat.mod_lt b (by decide)))

theorem length_toDigits_mono {a b : Nat} (h : a ≤ b) :
    (Nat.toDigits 10 a).length ≤ (Nat.toDigits 10 b).length := by
  have hpos := Nat.length_toDigits_pos (b := 10) (n := b)
  rw [Nat.length_toDigits_le_iff (by decide) hpos]
  exact Nat.lt_of_le_of_lt h ((Nat.length_toDigits_le_iff (by decide) hpos).mp (Nat.le_refl _))

/-- Without its last digits, a number is written with the digits before them. -/
theorem toDigits_split {n k : Nat} (h : k < (Nat.toDigits 10 n).length) :
    ∃ rest, Nat.toDigits 10 n = Nat.toDigits 10 (n / 10 ^ k) ++ rest ∧ rest.length = k := by
  induction k with
  | zero => exact ⟨[], by simp, rfl⟩
  | succ k ih =>
    obtain ⟨rest, hsplit, hlength⟩ := ih (by omega)
    have hleft : 10 ≤ n / 10 ^ k := by
      by_contra hlt
      rw [hsplit, Nat.toDigits_of_lt_base (Nat.lt_of_not_le hlt), List.length_append, hlength] at h
      simp at h
      omega
    refine ⟨Nat.digitChar (n / 10 ^ k % 10) :: rest, ?_, by rw [List.length_cons, hlength]⟩
    rw [hsplit, Nat.toDigits_of_base_le (by decide) hleft, Nat.div_div_eq_div_mul, ← Nat.pow_succ]
    simp

theorem lt_of_mem_toDigits {n : Nat} {c d : Char} (hc : c < '0') (hd : d ∈ Nat.toDigits 10 n) :
    c < d := by
  have hdigit : d.isDigit = true := Nat.isDigit_of_mem_toDigits (by decide) (by decide) hd
  simp only [Char.isDigit, Bool.and_eq_true, decide_eq_true_eq] at hdigit
  have hzero : '0'.val ≤ d.val := hdigit.1
  exact lt_of_lt_of_le hc hzero

/-! ### Columns -/

theorem toList_padLeft (width n : Nat) : (padLeft width (toString n)).toList =
    List.replicate (width - (Nat.toDigits 10 n).length) ' ' ++ Nat.toDigits 10 n := by
  have hdigits : (toString n).toList = Nat.toDigits 10 n := Nat.toList_repr
  rw [padLeft, String.toList_append, String.toList_ofList, ← String.length_toList, hdigits]

/-- Blanks and digits are all there is in a column. -/
theorem eq_blank_or_isDigit_of_mem {width n : Nat} {c : Char}
    (h : c ∈ (padLeft width (toString n)).toList) : c = ' ' ∨ c.isDigit = true := by
  rw [toList_padLeft, List.mem_append] at h
  exact h.imp List.eq_of_mem_replicate (Nat.isDigit_of_mem_toDigits (by decide) (by decide))

theorem length_toList_padLeft (width n : Nat) :
    (padLeft width (toString n)).toList.length = max width (Nat.toDigits 10 n).length := by
  rw [toList_padLeft, List.length_append, List.length_replicate]
  omega

/-- In a column of two characters only numbers with one digit have a blank in front. -/
theorem padLeft_two (n : Nat) :
    padLeft 2 (toString n) = (if n < 10 then " " else "") ++ toString n := by
  have hlength : (toString n).length = (Nat.toDigits 10 n).length := by
    rw [← String.length_toList]
    exact congrArg List.length Nat.toList_repr
  rw [padLeft, hlength]
  split
  · next h =>
    rw [Nat.toDigits_of_lt_base h]
    rfl
  · next h =>
    have hpos := Nat.length_toDigits_pos (b := 10) (n := n / 10)
    have hlong : 2 - (Nat.toDigits 10 n).length = 0 := by
      rw [length_toDigits_div (Nat.le_of_not_lt h)]
      omega
    rw [hlong]
    rfl

/-- In a column that is wide enough for both, numbers are in their order. -/
theorem toList_padLeft_lt {width a b : Nat} (h : a < b)
    (hwidth : max width (Nat.toDigits 10 a).length = max width (Nat.toDigits 10 b).length) :
    (padLeft width (toString a)).toList < (padLeft width (toString b)).toList := by
  rw [toList_padLeft, toList_padLeft]
  rcases Nat.eq_or_lt_of_le (length_toDigits_mono (Nat.le_of_lt h)) with hsame | hshort
  · rw [hsame]
    exact List.append_left_lt (toDigits_lt h hsame)
  · -- a blank of the shorter number stands against the first digit of the longer one
    obtain ⟨more, hmore⟩ : ∃ more, width - (Nat.toDigits 10 a).length =
        (width - (Nat.toDigits 10 b).length) + (more + 1) :=
      ⟨(Nat.toDigits 10 b).length - (Nat.toDigits 10 a).length - 1, by omega⟩
    obtain ⟨d, rest, hdigits⟩ := List.exists_cons_of_ne_nil (Nat.toDigits_ne_nil (b := 10) (n := b))
    rw [hmore, ← List.replicate_append_replicate, List.append_assoc]
    refine List.append_left_lt ?_
    rw [List.replicate_succ, List.cons_append, hdigits, List.cons_lt_cons_iff]
    exact Or.inl (lt_of_mem_toDigits (by decide) (hdigits ▸ List.mem_cons_self))

theorem toList_padLeft_append_lt {width a b : Nat} (h : a < b)
    (hwidth : max width (Nat.toDigits 10 a).length = max width (Nat.toDigits 10 b).length)
    (us vs : List Char) :
    (padLeft width (toString a)).toList ++ us < (padLeft width (toString b)).toList ++ vs := by
  refine append_lt_append_of_lt ?_ (toList_padLeft_lt h hwidth) us vs
  rw [length_toList_padLeft, length_toList_padLeft, hwidth]

/-- The leading digits of the second number: those that stand against the first one in a column of a
width. -/
def leadingDigits (width a b : Nat) : Nat :=
  b / 10 ^ ((Nat.toDigits 10 b).length - max width (Nat.toDigits 10 a).length)

theorem leadingDigits_of_fits {width a b : Nat}
    (h : (Nat.toDigits 10 b).length ≤ max width (Nat.toDigits 10 a).length) :
    leadingDigits width a b = b := by
  rw [leadingDigits, Nat.sub_eq_zero_of_le h, Nat.pow_zero, Nat.div_one]

/-- A number that does not fit into the column of another one starts with digits that fill it. -/
theorem toList_padLeft_of_long {width a b : Nat}
    (h : max width (Nat.toDigits 10 a).length < (Nat.toDigits 10 b).length) :
    ∃ d rest, d ∈ Nat.toDigits 10 b ∧ (padLeft width (toString b)).toList =
        (padLeft width (toString (leadingDigits width a b))).toList ++ d :: rest ∧
      max width (Nat.toDigits 10 (leadingDigits width a b)).length =
        max width (Nat.toDigits 10 a).length := by
  have hpos := Nat.length_toDigits_pos (b := 10) (n := a)
  obtain ⟨rest, hsplit, hlength⟩ := toDigits_split (n := b)
    (k := (Nat.toDigits 10 b).length - max width (Nat.toDigits 10 a).length) (by omega)
  rw [← leadingDigits] at hsplit
  have hsum := congrArg List.length hsplit
  rw [List.length_append] at hsum
  obtain ⟨d, rest, rfl⟩ := List.exists_cons_of_length_pos (l := rest) (by omega)
  refine ⟨d, rest, by rw [hsplit]; simp, ?_, by omega⟩
  rw [toList_padLeft, toList_padLeft, Nat.sub_eq_zero_of_le (by omega),
    Nat.sub_eq_zero_of_le (by omega), hsplit]
  rfl

section Compare

variable {width a b : Nat} (h : a < b) (us vs : List Char)

include h

/-- The lesser number comes first if it is not greater than the digits that it stands against. -/
theorem padLeft_dash_lt (hlead : a ≤ leadingDigits width a b) :
    (padLeft width (toString a)).toList ++ '-' :: us <
      (padLeft width (toString b)).toList ++ '-' :: vs := by
  have hmono := length_toDigits_mono (Nat.le_of_lt h)
  rcases Nat.lt_or_ge (max width (Nat.toDigits 10 a).length) (Nat.toDigits 10 b).length with
    hlong | hfits
  · obtain ⟨d, rest, hd, hsplit, hwidth⟩ := toList_padLeft_of_long hlong
    rw [hsplit, List.append_assoc]
    rcases Nat.eq_or_lt_of_le hlead with heq | hlt
    · rw [← heq]
      refine List.append_left_lt ?_
      rw [List.cons_append, List.cons_lt_cons_iff]
      exact Or.inl (lt_of_mem_toDigits (by decide) hd)
    · exact toList_padLeft_append_lt hlt hwidth.symm _ _
  · exact toList_padLeft_append_lt h (by omega) _ _

/-- Otherwise the greater one does. -/
theorem lt_padLeft_dash (hlead : leadingDigits width a b < a) :
    (padLeft width (toString b)).toList ++ '-' :: vs <
      (padLeft width (toString a)).toList ++ '-' :: us := by
  rcases Nat.lt_or_ge (max width (Nat.toDigits 10 a).length) (Nat.toDigits 10 b).length with
    hlong | hfits
  · obtain ⟨d, rest, hd, hsplit, hwidth⟩ := toList_padLeft_of_long hlong
    rw [hsplit, List.append_assoc]
    exact toList_padLeft_append_lt hlead hwidth _ _
  · rw [leadingDigits_of_fits hfits] at hlead
    omega

end Compare

/-- Two numbers in a column of a width, with `-` behind them: the lesser one comes first if and only
if it is not greater than the digits that it stands against. -/
theorem compare_padLeft {width a b : Nat} (h : a < b) (s t : String) :
    compare (padLeft width (toString a) ++ "-" ++ s) (padLeft width (toString b) ++ "-" ++ t) =
      if a ≤ leadingDigits width a b then .lt else .gt := by
  have htoList : ∀ (n : Nat) (u : String), (padLeft width (toString n) ++ "-" ++ u).toList =
      (padLeft width (toString n)).toList ++ '-' :: u.toList := by
    intro n u
    simp
  split
  · next hlead =>
    rw [compare_lt_iff_lt, String.lt_iff_toList_lt, htoList, htoList]
    exact padLeft_dash_lt h _ _ hlead
  · next hlead =>
    rw [compare_gt_iff_gt, String.lt_iff_toList_lt, htoList, htoList]
    exact lt_padLeft_dash h _ _ (Nat.lt_of_not_le hlead)

end Catalog.Text
