import Catalog.Proofs.Text.Pieces
import Catalog.Screen.Color

/-!
# Colours in hexadecimal digits

Behind a `#` a colour is read from six bytes in three pairs, each of which is a number in base
sixteen. A character that takes several bytes is in no pair: it is cut, or it is no digit. But a
number may have a plus sign in front, so that a plus sign with one digit behind it is a pair too,
and `#+1+2+3` is a colour.

* `IsHexDigit` says which characters are digits, and `digit?_eq_some_iff` that these are read;
* `IsPair` and `IsThreePairs` say how the parts of a colour are written, with a choice of what may
  lead a pair;
* `isPair_iff` says what a pair of bytes stands for, and `ofHex?_eq_some_iff` which texts are
  colours;
* `readsHexColors_iff` compares this with six hexadecimal digits.
-/

namespace Catalog.Color

variable {c d : Char} {n : Nat} {hex t : String} {color : Color} {leading : Char → Nat → Prop}

/-! ### Written colours -/

/-- A hexadecimal digit, small or capital, with its value. -/
def IsHexDigit (c : Char) (n : Nat) : Prop :=
  "0123456789abcdef".toList[n]? = some c ∨ "0123456789ABCDEF".toList[n]? = some c

instance : Decidable (IsHexDigit c n) := inferInstanceAs (Decidable (_ ∨ _))

/-- A hexadecimal digit, or a plus sign in its place. -/
def IsDigitOrPlus (c : Char) (n : Nat) : Prop := IsHexDigit c n ∨ c = '+' ∧ n = 0

/-- Two characters with the number that they stand for: a hexadecimal digit and what may lead it. -/
def IsPair (leading : Char → Nat → Prop) (t : String) (n : Nat) : Prop :=
  ∃ c d v w, t = String.ofList [c, d] ∧ leading c v ∧ IsHexDigit d w ∧ n = 16 * v + w

/-- Three pairs with the colour of which they are the parts. -/
def IsThreePairs (leading : Char → Nat → Prop) (hex : String) (color : Color) : Prop :=
  ∃ r g b red green blue, hex = r ++ g ++ b ∧ IsPair leading r red ∧ IsPair leading g green ∧
    IsPair leading b blue ∧ color = rgb red green blue

/-! ### Digits -/

theorem IsHexDigit.lt (h : IsHexDigit c n) : n < 16 := by
  rcases h with h | h
  all_goals
    obtain ⟨hlt, _⟩ := List.getElem?_eq_some_iff.mp h
    exact hlt

theorem toNat_lt_of_digit? (h : digit? 16 c = some n) : c.toNat < 0x80 := by
  have hle : ∀ d : Char, d.toNat < 0x80 → c ≤ d → c.toNat < 0x80 :=
    fun d hd hcd => Nat.lt_of_le_of_lt hcd hd
  simp only [digit?, Bool.and_eq_true, decide_eq_true_eq] at h
  by_cases hdigit : '0' ≤ c ∧ c ≤ '9'
  · exact hle '9' (by decide) hdigit.2
  · by_cases hsmall : 'a' ≤ c ∧ c ≤ 'f'
    · exact hle 'f' (by decide) hsmall.2
    · by_cases hcapital : 'A' ≤ c ∧ c ≤ 'F'
      · exact hle 'F' (by decide) hcapital.2
      · rw [if_neg hdigit, if_neg hsmall, if_neg hcapital, if_neg (Nat.lt_irrefl 16)] at h
        cases h

/-- All characters of ASCII are gone through, and no other one is a digit. -/
theorem digit?_eq_some_iff : digit? 16 c = some n ↔ IsHexDigit c n := by
  constructor
  · intro h
    have hall : ∀ k < 0x80,
        (digit? 16 (Char.ofNat k)).all (fun n => decide (IsHexDigit (Char.ofNat k) n)) = true := by
      decide +kernel
    have hc := hall c.toNat (toNat_lt_of_digit? h)
    rw [Char.ofNat_toNat, h] at hc
    exact of_decide_eq_true hc
  · intro h
    have hall : ∀ n < 16,
        ("0123456789abcdef".toList[n]?.all fun c => digit? 16 c == some n) = true ∧
        ("0123456789ABCDEF".toList[n]?.all fun c => digit? 16 c == some n) = true := by
      decide +kernel
    obtain ⟨hsmall, hcapital⟩ := hall n h.lt
    rcases h with h | h
    · rw [h] at hsmall
      exact beq_iff_eq.mp hsmall
    · rw [h] at hcapital
      exact beq_iff_eq.mp hcapital

theorem IsHexDigit.utf8Size_eq (h : IsHexDigit c n) : c.utf8Size = 1 := by
  have hlt := toNat_lt_of_digit? (digit?_eq_some_iff.mpr h)
  exact Char.utf8Size_eq_one_iff.mpr (UInt32.le_iff_toNat_le.mpr (Nat.le_of_lt_succ hlt))

theorem IsDigitOrPlus.utf8Size_eq (h : IsDigitOrPlus c n) : c.utf8Size = 1 := by
  rcases h with h | ⟨rfl, _⟩
  · exact h.utf8Size_eq
  · rfl

theorem not_isHexDigit_plus : ¬ IsHexDigit '+' n := by
  intro h
  have hnone : digit? 16 '+' = none := rfl
  rw [← digit?_eq_some_iff, hnone] at h
  cases h

/-! ### Numbers of one and two characters -/

theorem byteOfDigits?_singleton : byteOfDigits? 16 [c] = some n ↔ IsHexDigit c n := by
  rw [← digit?_eq_some_iff]
  simp only [byteOfDigits?, List.isEmpty_cons, Bool.false_eq_true, if_false, List.mapM_cons,
    List.mapM_nil]
  cases h : digit? 16 c with
  | none => simp
  | some v =>
    have hv := (digit?_eq_some_iff.mp h).lt
    simp
    omega

theorem byteOfDigits?_pair :
    byteOfDigits? 16 [c, d] = some n ↔ ∃ v w, IsHexDigit c v ∧ IsHexDigit d w ∧ n = 16 * v + w := by
  simp only [← digit?_eq_some_iff]
  simp only [byteOfDigits?, List.isEmpty_cons, Bool.false_eq_true, if_false, List.mapM_cons,
    List.mapM_nil]
  cases h : digit? 16 c with
  | none => simp
  | some v =>
    have hv := (digit?_eq_some_iff.mp h).lt
    cases h' : digit? 16 d with
    | none => simp
    | some w =>
      have hw := (digit?_eq_some_iff.mp h').lt
      simp
      omega

theorem byte?_of_ne {cs : List Char} (h : c ≠ '+') :
    byte? 16 (c :: cs) = byteOfDigits? 16 (c :: cs) := by
  rw [byte?]
  intro digits heq
  exact h (List.cons.inj heq).1

/-- A number of one character is a digit: a plus sign needs one behind it. -/
theorem isHexDigit_of_byte? (h : byte? 16 [c] = some n) : IsHexDigit c n := by
  by_cases hplus : c = '+'
  · subst hplus
    have hnone : byte? 16 ['+'] = none := rfl
    rw [hnone] at h
    cases h
  · rw [byte?_of_ne hplus] at h
    exact byteOfDigits?_singleton.mp h

theorem byte?_pair :
    byte? 16 [c, d] = some n ↔ ∃ v w, IsDigitOrPlus c v ∧ IsHexDigit d w ∧ n = 16 * v + w := by
  by_cases hplus : c = '+'
  · subst hplus
    have hd : byte? 16 ['+', d] = byteOfDigits? 16 [d] := rfl
    rw [hd, byteOfDigits?_singleton]
    constructor
    · intro h
      exact ⟨0, n, .inr ⟨rfl, rfl⟩, h, by omega⟩
    · rintro ⟨v, w, hv, hw, rfl⟩
      obtain ⟨_, rfl⟩ := hv.resolve_left not_isHexDigit_plus
      rw [Nat.mul_zero, Nat.zero_add]
      exact hw
  · rw [byte?_of_ne hplus, byteOfDigits?_pair]
    simp only [IsDigitOrPlus, hplus, false_and, or_false]

/-! ### Pairs of bytes -/

theorem utf8ByteSize_ofList_cons (c : Char) (cs : List Char) :
    (String.ofList (c :: cs)).utf8ByteSize = c.utf8Size + (String.ofList cs).utf8ByteSize := by
  rw [String.ofList_cons, String.utf8ByteSize_append, String.utf8ByteSize_singleton]

/-- Two bytes are one character that takes both or two characters of one byte. -/
theorem toList_of_two_bytes (h : t.utf8ByteSize = 2) :
    (∃ c, t.toList = [c] ∧ c.utf8Size = 2) ∨ ∃ c d, t.toList = [c, d] := by
  rw [← String.ofList_toList (s := t)] at h
  cases hcs : t.toList with
  | nil =>
    rw [hcs] at h
    cases h
  | cons c cs =>
    cases cs with
    | nil =>
      rw [hcs, utf8ByteSize_ofList_cons] at h
      exact .inl ⟨c, rfl, h⟩
    | cons d cs =>
      cases cs with
      | nil => exact .inr ⟨c, d, rfl⟩
      | cons e cs =>
        rw [hcs, utf8ByteSize_ofList_cons, utf8ByteSize_ofList_cons, utf8ByteSize_ofList_cons] at h
        have := c.utf8Size_pos
        have := d.utf8Size_pos
        have := e.utf8Size_pos
        omega

theorem IsPair.utf8ByteSize_eq (h : IsPair IsDigitOrPlus t n) : t.utf8ByteSize = 2 := by
  obtain ⟨c, d, v, w, rfl, hc, hd, _⟩ := h
  rw [utf8ByteSize_ofList_cons, utf8ByteSize_ofList_cons, hc.utf8Size_eq, hd.utf8Size_eq]
  rfl

/-- Two bytes are read as a pair of digits, the first of which may be a plus sign. A character that
takes both is no digit. -/
theorem isPair_iff :
    IsPair IsDigitOrPlus t n ↔ t.utf8ByteSize = 2 ∧ byte? 16 t.toList = some n := by
  constructor
  · intro h
    refine ⟨h.utf8ByteSize_eq, ?_⟩
    obtain ⟨c, d, v, w, rfl, hpair⟩ := h
    rw [String.toList_ofList]
    exact byte?_pair.mpr ⟨v, w, hpair⟩
  · rintro ⟨hsize, hread⟩
    rcases toList_of_two_bytes hsize with ⟨c, hc, htwo⟩ | ⟨c, d, hcd⟩
    · rw [hc] at hread
      rw [(isHexDigit_of_byte? hread).utf8Size_eq] at htwo
      cases htwo
    · rw [hcd] at hread
      obtain ⟨v, w, hpair⟩ := byte?_pair.mp hread
      exact ⟨c, d, v, w, by rw [← hcd, String.ofList_toList], hpair⟩

theorem hexPart?_eq_some_iff {start : Nat} :
    hexPart? hex start = some n ↔
      ∃ t, Text.slice? hex start (start + 2) = some t ∧ IsPair IsDigitOrPlus t n := by
  rw [hexPart?, Option.bind_eq_some_iff]
  refine exists_congr fun t => and_congr_right fun hslice => ?_
  obtain ⟨_, _, _, _, hsize⟩ := Text.slice?_eq_some_iff.mp hslice
  rw [isPair_iff, and_iff_right (Nat.add_left_cancel hsize)]

theorem IsPair.hexPart?_eq (h : IsPair IsDigitOrPlus t n) {front back : String} {start : Nat}
    (hhex : hex = front ++ t ++ back) (hstart : front.utf8ByteSize = start) :
    hexPart? hex start = some n := by
  refine hexPart?_eq_some_iff.mpr ⟨t,
    Text.slice?_eq_some_iff.mpr ⟨front, back, hhex, hstart, ?_⟩, h⟩
  rw [h.utf8ByteSize_eq]

/-! ### Colours -/

/-- A text is read as a colour exactly if it is three pairs: the slices follow each other and are
all of the text. -/
theorem ofHex?_eq_some_iff : ofHex? hex = some color ↔ IsThreePairs IsDigitOrPlus hex color := by
  constructor
  · intro h
    rw [ofHex?] at h
    split at h
    · cases h
    · next hsize =>
      rw [Bool.not_eq_true, bne_eq_false_iff_eq] at hsize
      simp only [Option.bind_eq_bind, Option.bind_eq_some_iff, Option.pure_def, Option.some.injEq,
        hexPart?_eq_some_iff] at h
      obtain ⟨red, ⟨r, hr, hred⟩, green, ⟨g, hg, hgreen⟩, blue, ⟨b, hb, hblue⟩, rfl⟩ := h
      have hall : Text.slice? hex 0 6 = some (r ++ g ++ b) :=
        Text.slice?_append (Text.slice?_append hr hg) hb
      rw [← hsize, Text.slice?_whole, Option.some.injEq] at hall
      exact ⟨r, g, b, red, green, blue, hall, hred, hgreen, hblue, rfl⟩
  · rintro ⟨r, g, b, red, green, blue, rfl, hred, hgreen, hblue, rfl⟩
    have htwo : r.utf8ByteSize = 2 := hred.utf8ByteSize_eq
    have hfour : (r ++ g).utf8ByteSize =
        4 := by rw [String.utf8ByteSize_append, htwo, hgreen.utf8ByteSize_eq]
    have hsix : (r ++ g ++ b).utf8ByteSize =
        6 := by rw [String.utf8ByteSize_append, hfour, hblue.utf8ByteSize_eq]
    have hfirst : hexPart? (r ++ g ++ b) 0 = some red :=
      hred.hexPart?_eq (by rw [String.empty_append, String.append_assoc]) String.utf8ByteSize_empty
    have hsecond : hexPart? (r ++ g ++ b) 2 = some green := hgreen.hexPart?_eq rfl htwo
    have hthird : hexPart? (r ++ g ++ b) 4 = some blue :=
      hblue.hexPart?_eq String.append_empty.symm hfour
    rw [ofHex?, hsix, hfirst, hsecond, hthird]
    rfl

theorem ofText?_hash_append (hex : String) : ofText? ("#" ++ hex) = ofHex? hex := by
  have hrest : Text.afterLeading '#' ("#" ++ hex) = some hex :=
    Text.afterLeading_eq_some_iff.mpr (Text.toList_hash_append hex)
  rw [ofText?, hrest]

/-! ### Plus signs -/

theorem isHexDigit_iff : IsHexDigit c n ↔ IsDigitOrPlus c n ∧ c ≠ '+' := by
  constructor
  · intro h
    refine ⟨.inl h, ?_⟩
    rintro rfl
    exact not_isHexDigit_plus h
  · rintro ⟨h, hne⟩
    exact h.resolve_right fun hplus => hne hplus.1

theorem isPair_isHexDigit_iff :
    IsPair IsHexDigit t n ↔ IsPair IsDigitOrPlus t n ∧ '+' ∉ t.toList := by
  constructor
  · rintro ⟨c, d, v, w, rfl, hc, hd, hn⟩
    refine ⟨⟨c, d, v, w, rfl, .inl hc, hd, hn⟩, ?_⟩
    rw [String.toList_ofList, List.mem_cons, List.mem_singleton]
    exact not_or_intro (isHexDigit_iff.mp hc).2.symm (isHexDigit_iff.mp hd).2.symm
  · rintro ⟨⟨c, d, v, w, rfl, hc, hd, hn⟩, hplus⟩
    refine ⟨c, d, v, w, rfl, isHexDigit_iff.mpr ⟨hc, ?_⟩, hd, hn⟩
    rintro rfl
    exact hplus (by rw [String.toList_ofList]; exact List.mem_cons_self)

/-- Three pairs of digits are three pairs without a plus sign. -/
theorem isThreePairs_isHexDigit_iff :
    IsThreePairs IsHexDigit hex color ↔
      IsThreePairs IsDigitOrPlus hex color ∧ '+' ∉ hex.toList := by
  have hmem : ∀ r g b : String, '+' ∉ (r ++ g ++ b).toList ↔
      '+' ∉ r.toList ∧ '+' ∉ g.toList ∧ '+' ∉ b.toList := by
    intro r g b
    simp [String.toList_append]
  constructor
  · rintro ⟨r, g, b, red, green, blue, rfl, hred, hgreen, hblue, rfl⟩
    rw [isPair_isHexDigit_iff] at hred hgreen hblue
    exact ⟨⟨r, g, b, red, green, blue, rfl, hred.1, hgreen.1, hblue.1, rfl⟩,
      (hmem r g b).mpr ⟨hred.2, hgreen.2, hblue.2⟩⟩
  · rintro ⟨⟨r, g, b, red, green, blue, rfl, hred, hgreen, hblue, rfl⟩, hplus⟩
    obtain ⟨hr, hg, hb⟩ := (hmem r g b).mp hplus
    exact ⟨r, g, b, red, green, blue, rfl, isPair_isHexDigit_iff.mpr ⟨hred, hr⟩,
      isPair_isHexDigit_iff.mpr ⟨hgreen, hg⟩, isPair_isHexDigit_iff.mpr ⟨hblue, hb⟩, rfl⟩

/-- What follows a `#` is a colour exactly if it is three pairs of a digit or plus sign and a digit.
So the colours are the texts of six hexadecimal digits, except where a text is such pairs and a plus
sign is in it. -/
theorem readsHexColors_iff (hex : String) :
    (∀ color, ofText? ("#" ++ hex) = some color ↔ IsThreePairs IsDigitOrPlus hex color) ∧
      ((∀ color, ofText? ("#" ++ hex) = some color ↔ IsThreePairs IsHexDigit hex color) ↔
        ¬ ((∃ color, IsThreePairs IsDigitOrPlus hex color) ∧ '+' ∈ hex.toList)) := by
  have hread : ∀ color, ofText? ("#" ++ hex) = some color ↔
      IsThreePairs IsDigitOrPlus hex color := by
    intro color
    rw [ofText?_hash_append]
    exact ofHex?_eq_some_iff
  refine ⟨hread, ?_⟩
  simp only [hread, isThreePairs_isHexDigit_iff]
  constructor
  · rintro hsame ⟨⟨color, hcolor⟩, hplus⟩
    exact ((hsame color).mp hcolor).2 hplus
  · intro hnot color
    exact ⟨fun hcolor => ⟨hcolor, fun hplus => hnot ⟨⟨color, hcolor⟩, hplus⟩⟩, And.left⟩

/-- A plus sign in front of every digit makes a colour of a text that is not six digits. -/
theorem not_readsHexColors_of_plus_signs :
    ofText? "#+1+2+3" = some (rgb 1 2 3) ∧ ∀ color, ¬ IsThreePairs IsHexDigit "+1+2+3" color := by
  refine ⟨by decide +kernel, fun color h => ?_⟩
  exact (isThreePairs_isHexDigit_iff.mp h).2 (by decide +kernel)

end Catalog.Color
