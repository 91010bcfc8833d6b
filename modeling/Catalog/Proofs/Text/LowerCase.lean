import Catalog.Proofs.Text.CaseTable
import Catalog.Text.Pieces

/-!
# Lower case in pieces and twice

A blank separates what surrounds it, so the pieces on its sides are lower-cased on their own; so do
a few other characters. Every character of a text in lower case is its own lower-case form, which is
a property of the table.

* `IsSeparator` holds of such characters; `lowerFrom_append_separator` lower-cases a text with one
  in it, and `lower_append_space` one with a space;
* `IsLower` holds of the characters that lower-casing leaves alone, and `isLower_of_mem_lower` says
  that it gives no others;
* `lower_of_isLower` says that a text of such characters is its own lower-case form.
-/

namespace Catalog.Text

/-! ### Pieces -/

/-- The blanks, listed. -/
def blanks : List Char :=
  [9, 10, 11, 12, 13, 0x20, 0x85, 0xA0, 0x1680, 0x2000, 0x2001, 0x2002, 0x2003, 0x2004, 0x2005,
    0x2006, 0x2007, 0x2008, 0x2009, 0x200A, 0x2028, 0x2029, 0x202F, 0x205F, 0x3000].map Char.ofNat

theorem mem_blanks_of_isBlank {b : Char} (h : isBlank b = true) : b ∈ blanks := by
  refine List.mem_map.mpr ⟨b.toNat, ?_, Char.ofNat_toNat b⟩
  simp only [isBlank, Bool.or_eq_true, Bool.and_eq_true, decide_eq_true_eq, beq_iff_eq] at h
  simp only [List.mem_cons, List.not_mem_nil, or_false]
  omega

/-- A character outside the table is its own lower-case form, unless it is a capital of ASCII. -/
theorem lowerChar_of_outside {c : Char} (hsame : 0x80 ≤ c.toNat ∨ c.toLower = c)
    (hdotted : c.toNat ≠ 0x130) (hnone : ∀ r ∈ lowerRuns, r.contains c.toNat = false) :
    lowerChar c = [c] := by
  have hfind : (lowerRuns.find? fun r => r.contains c.toNat) = none := by
    rw [List.find?_eq_none]
    intro r hr
    rw [hnone r hr]
    exact Bool.false_ne_true
  have hne : (c == 'İ') = false := by
    rw [beq_eq_false_iff_ne]
    rintro rfl
    exact hdotted rfl
  unfold lowerChar
  split
  · next hlt => rw [hsame.resolve_left (Nat.not_le.mpr hlt)]
  · rw [hne, hfind]
    rfl

/-- A character that has no case, separates what surrounds it, and stays as it is. -/
structure IsSeparator (b : Char) : Prop where
  ignored : isCaseIgnorable b = false
  cased : isCased b = false
  sigma : b ≠ 'Σ'
  lower : lowerChar b = [b]

/-- The blanks and four other characters that are separators. -/
def separators : List Char := blanks ++ ['"', '\\', '-', '#']

theorem isSeparator_of_mem_separators {b : Char} (hb : b ∈ separators) : IsSeparator b := by
  have hcode : b.toNat ∈ separators.map Char.toNat := List.mem_map_of_mem hb
  have hignored : bits (separators.map Char.toNat) &&& rangeBits caseIgnorableRanges =
      0 := by decide +kernel
  have hcased : bits (separators.map Char.toNat) &&& rangeBits casedRanges = 0 := by decide +kernel
  have houtside : bits (separators.map Char.toNat) &&& rangeBits (lowerRuns.map CaseRun.range) =
      0 := by decide +kernel
  have hall : separators.all (fun b => b.toLower == b && b.toNat != 0x130 && b != 'Σ') =
      true := by decide +kernel
  have hb' := List.all_eq_true.mp hall b hb
  simp only [Bool.and_eq_true, bne_iff_ne, beq_iff_eq] at hb'
  obtain ⟨⟨hsame, hdotted⟩, hsigma⟩ := hb'
  have hlower := lowerChar_of_outside (Or.inr hsame)
      hdotted (contains_eq_false_of_land houtside hcode)
  exact ⟨inRanges_eq_false hignored hcode, inRanges_eq_false hcased hcode, hsigma, hlower⟩

theorem isSeparator_of_isBlank {b : Char} (h : isBlank b = true) : IsSeparator b :=
  isSeparator_of_mem_separators (List.mem_append_left _ (mem_blanks_of_isBlank h))

theorem isSeparator_of_mem {b : Char} (h : b ∈ ['"', '\\', '-', '#']) : IsSeparator b :=
  isSeparator_of_mem_separators (List.mem_append_right _ h)

theorem casedNext_append_separator {b : Char} (hb : IsSeparator b) (cs ds : List Char) :
    casedNext (cs ++ b :: ds) = casedNext cs := by
  unfold casedNext
  induction cs with
  | nil =>
    rw [List.nil_append, List.dropWhile_cons, hb.ignored]
    show isCased b = false
    exact hb.cased
  | cons c cs ih =>
    rw [List.cons_append, List.dropWhile_cons, List.dropWhile_cons]
    by_cases hc : isCaseIgnorable c = true
    · rw [if_pos hc, if_pos hc]
      exact ih
    · rw [if_neg hc, if_neg hc]

theorem lowerFrom_cons_separator {b : Char} (hb : IsSeparator b) (casedBefore : Bool)
    (cs : List Char) : lowerFrom casedBefore (b :: cs) = b :: lowerChars cs := by
  rw [lowerFrom, hb.ignored, hb.cased, hb.lower, beq_eq_false_iff_ne.mpr hb.sigma]
  rfl

theorem lowerFrom_append_separator {b : Char} (hb : IsSeparator b) (casedBefore : Bool)
    (cs ds : List Char) :
    lowerFrom casedBefore (cs ++ b :: ds) = lowerFrom casedBefore cs ++ b :: lowerChars ds := by
  induction cs generalizing casedBefore with
  | nil => exact lowerFrom_cons_separator hb casedBefore ds
  | cons c cs ih =>
    rw [List.cons_append, lowerFrom, lowerFrom, ih, casedNext_append_separator hb,
      List.append_assoc]

theorem lower_append_space (s t : String) : lower (s ++ " " ++ t) = lower s ++ " " ++ lower t := by
  have hspace : " ".toList = [' '] := rfl
  have hchars : lowerChars (s ++ " " ++ t).toList =
      lowerChars s.toList ++ ' ' :: lowerChars t.toList := by
    rw [String.toList_append, String.toList_append, hspace, List.append_assoc,
      List.singleton_append]
    exact lowerFrom_append_separator (isSeparator_of_isBlank (by decide)) false s.toList t.toList
  apply String.toList_inj.mp
  rw [lower, hchars, String.toList_append, String.toList_append, lower, lower, hspace]
  simp

theorem lower_joinWith_space (texts : List String) :
    lower (joinWith " " texts) = joinWith " " (texts.map lower) := by
  induction texts with
  | nil => rfl
  | cons s texts ih =>
    cases texts with
    | nil => rfl
    | cons t texts =>
      show lower (s ++ " " ++ joinWith " " (t :: texts)) = _
      rw [lower_append_space, ih]
      rfl

/-! ### Characters in lower case -/

/-- The character is its own lower-case form, wherever it stands. -/
def IsLower (c : Char) : Prop := c ≠ 'Σ' ∧ lowerChar c = [c]

theorem lowerFrom_of_isLower {cs : List Char} (h : ∀ c ∈ cs, IsLower c) (casedBefore : Bool) :
    lowerFrom casedBefore cs = cs := by
  induction cs generalizing casedBefore with
  | nil => rfl
  | cons c cs ih =>
    obtain ⟨hne, hlower⟩ := h c List.mem_cons_self
    have hsigma : (c == 'Σ') = false := beq_eq_false_iff_ne.mpr hne
    rw [lowerFrom, hsigma, ih fun d hd => h d (List.mem_cons_of_mem _ hd)]
    simp [hlower]

/-- A text of characters in lower case is its own lower-case form. -/
theorem lower_of_isLower {s : String} (h : ∀ c ∈ s.toList, IsLower c) : lower s = s := by
  rw [lower, lowerChars, lowerFrom_of_isLower h, String.ofList_toList]

/-! ### Lower case twice -/

/-- The small letters of ASCII. -/
def smallLetters : List Char := (List.range 26).map fun n => Char.ofNat (97 + n)

/-- In ASCII, a character stays or leads to a small letter. -/
theorem toLower_eq_or_mem (c : Char) : c.toLower = c ∨ c.toLower ∈ smallLetters := by
  by_cases h : 'A'.val ≤ c.val ∧ c.val ≤ 'Z'.val
  · right
    have hall : ∀ n < 26, (Char.ofNat (65 + n)).toLower ∈ smallLetters := by decide
    have hge : 65 ≤ c.toNat := h.1
    have hle : c.toNat ≤ 90 := h.2
    have hc := hall (c.toNat - 65) (by omega)
    rwa [Nat.add_sub_cancel' hge, Char.ofNat_toNat] at hc
  · exact Or.inl (dif_neg h)

theorem isLower_of_toNat_lt {c : Char} (h : c.toNat < 0x80) : IsLower c.toLower := by
  rcases toLower_eq_or_mem c with hsame | hletter
  · rw [hsame]
    refine ⟨?_, by rw [lowerChar, if_pos h, hsame]⟩
    rintro rfl
    exact absurd h (by decide)
  · have hall : smallLetters.all (fun d => d != 'Σ' && lowerChar d == [d]) = true := by decide
    simpa [IsLower] using List.all_eq_true.mp hall _ hletter

/-- Before the capitals of ASCII there are digits and marks, which have no case. -/
theorem isLower_of_lt_capitals {c : Char} (h : c.toNat < 65) : IsLower c := by
  have hsame : c.toLower = c := dif_neg fun hcapital => by
    have hcapital : 65 ≤ c.toNat := hcapital.1
    omega
  rw [← hsame]
  exact isLower_of_toNat_lt (by omega)

theorem toNat_ofNat {n : Nat} (h : n.isValidChar) : (Char.ofNat n).toNat = n := by
  rw [Char.ofNat, dif_pos h]
  rfl

/-- A character outside the table and above ASCII is its own lower-case form. -/
theorem isLower_of_outside {c : Char} (hge : 0x80 ≤ c.toNat) (hdotted : c.toNat ≠ 0x130)
    (hnone : ∀ r ∈ lowerRuns, r.contains c.toNat = false) : IsLower c := by
  refine ⟨?_, lowerChar_of_outside (Or.inl hge) hdotted hnone⟩
  rintro rfl
  have hsigma : lowerChar 'Σ' = ['σ'] := rfl
  rw [lowerChar_of_outside (Or.inl hge) hdotted hnone] at hsigma
  exact absurd hsigma (by decide)

/-- The runs of the table lead to characters. -/
theorem toNat_landing {r : CaseRun} {n : Nat} (hr : r ∈ lowerRuns) (hn : r.contains n = true) :
    (Char.ofNat (n + r.shift).toNat).toNat = (n + r.shift).toNat := by
  obtain ⟨hfirst, hlast⟩ := CaseRun.landing_bounds hn
  refine toNat_ofNat ?_
  rcases (CaseRun.isSound_iff.mp (CaseRun.isSound_of_mem hr)).2 with h | ⟨h1, h2⟩
  · exact Or.inl (by omega)
  · exact Or.inr ⟨by omega, by omega⟩

/-- The runs of the table lead to characters that it leaves alone. -/
theorem isLower_landing {r : CaseRun} {n : Nat} (hr : r ∈ lowerRuns) (hn : r.contains n = true) :
    IsLower (Char.ofNat (n + r.shift).toNat) := by
  have hchar := toNat_landing hr hn
  have hsound := CaseRun.isSound_of_mem hr
  obtain ⟨hfirst, hlast⟩ := CaseRun.landing_bounds hn
  rcases (CaseRun.isSound_iff.mp hsound).1 with hge | rfl
  · obtain ⟨hdotted, houtside⟩ :=
      outside_of_testBit (List.mem_cons_of_mem _ (List.mem_map_of_mem hr))
        (CaseRun.testBit_landings hsound hn)
    rw [← hchar] at hdotted houtside
    exact isLower_of_outside (by omega) hdotted houtside
  · -- the Kelvin sign is the one character above ASCII that lands in it
    have hk : (n + (-8383 : Int)).toNat = 'k'.toNat := Nat.le_antisymm hlast hfirst
    rw [hk, Char.ofNat_toNat]
    exact isLower_of_toNat_lt (c := 'k') (by decide)

/-- Three characters arise without the table, which leaves them alone. -/
theorem isLower_of_special {c : Char} (h : c ∈ [Char.ofNat 0x307, 'ς', 'σ']) : IsLower c := by
  have hcode : c.toNat ∈ specials := by
    simp only [List.mem_cons, List.not_mem_nil, or_false] at h
    rcases h with rfl | rfl | rfl <;> decide
  have hge : ∀ n ∈ specials, 0x80 ≤ n := by decide
  obtain ⟨hdotted, houtside⟩ := outside_of_testBit List.mem_cons_self (testBit_bits hcode)
  exact isLower_of_outside (hge _ hcode) hdotted houtside

theorem isLower_of_mem_lowerChar {c d : Char} (hc : c ≠ 'Σ') (h : d ∈ lowerChar c) : IsLower d := by
  unfold lowerChar at h
  split at h
  · next hlt =>
    rw [List.mem_singleton.mp h]
    exact isLower_of_toNat_lt hlt
  · next hge =>
    split at h
    · rcases List.mem_cons.mp h with rfl | h
      · exact isLower_of_toNat_lt (c := 'i') (by decide)
      · rw [List.mem_singleton.mp h]
        exact isLower_of_special (by decide)
    · next hdotted =>
      split at h
      · next run hfind =>
        have hrun : run.contains c.toNat = true := by simpa using List.find?_some hfind
        rw [List.mem_singleton.mp h]
        exact isLower_landing (List.mem_of_find?_eq_some hfind) hrun
      · next hfind =>
        have hsame : lowerChar c = [c] := by
          rw [lowerChar, if_neg hge, if_neg hdotted, hfind]
        rw [List.mem_singleton.mp h]
        exact ⟨hc, hsame⟩

/-- Lower-casing gives characters in lower case only. -/
theorem isLower_of_mem_lowerFrom {casedBefore : Bool} {cs : List Char} {d : Char}
    (h : d ∈ lowerFrom casedBefore cs) : IsLower d := by
  induction cs generalizing casedBefore with
  | nil => cases h
  | cons c cs ih =>
    rw [lowerFrom, List.mem_append] at h
    rcases h with h | h
    · split at h
      · rw [List.mem_singleton.mp h]
        split
        · exact isLower_of_special (by decide)
        · exact isLower_of_special (by decide)
      · next hne => exact isLower_of_mem_lowerChar (fun heq => hne (by rw [heq]; rfl)) h
    · exact ih h

theorem isLower_of_mem_lower {s : String} {d : Char} (h : d ∈ (lower s).toList) : IsLower d := by
  rw [lower, String.toList_ofList] at h
  exact isLower_of_mem_lowerFrom h

end Catalog.Text
