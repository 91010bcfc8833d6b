import Catalog.Text.LowerCase

/-!
# Checking the case tables

What is asked of the case tables is that sets of code points have nothing in common. The tables are
long, so a set is given by the bits of a number, and two sets are compared as a whole.

* `bits`, `rangeBits` and `CaseRun.bitsFrom` are the sets of a list, of the ranges of a table, and
  of a run that is moved to another place; `not_testBit_of_land` says what it means that two numbers
  have no bit in common;
* `inRanges_eq_false` and `contains_eq_false_of_land` say so of the ranges of a table and of the
  runs;
* `CaseRun.isSound` is what holds of every run, and `CaseRun.landing_bounds` says between which
  characters it leads;
* `outside_of_testBit` says that no run starts where another one leads.
-/

namespace Catalog.Text

/-! ### Sets of numbers -/

variable {n : Nat} {ns : List Nat} {ranges : List (Nat × Nat)}

/-- The bits of some numbers put together. -/
def union (sets : List Nat) : Nat := sets.foldr (· ||| ·) 0

theorem testBit_union {s : Nat} {sets : List Nat} (hs : s ∈ sets) (h : s.testBit n = true) :
    (union sets).testBit n = true := by
  induction sets with
  | nil => cases hs
  | cons first sets ih =>
    show (first ||| union sets).testBit n = true
    rw [Nat.testBit_or, Bool.or_eq_true]
    rcases List.mem_cons.mp hs with rfl | hs
    · exact Or.inl h
    · exact Or.inr (ih hs)

/-- A list of numbers as bits. -/
def bits (ns : List Nat) : Nat := union (ns.map (1 <<< ·))

theorem testBit_bits (h : n ∈ ns) : (bits ns).testBit n = true := by
  refine testBit_union (List.mem_map_of_mem h) ?_
  rw [Nat.one_shiftLeft, Nat.testBit_two_pow_self]

/-- The numbers of some ranges as bits. -/
def rangeBits (ranges : List (Nat × Nat)) : Nat :=
  union (ranges.map fun r => (1 <<< (r.2 + 1 - r.1) - 1) <<< r.1)

theorem testBit_rangeBits {r : Nat × Nat} (hr : r ∈ ranges) (h : r.1 ≤ n ∧ n ≤ r.2) :
    (rangeBits ranges).testBit n = true := by
  refine testBit_union (List.mem_map_of_mem hr) ?_
  rw [Nat.testBit_shiftLeft, Nat.one_shiftLeft, Nat.testBit_two_pow_sub_one, Bool.and_eq_true,
    decide_eq_true_eq, decide_eq_true_eq]
  omega

/-- The multiples of a step up to the one with the given factor, as bits. -/
def stepBits (step : Nat) : Nat → Nat
  | 0 => 1
  | count + 1 => stepBits step count <<< step ||| 1

theorem testBit_stepBits (step : Nat) {i count : Nat} (h : i ≤ count) :
    (stepBits step count).testBit (step * i) = true := by
  induction count generalizing i with
  | zero =>
    rw [Nat.le_zero.mp h, Nat.mul_zero]
    exact Nat.testBit_one_zero
  | succ count ih =>
    rw [stepBits, Nat.testBit_or, Bool.or_eq_true]
    cases i with
    | zero =>
      right
      rw [Nat.mul_zero]
      exact Nat.testBit_one_zero
    | succ i =>
      left
      rw [Nat.testBit_shiftLeft, Nat.mul_succ, Nat.add_sub_cancel, ih (Nat.le_of_succ_le_succ h),
        Bool.and_true, decide_eq_true_eq]
      exact Nat.le_add_left _ _

/-- Two numbers without a common bit stand for sets without a common member. -/
theorem not_testBit_of_land {x y : Nat} (h : x &&& y = 0) (hx : x.testBit n = true) :
    y.testBit n ≠ true := by
  intro hy
  have hboth : (x &&& y).testBit n = true := by
    rw [Nat.testBit_and, hx, hy]
    rfl
  rw [h, Nat.zero_testBit] at hboth
  cases hboth

theorem inRanges_eq_false {c : Char} (h : bits ns &&& rangeBits ranges = 0) (hc : c.toNat ∈ ns) :
    inRanges ranges c = false := by
  rw [← Bool.not_eq_true]
  intro hin
  obtain ⟨r, hr, hbounds⟩ := List.any_eq_true.mp hin
  rw [Bool.and_eq_true, decide_eq_true_eq, decide_eq_true_eq] at hbounds
  exact not_testBit_of_land h (testBit_bits hc) (testBit_rangeBits hr hbounds)

/-! ### Runs -/

namespace CaseRun

variable {r : CaseRun}

theorem contains_iff :
    r.contains n = true ↔ r.first ≤ n ∧ n ≤ r.last ∧ (n - r.first) % r.step = 0 := by
  simp [contains, and_assoc]

/-- The first and the last code point of the run. -/
def range (r : CaseRun) : Nat × Nat := (r.first, r.last)

/-- The first and the last place where characters of the run land. -/
def landing (r : CaseRun) : Nat × Nat := ((r.first + r.shift).toNat, (r.last + r.shift).toNat)

theorem landing_bounds (h : r.contains n = true) :
    r.landing.1 ≤ (n + r.shift).toNat ∧ (n + r.shift).toNat ≤ r.landing.2 := by
  obtain ⟨hfirst, hlast, _⟩ := contains_iff.mp h
  unfold landing
  constructor <;> omega

/-- The run leads to characters above ASCII, or from the Kelvin sign to `k`. -/
def isSound (r : CaseRun) : Bool :=
  (Nat.ble 0x80 r.landing.1 || r == ⟨0x212A, 0x212A, 1, -8383⟩) &&
    (Nat.blt r.landing.2 0xD800 || (Nat.blt 0xDFFF r.landing.1 && Nat.blt r.landing.2 0x110000))

theorem isSound_of_mem (h : r ∈ lowerRuns) : r.isSound = true := by
  have hall : lowerRuns.all isSound = true := by decide +kernel
  exact List.all_eq_true.mp hall r h

theorem isSound_iff : r.isSound = true ↔
    (0x80 ≤ r.landing.1 ∨ r = ⟨0x212A, 0x212A, 1, -8383⟩) ∧
      (r.landing.2 < 0xD800 ∨ (0xDFFF < r.landing.1 ∧ r.landing.2 < 0x110000)) := by
  simp [isSound, Nat.blt_eq]

/-- The code points of the run, moved such that the first one is at `start`, as bits. -/
def bitsFrom (r : CaseRun) (start : Nat) : Nat :=
  stepBits r.step ((r.last - r.first) / r.step) <<< start

theorem testBit_bitsFrom (h : r.contains n = true) (start : Nat) :
    (r.bitsFrom start).testBit (start + (n - r.first)) = true := by
  obtain ⟨_, hlast, hstep⟩ := contains_iff.mp h
  have hle : (n - r.first) / r.step ≤ (r.last - r.first) / r.step := Nat.div_le_div_right (by omega)
  have hbit := testBit_stepBits r.step hle
  rw [Nat.mul_div_cancel' (Nat.dvd_of_mod_eq_zero hstep)] at hbit
  rw [bitsFrom, Nat.testBit_shiftLeft, Nat.add_sub_cancel_left, hbit, Bool.and_true,
    decide_eq_true_eq]
  exact Nat.le_add_right _ _

/-- The code points of the run as bits. -/
def members (r : CaseRun) : Nat := r.bitsFrom r.first

theorem testBit_members (h : r.contains n = true) : r.members.testBit n = true := by
  have hbit := testBit_bitsFrom h r.first
  rwa [Nat.add_sub_cancel' (contains_iff.mp h).1] at hbit

/-- Where the code points of the run land, as bits. -/
def landings (r : CaseRun) : Nat := r.bitsFrom r.landing.1

theorem testBit_landings (hr : r.isSound = true) (h : r.contains n = true) :
    r.landings.testBit (n + r.shift).toNat = true := by
  have hstart : 0 ≤ r.first + r.shift := by
    rcases (isSound_iff.mp hr).1 with hge | rfl
    · unfold landing at hge
      omega
    · decide
  have hplace : (n + r.shift).toNat = r.landing.1 + (n - r.first) := by
    have hfirst := (contains_iff.mp h).1
    unfold landing
    omega
  rw [hplace]
  exact testBit_bitsFrom h r.landing.1

end CaseRun

theorem contains_eq_false_of_land (h : bits ns &&& rangeBits (lowerRuns.map CaseRun.range) = 0)
    (hn : n ∈ ns) : ∀ r ∈ lowerRuns, r.contains n = false := by
  intro r hr
  rw [← Bool.not_eq_true]
  intro hcontains
  obtain ⟨hfirst, hlast, _⟩ := CaseRun.contains_iff.mp hcontains
  exact not_testBit_of_land h (testBit_bits hn)
    (testBit_rangeBits (List.mem_map_of_mem hr) ⟨hfirst, hlast⟩)

/-- The code points that arise in lower case without the table: the dot above an `i`, and `ς` and
`σ`. -/
def specials : List Nat := [0x307, 0x3C2, 0x3C3]

/-- Where characters land, no run of the table starts, and neither does the `İ`, which the table
leaves out. -/
theorem landings_apart :
    union (bits specials :: lowerRuns.map CaseRun.landings) &&&
      union (bits [0x130] :: lowerRuns.map CaseRun.members) = 0 := by
  decide +kernel

theorem outside_of_testBit {s : Nat} (hs : s ∈ bits specials :: lowerRuns.map CaseRun.landings)
    (h : s.testBit n = true) : n ≠ 0x130 ∧ ∀ r ∈ lowerRuns, r.contains n = false := by
  have hbit := testBit_union hs h
  constructor
  · rintro rfl
    exact not_testBit_of_land landings_apart hbit
      (testBit_union List.mem_cons_self (testBit_bits List.mem_cons_self))
  · intro r hr
    rw [← Bool.not_eq_true]
    intro hcontains
    have hmem : r.members ∈ bits [0x130] :: lowerRuns.map CaseRun.members :=
      List.mem_cons_of_mem _ (List.mem_map_of_mem hr)
    exact not_testBit_of_land landings_apart hbit
      (testBit_union hmem (CaseRun.testBit_members hcontains))

end Catalog.Text
