import Catalog.Proofs.Text.Automaton
import Catalog.Proofs.Text.LowerCase
import Catalog.Proofs.Text.Pieces
import Catalog.Proofs.Text.SingleToken

/-!
# Marks in lower case

Marks are the characters with a meaning in the text of a query: blanks, quotes, backslashes, `-` and
`#`. Lower-casing leaves every mark where it is and makes no new one, which is a property of the
table. So a text and its lower-case form take the automaton of the tokens to the same places, and
start with the same mark if they start with one.

* `lowerAt` is what becomes of one character, and `eq_of_mem_lowerAt` says that no mark arises;
* `Mode.next` is where one character leads, and `foldl_next_lowerFrom` says that lower-casing does
  not matter;
* `isClosed_lower_iff` and `startsWith_lower` are what follows for texts.
-/

namespace Catalog.Text

/-- The characters with a meaning in the text of a query. A single quote is one, and no
separator. -/
def marks : List Char := '\x27' :: separators

variable {c d : Char} {cs ds : List Char} {m : Mode}

theorem mem_marks_of_isBlank (h : isBlank c = true) : c ∈ marks :=
  List.mem_cons_of_mem _ (List.mem_append_left _ (mem_blanks_of_isBlank h))

theorem mem_marks_of_mem (h : c ∈ ['"', '\\', '-', '#']) : c ∈ marks :=
  List.mem_cons_of_mem _ (List.mem_append_right _ h)

theorem isLower_of_mem_marks (h : c ∈ marks) : IsLower c := by
  rcases List.mem_cons.mp h with rfl | h
  · exact ⟨by decide, rfl⟩
  · have hsep := isSeparator_of_mem_separators h
    exact ⟨hsep.sigma, hsep.lower⟩

/-! ### The table -/

/-- No character of the table lands on a mark. -/
theorem not_mem_marks_of_landing {r : CaseRun} {n : Nat} (hr : r ∈ lowerRuns)
    (hn : r.contains n = true) : Char.ofNat (n + r.shift).toNat ∉ marks := by
  intro hmark
  have hapart : bits (marks.map Char.toNat) &&& rangeBits (lowerRuns.map CaseRun.landing) =
      0 := by decide +kernel
  have hcode := List.mem_map_of_mem (f := Char.toNat) hmark
  rw [toNat_landing hr hn] at hcode
  exact not_testBit_of_land hapart (testBit_bits hcode)
    (testBit_rangeBits (List.mem_map_of_mem hr) (CaseRun.landing_bounds hn))

theorem not_mem_of_land (h : bits (cs.map Char.toNat) &&& bits (ds.map Char.toNat) = 0)
    (hc : c ∈ cs) : c ∉ ds :=
  fun hd => not_testBit_of_land h (testBit_bits (List.mem_map_of_mem hc))
    (testBit_bits (List.mem_map_of_mem hd))

theorem eq_toLower_of_mem_marks (h : c.toLower ∈ marks) : c = c.toLower := by
  have hapart : bits (smallLetters.map Char.toNat) &&& bits (marks.map Char.toNat) = 0 := by decide
  exact ((toLower_eq_or_mem c).resolve_right fun hletter => not_mem_of_land hapart hletter h).symm

/-- The characters that arise without the table are no marks. -/
theorem not_mem_marks_of_special (h : c ∈ ['i', Char.ofNat 0x307, 'ς', 'σ']) : c ∉ marks := by
  have hapart : bits (['i', Char.ofNat 0x307, 'ς', 'σ'].map Char.toNat) &&&
      bits (marks.map Char.toNat) = 0 := by decide
  exact not_mem_of_land hapart h

/-- No other character has a mark in its lower-case form. -/
theorem eq_of_mem_lowerChar (hd : d ∈ marks) (h : d ∈ lowerChar c) : c = d := by
  unfold lowerChar at h
  split at h
  · rw [List.mem_singleton] at h
    subst h
    exact eq_toLower_of_mem_marks hd
  · split at h
    · -- `İ` gives a letter and a dot above it
      exact absurd hd (not_mem_marks_of_special (List.mem_append_left ['ς', 'σ'] h))
    · split at h
      · next run hfind =>
        have hrun : run.contains c.toNat = true := by simpa using List.find?_some hfind
        rw [List.mem_singleton] at h
        subst h
        exact absurd hd (not_mem_marks_of_landing (List.mem_of_find?_eq_some hfind) hrun)
      · exact (List.mem_singleton.mp h).symm

theorem lowerChar_ne_nil (c : Char) : lowerChar c ≠ [] := by
  unfold lowerChar
  split
  · exact List.cons_ne_nil _ _
  · split
    · exact List.cons_ne_nil _ _
    · split <;> exact List.cons_ne_nil _ _

/-- What becomes of a character in lower case, given what surrounds it. -/
def lowerAt (casedBefore : Bool) (c : Char) (cs : List Char) : List Char :=
  if c == 'Σ' then [if casedBefore && !casedNext cs then 'ς' else 'σ'] else lowerChar c

theorem lowerFrom_cons (casedBefore : Bool) (c : Char) (cs : List Char) :
    lowerFrom casedBefore (c :: cs) =
      lowerAt casedBefore c cs ++ lowerFrom (if isCaseIgnorable c then casedBefore else isCased c)
        cs := rfl

theorem lowerAt_ne_nil (casedBefore : Bool) (c : Char) (cs : List Char) :
    lowerAt casedBefore c cs ≠ [] := by
  unfold lowerAt
  split
  · exact List.cons_ne_nil _ _
  · exact lowerChar_ne_nil c

theorem lowerAt_of_mem_marks (h : c ∈ marks) (casedBefore : Bool) (cs : List Char) :
    lowerAt casedBefore c cs = [c] := by
  obtain ⟨hne, hlower⟩ := isLower_of_mem_marks h
  rw [lowerAt, beq_eq_false_iff_ne.mpr hne]
  exact hlower

/-- No mark arises, wherever the character stands. -/
theorem eq_of_mem_lowerAt {casedBefore : Bool} (hd : d ∈ marks) (h : d ∈ lowerAt casedBefore c cs) :
    c = d := by
  unfold lowerAt at h
  split at h
  · rw [List.mem_singleton] at h
    subst h
    refine absurd hd (not_mem_marks_of_special ?_)
    split
    · exact List.mem_of_elem_eq_true rfl
    · exact List.mem_of_elem_eq_true rfl
  · exact eq_of_mem_lowerChar hd h

/-! ### The automaton -/

namespace Mode

/-- Where the automaton stands after a character. -/
def next (m : Mode) (c : Char) : Mode := (Scan.step ⟨m, [], []⟩ c).mode

/-- Where it stands after a character that is no mark. -/
def plain : Mode → Mode
  | .between | .word | .escape => .word
  | .single => .single
  | .double | .doubleEscape => .double

theorem plain_plain (m : Mode) : m.plain.plain = m.plain := by
  cases m <;> rfl

theorem next_of_not_mem (h : c ∉ marks) (m : Mode) : m.next c = m.plain := by
  have hblank : isBlank c = false := by
    rw [← Bool.not_eq_true]
    intro hblank
    exact h (mem_marks_of_isBlank hblank)
  have hne : ∀ d : Char, d ∈ marks → c ≠ d := by
    intro d hd heq
    rw [heq] at h
    exact h hd
  have hsingle : c ≠ '\x27' := hne _ List.mem_cons_self
  have hdouble : c ≠ '"' := hne _ (mem_marks_of_mem (by decide))
  have hslash : c ≠ '\\' := hne _ (mem_marks_of_mem (by decide))
  cases m <;> simp [next, plain, Scan.step, Scan.enter, Scan.push, hblank, hsingle, hdouble, hslash]

/-- Any number of them leads to the same place as one. -/
theorem foldl_next_of_not_mem (hne : ds ≠ []) (h : ∀ d ∈ ds, d ∉ marks) (m : Mode) :
    ds.foldl next m = m.plain := by
  induction ds generalizing m with
  | nil => exact absurd rfl hne
  | cons d ds ih =>
    rw [List.foldl_cons, next_of_not_mem (h d List.mem_cons_self)]
    by_cases hrest : ds = []
    · rw [hrest]
      rfl
    · rw [ih hrest (fun e he => h e (List.mem_cons_of_mem d he)), plain_plain]

/-- Lower-casing does not change where a text leads. -/
theorem foldl_next_lowerFrom (casedBefore : Bool) (cs : List Char) (m : Mode) :
    (lowerFrom casedBefore cs).foldl next m = cs.foldl next m := by
  induction cs generalizing casedBefore m with
  | nil => rfl
  | cons c cs ih =>
    have hhere : (lowerAt casedBefore c cs).foldl next m = m.next c := by
      by_cases hmark : c ∈ marks
      · rw [lowerAt_of_mem_marks hmark]
        rfl
      · have hplain : ∀ d ∈ lowerAt casedBefore c cs, d ∉ marks := by
          intro d hd hmark'
          apply hmark
          rw [eq_of_mem_lowerAt hmark' hd]
          exact hmark'
        rw [foldl_next_of_not_mem (lowerAt_ne_nil casedBefore c cs) hplain, next_of_not_mem hmark]
    rw [lowerFrom_cons, List.foldl_append, hhere, ih, List.foldl_cons]

end Mode

theorem Scan.mode_enter (s t : Scan) (c : Char) : (s.enter c).mode = (t.enter c).mode := by
  unfold enter
  split
  · rfl
  · split
    · rfl
    · split <;> rfl

theorem Scan.mode_step (s : Scan) (c : Char) : (s.step c).mode = s.mode.next c := by
  obtain ⟨m, tokens, word⟩ := s
  cases m with
  | between | word =>
    simp only [Mode.next, step]
    split
    · rfl
    · exact mode_enter _ _ c
  | single | doubleEscape =>
    simp only [Mode.next, step]
    split <;> rfl
  | double =>
    simp only [Mode.next, step]
    split
    · rfl
    · split <;> rfl
  | escape => rfl

theorem Scan.mode_run (s : Scan) (cs : List Char) :
    (s.run cs).mode = cs.foldl Mode.next s.mode := by
  induction cs generalizing s with
  | nil => rfl
  | cons c cs ih => rw [run_cons, ih, mode_step, List.foldl_cons]

/-- Whether a text is closed can be seen from where it leads. -/
theorem isClosed_iff_mode (s : String) :
    IsClosed s ↔ s.toList.foldl Mode.next .between ∈ [Mode.between, Mode.word] := by
  have hmode := Scan.mode_run {} s.toList
  rw [IsClosed, tokens?_eq_run, ← hmode]
  unfold Scan.outcome?
  cases (Scan.run {} s.toList).mode <;> simp

/-! ### Texts -/

theorem isClosed_lower_iff (s : String) : IsClosed (lower s) ↔ IsClosed s := by
  rw [isClosed_iff_mode, isClosed_iff_mode, lower, String.toList_ofList, lowerChars,
    Mode.foldl_next_lowerFrom]

theorem startsWith_lower (hc : c ∈ marks) (s : String) :
    startsWith c (lower s) = startsWith c s := by
  rw [startsWith, startsWith, lower, String.toList_ofList]
  cases s.toList with
  | nil => rfl
  | cons d ds =>
    obtain ⟨e, es, he⟩ := List.exists_cons_of_ne_nil (lowerAt_ne_nil false d ds)
    rw [lowerChars, lowerFrom_cons, he]
    show (some e == some c) = (some d == some c)
    rw [Bool.eq_iff_iff, beq_iff_eq, beq_iff_eq, Option.some_inj, Option.some_inj]
    constructor
    · rintro rfl
      apply eq_of_mem_lowerAt hc
      rw [he]
      exact List.mem_cons_self
    · rintro rfl
      rw [lowerAt_of_mem_marks hc] at he
      exact (List.cons.inj he).1.symm

end Catalog.Text
