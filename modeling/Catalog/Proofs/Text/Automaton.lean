import Catalog.Proofs.Text.Tokens

/-!
# Tokens in one pass

The tokens of a text are also those of an automaton that takes one character after the other and
never looks ahead. It stands between words, in a word, in a quotation, or after a backslash, and has
tokens to show for a text that ends between words or in a word.

* `Mode` is where the automaton stands and `Scan` all that it keeps; `Scan.step` is one character
  and `Scan.run` a text;
* `run_single`, `run_double`, `run_part` and `run_token` say how the automaton passes through what
  the reading by parts takes at once, and `run_tokens` that it comes to the same tokens;
* `splitTokens_eq_scanTokens` puts this together for texts that end elsewhere too.
-/

namespace Catalog.Text

/-- Where the automaton stands. -/
inductive Mode where
  /-- Between two words. -/
  | between
  /-- In a word, outside quotes. -/
  | word
  /-- Between single quotes. -/
  | single
  /-- Between double quotes. -/
  | double
  /-- After a backslash in a word. -/
  | escape
  /-- After a backslash between double quotes. -/
  | doubleEscape
  deriving DecidableEq, Repr

/-- What the automaton keeps: the tokens that are complete, and the one that it is at. -/
structure Scan where
  mode : Mode := .between
  tokens : List (List Char) := []
  word : List Char := []
  deriving DecidableEq, Repr

namespace Scan

/-- The character belongs to the token. -/
def push (s : Scan) (c : Char) : Scan := { s with word := s.word ++ [c] }

/-- A character of a word that is not blank. -/
def enter (s : Scan) (c : Char) : Scan :=
  if c == '\x27' then { s with mode := .single }
  else if c == '"' then { s with mode := .double }
  else if c == '\\' then { s with mode := .escape }
  else { s.push c with mode := .word }

/-- One character. -/
def step (s : Scan) (c : Char) : Scan :=
  match s.mode with
  | .between => if isBlank c then s else s.enter c
  | .word => if isBlank c then { tokens := s.tokens ++ [s.word] } else s.enter c
  | .single => if c == '\x27' then { s with mode := .word } else s.push c
  | .double =>
    if c == '"' then { s with mode := .word }
    else if c == '\\' then { s with mode := .doubleEscape }
    else s.push c
  | .escape => { s.push c with mode := .word }
  | .doubleEscape =>
    if c == '"' || c == '\\' then { s.push c with mode := .double }
    else { (s.push '\\').push c with mode := .double }

/-- A text, character by character. -/
def run (s : Scan) (cs : List Char) : Scan := cs.foldl step s

/-- The tokens, if the automaton stands between words or in a word. -/
def outcome? (s : Scan) : Option (List (List Char)) :=
  match s.mode with
  | .between => some s.tokens
  | .word => some (s.tokens ++ [s.word])
  | _ => none

variable {cs w v r : List Char} {b c : Char} {tokens : List (List Char)} {word : List Char}
  {final : Scan}

theorem run_cons (s : Scan) (c : Char) (cs : List Char) : s.run (c :: cs) = (s.step c).run cs := rfl

theorem step_blank (hb : isBlank b = true) (tokens : List (List Char)) (word : List Char) :
    step ⟨.between, tokens, word⟩ b = ⟨.between, tokens, word⟩ := if_pos hb

theorem step_word_blank (hb : isBlank b = true) (tokens : List (List Char)) (word : List Char) :
    step ⟨.word, tokens, word⟩ b = ⟨.between, tokens ++ [word], []⟩ := if_pos hb

/-- A character that is not blank begins a word as it continues one. -/
theorem step_of_not_blank (hc : isBlank c = false) (tokens : List (List Char)) (word : List Char) :
    step ⟨.between, tokens, word⟩ c = step ⟨.word, tokens, word⟩ c := by
  simp only [step, hc, Bool.false_eq_true, if_false]
  rfl

/-! ### What is read at once -/

/-- Where the automaton ends, given what is read at once in front of it: behind that, in the word
that it has been taken into; or with something left open, if nothing is read. -/
def EndsAfter (final : Scan) (tokens : List (List Char)) (word : List Char) :
    Option (List Char × List Char) → Prop
  | some (w, r) => final = run ⟨.word, tokens, word ++ w⟩ r
  | none => final.outcome? = none

/-- What stands in the word already may be counted to what is read. -/
theorem EndsAfter.map {read : Option (List Char × List Char)}
    (h : EndsAfter final tokens (word ++ v) read) :
    EndsAfter final tokens word (read.map fun p => (v ++ p.1, p.2)) := by
  cases read with
  | none => exact h
  | some p =>
    show final = run ⟨.word, tokens, word ++ (v ++ p.1)⟩ p.2
    rw [← List.append_assoc]
    exact h

theorem endsAfter_closed (tokens : List (List Char)) (word r : List Char) :
    EndsAfter (run ⟨.word, tokens, word⟩ r) tokens word (some ([], r)) := by
  show run ⟨.word, tokens, word⟩ r = run ⟨.word, tokens, word ++ []⟩ r
  rw [List.append_nil]

theorem run_single (tokens : List (List Char)) (word cs : List Char) :
    EndsAfter (run ⟨.single, tokens, word⟩ cs) tokens word (singleQuoted? cs) := by
  induction cs generalizing word with
  | nil => rfl
  | cons c cs ih =>
    rw [singleQuoted?, run_cons]
    by_cases hc : (c == '\x27') = true
    · have hstep : step ⟨.single, tokens, word⟩ c = ⟨.word, tokens, word⟩ := if_pos hc
      rw [if_pos hc, hstep]
      exact endsAfter_closed tokens word cs
    · have hstep : step ⟨.single, tokens, word⟩ c = ⟨.single, tokens, word ++ [c]⟩ := if_neg hc
      rw [if_neg hc, hstep]
      exact (ih (word ++ [c])).map

/-- A backslash between double quotes that escapes nothing is part of the word, like the character
after it. -/
theorem run_double_backslash (hquote : ∀ rest, cs ≠ '"' :: rest)
    (hslash : ∀ rest, cs ≠ '\\' :: rest)
    (h : EndsAfter (run ⟨.double, tokens, word ++ ['\\']⟩ cs) tokens (word ++ ['\\'])
      (doubleQuoted? cs)) :
    EndsAfter (run ⟨.double, tokens, word⟩ ('\\' :: cs)) tokens (word ++ ['\\'])
      (doubleQuoted? cs) := by
  cases cs with
  | nil => rfl
  | cons d rest =>
    have hd : (d == '"') = false := beq_eq_false_iff_ne.mpr fun heq => hquote rest (by rw [heq])
    have hd' : (d == '\\') = false := beq_eq_false_iff_ne.mpr fun heq => hslash rest (by rw [heq])
    have hpushed : step ⟨.double, tokens, word ++ ['\\']⟩ d =
        ⟨.double, tokens, word ++ ['\\'] ++ [d]⟩ := by
      simp only [step, hd, hd', Bool.false_eq_true, if_false, push]
    have hkept : step (step ⟨.double, tokens, word⟩ '\\') d =
        ⟨.double, tokens, word ++ ['\\'] ++ [d]⟩ := by
      show step ⟨.doubleEscape, tokens, word⟩ d = _
      simp only [step, hd, hd', Bool.or_false, Bool.false_eq_true, if_false, push]
    rw [run_cons, hpushed] at h
    rw [run_cons, run_cons, hkept]
    exact h

theorem run_double (tokens : List (List Char)) (word cs : List Char) :
    EndsAfter (run ⟨.double, tokens, word⟩ cs) tokens word (doubleQuoted? cs) := by
  fun_induction doubleQuoted? cs generalizing word with
  | case1 => rfl
  | case2 cs => exact endsAfter_closed tokens word cs
  | case3 cs ih => exact (ih (word ++ ['"'])).map
  | case4 cs ih => exact (ih (word ++ ['\\'])).map
  | case5 c cs hclosing hquote hslash ih =>
    by_cases hc : c = '\\'
    · -- the automaton knows that the backslash escapes nothing only after the next character
      subst hc
      exact (run_double_backslash (fun rest => hquote rest rfl) (fun rest => hslash rest rfl)
        (ih _)).map
    · have hstep : step ⟨.double, tokens, word⟩ c = ⟨.double, tokens, word ++ [c]⟩ := by
        simp only [step, beq_eq_false_iff_ne.mpr hclosing, beq_eq_false_iff_ne.mpr hc,
          Bool.false_eq_true, if_false, push]
      rw [run_cons, hstep]
      exact (ih (word ++ [c])).map

theorem run_part (hc : isBlank c = false) (tokens : List (List Char)) (word cs : List Char) :
    EndsAfter (run ⟨.word, tokens, word⟩ (c :: cs)) tokens word (part? c cs) := by
  have hstep : step ⟨.word, tokens, word⟩ c = enter ⟨.word, tokens, word⟩ c :=
    if_neg (Bool.eq_false_iff.mp hc)
  rw [run_cons, hstep]
  unfold enter part?
  by_cases hsingle : (c == '\x27') = true
  · rw [if_pos hsingle, if_pos hsingle]
    exact run_single tokens word cs
  · rw [if_neg hsingle, if_neg hsingle]
    by_cases hdouble : (c == '"') = true
    · rw [if_pos hdouble, if_pos hdouble]
      exact run_double tokens word cs
    · rw [if_neg hdouble, if_neg hdouble]
      by_cases hslash : (c == '\\') = true
      · rw [if_pos hslash, if_pos hslash]
        cases cs with
        | nil => rfl
        | cons d rest => rfl
      · rw [if_neg hslash, if_neg hslash]
        rfl

theorem run_token (tokens : List (List Char)) (word cs : List Char) :
    EndsAfter (run ⟨.word, tokens, word⟩ cs) tokens word (token? cs) := by
  fun_induction token? cs generalizing word with
  | case1 => exact endsAfter_closed tokens word []
  | case2 c cs hc => exact endsAfter_closed tokens word (c :: cs)
  | case3 c cs hc hnone =>
    have hpart := run_part (Bool.eq_false_iff.mpr hc) tokens word cs
    rw [hnone] at hpart
    exact hpart
  | case4 c cs hc w r hsome _ ih =>
    have hpart := run_part (Bool.eq_false_iff.mpr hc) tokens word cs
    rw [hsome] at hpart
    rw [show run ⟨.word, tokens, word⟩ (c :: cs) = run ⟨.word, tokens, word ++ w⟩ r from hpart]
    exact (ih (word ++ w)).map

/-! ### Texts -/

theorem run_dropWhile_blank (tokens : List (List Char)) (cs : List Char) :
    run ⟨.between, tokens, []⟩ cs = run ⟨.between, tokens, []⟩ (cs.dropWhile isBlank) := by
  induction cs with
  | nil => rfl
  | cons c cs ih =>
    rw [List.dropWhile_cons]
    by_cases hc : isBlank c = true
    · rw [if_pos hc, run_cons, step_blank hc]
      exact ih
    · rw [if_neg hc]

/-- A token ends in front of a blank or with the text. -/
theorem head_of_token? (h : token? cs = some (w, r)) : ∀ b ∈ r.head?, isBlank b = true := by
  fun_induction token? cs generalizing w with
  | case1 =>
    cases h
    intro b hb
    cases hb
  | case2 c cs hc =>
    cases h
    intro b hb
    cases hb
    exact hc
  | case3 => cases h
  | case4 c cs hc v rest hpart _ ih =>
    obtain ⟨p, hrest, heq⟩ := Option.map_eq_some_iff.mp h
    cases heq
    exact ih hrest

/-- At the end of a token, its word is complete. -/
theorem outcome?_of_head (h : ∀ b ∈ r.head?, isBlank b = true) (tokens : List (List Char))
    (word : List Char) :
    (run ⟨.word, tokens, word⟩ r).outcome? = (run ⟨.between, tokens ++ [word], []⟩ r).outcome? := by
  cases r with
  | nil => rfl
  | cons b rest =>
    have hb := h b rfl
    rw [run_cons, run_cons, step_word_blank hb, step_blank hb]

theorem run_tokens (tokens : List (List Char)) (cs : List Char) :
    (run ⟨.between, tokens, []⟩ cs).outcome? = (tokens? cs).map (tokens ++ ·) := by
  induction hn : cs.length using Nat.strongRecOn generalizing cs tokens with
  | ind n ih =>
    rw [run_dropWhile_blank]
    cases hc : cs.dropWhile isBlank with
    | nil =>
      rw [tokens?_of_blank hc]
      show some tokens = some (tokens ++ [])
      rw [List.append_nil]
    | cons c rest =>
      have hblank : isBlank c = false := by
        have hhead := List.head?_dropWhile_not isBlank cs
        simpa [hc] using hhead
      have htoken := run_token tokens [] (c :: rest)
      rw [run_cons, step_of_not_blank hblank, ← run_cons, tokens?_of_dropWhile hc]
      cases hread : token? (c :: rest) with
      | none =>
        rw [hread] at htoken
        exact htoken
      | some p =>
        rw [hread] at htoken
        have hlen : p.2.length < n := by
          rw [← hn]
          exact length_after_token hc hread
        rw [show run ⟨.word, tokens, []⟩ (c :: rest) = run ⟨.word, tokens, p.1⟩ p.2 from htoken,
          outcome?_of_head (head_of_token? hread), ih p.2.length hlen (tokens ++ [p.1]) p.2 rfl,
          Option.bind_some, Option.map_map]
        refine congrArg (Option.map · (tokens? p.2)) (funext fun more => ?_)
        rw [List.append_assoc, List.singleton_append]
        rfl

end Scan

/-- The tokens of a text in one pass; its words if the pass leaves something open. -/
def scanTokens (s : String) : List String :=
  match (Scan.run {} s.toList).outcome? with
  | some pieces => pieces.map String.ofList
  | none => words s

theorem tokens?_eq_run (cs : List Char) : tokens? cs = (Scan.run {} cs).outcome? := by
  rw [Scan.run_tokens [] cs]
  cases tokens? cs <;> rfl

theorem splitTokens_eq_scanTokens (s : String) : splitTokens s = scanTokens s := by
  have hrun := tokens?_eq_run s.toList
  unfold splitTokens scanTokens
  cases houtcome : (Scan.run {} s.toList).outcome? with
  | none => simp only [hrun, houtcome]
  | some pieces => simp only [hrun, houtcome]

/-- Pieces without a blank between them are one token, and empty quotes are an empty one. -/
example : scanTokens "a\x27b c\x27\"\\d\" \x27\x27" = ["ab c\\d", ""] := rfl

end Catalog.Text
