import Catalog.Text.Pieces

/-!
# Tokens

A text is split into tokens at its blanks, except where quotes or backslashes hold it together.
Between single quotes every character stands for itself. Between double quotes a backslash
disappears in front of a double quote and of another backslash only. Outside quotes a backslash
disappears and the next character stands for itself. Pieces without a blank between them are one
token.

* `tokens?` splits a text, unless a quote is not closed or a backslash stands at the end;
* `splitTokens` splits at every blank in that case.
-/

namespace Catalog.Text

/-- What stands between single quotes, and what follows the closing one. -/
def singleQuoted? : List Char → Option (List Char × List Char)
  | [] => none
  | c :: cs =>
    if c == '\x27' then some ([], cs) else (singleQuoted? cs).map fun p => (c :: p.1, p.2)

/-- What stands between double quotes, and what follows the closing one. -/
def doubleQuoted? : List Char → Option (List Char × List Char)
  | [] => none
  | '"' :: cs => some ([], cs)
  | '\\' :: '"' :: cs => (doubleQuoted? cs).map fun p => ('"' :: p.1, p.2)
  | '\\' :: '\\' :: cs => (doubleQuoted? cs).map fun p => ('\\' :: p.1, p.2)
  | c :: cs => (doubleQuoted? cs).map fun p => (c :: p.1, p.2)

theorem length_singleQuoted {cs w r : List Char} (h : singleQuoted? cs = some (w, r)) :
    r.length < cs.length := by
  induction cs generalizing w with
  | nil => cases h
  | cons c cs ih =>
    unfold singleQuoted? at h
    split at h
    · cases h
      simp
    · obtain ⟨p, hp, e⟩ := Option.map_eq_some_iff.mp h
      cases e
      exact Nat.lt_succ_of_lt (ih hp)

theorem length_doubleQuoted {cs w r : List Char} (h : doubleQuoted? cs = some (w, r)) :
    r.length < cs.length := by
  fun_induction doubleQuoted? cs generalizing w with
  | case1 => cases h
  | case2 cs =>
    cases h
    simp
  | case3 cs ih | case4 cs ih =>
    obtain ⟨p, hp, e⟩ := Option.map_eq_some_iff.mp h
    cases e
    have := ih hp
    simp only [List.length_cons]
    omega
  | case5 c cs _ _ _ ih =>
    obtain ⟨p, hp, e⟩ := Option.map_eq_some_iff.mp h
    cases e
    exact Nat.lt_succ_of_lt (ih hp)

/-- What the part of a token stands for that starts with `c`, and what follows it. A part is a
quotation, a backslash with the character after it, or one other character. -/
def part? (c : Char) (cs : List Char) : Option (List Char × List Char) :=
  if c == '\x27' then singleQuoted? cs
  else if c == '"' then doubleQuoted? cs
  else if c == '\\' then
    match cs with
    | [] => none
    | d :: r => some ([d], r)
  else some ([c], cs)

theorem length_part_le {c : Char} {cs w r : List Char} (h : part? c cs = some (w, r)) :
    r.length ≤ cs.length := by
  unfold part? at h
  split at h
  · exact Nat.le_of_lt (length_singleQuoted h)
  · split at h
    · exact Nat.le_of_lt (length_doubleQuoted h)
    · split at h
      · cases cs with
        | nil => cases h
        | cons d s =>
          cases h
          simp
      · cases h
        exact Nat.le_refl _

/-- The token at the start of a text, and what follows it. It ends before the next blank outside
quotes. -/
def token? : List Char → Option (List Char × List Char)
  | [] => some ([], [])
  | c :: cs =>
    if isBlank c then some ([], c :: cs)
    else
      match h : part? c cs with
      | none => none
      | some (w, r) =>
        have := length_part_le h
        (token? r).map fun p => (w ++ p.1, p.2)
termination_by cs => cs.length

theorem length_token_le {cs w r : List Char} (h : token? cs = some (w, r)) :
    r.length ≤ cs.length := by
  fun_induction token? cs generalizing w with
  | case1 =>
    cases h
    exact Nat.le_refl _
  | case2 c cs hc =>
    cases h
    exact Nat.le_refl _
  | case3 => cases h
  | case4 c cs hc v s hp _ ih =>
    obtain ⟨p, hq, e⟩ := Option.map_eq_some_iff.mp h
    cases e
    exact Nat.le_succ_of_le (Nat.le_trans (ih hq) (length_part_le hp))

/-- A token takes at least one character of a text that starts with no blank. -/
theorem length_token_lt {c : Char} {cs w r : List Char} (hb : isBlank c = false)
    (h : token? (c :: cs) = some (w, r)) : r.length < (c :: cs).length := by
  rw [token?.eq_def] at h
  simp only [hb, Bool.false_eq_true, if_false] at h
  split at h
  · cases h
  · next v s hp =>
    obtain ⟨p, hq, e⟩ := Option.map_eq_some_iff.mp h
    cases e
    exact Nat.lt_succ_of_le (Nat.le_trans (length_token_le hq) (length_part_le hp))

/-- What follows the first token of a text is shorter than the text. -/
theorem length_after_token {cs rest w r : List Char} {c : Char}
    (hc : cs.dropWhile isBlank = c :: rest) (h : token? (c :: rest) = some (w, r)) :
    r.length < cs.length := by
  have hb : isBlank c = false := by
    have := List.head?_dropWhile_not isBlank cs
    simpa [hc] using this
  have h1 := length_token_lt hb h
  have h2 : (cs.dropWhile isBlank).length ≤ cs.length := (List.dropWhile_sublist isBlank).length_le
  rw [hc] at h2
  omega

/-- The tokens of a text; none if a quote is not closed or a backslash stands at the end. -/
def tokens? (cs : List Char) : Option (List (List Char)) :=
  match hc : cs.dropWhile isBlank with
  | [] => some []
  | c :: rest =>
    match h : token? (c :: rest) with
    | none => none
    | some (w, r) =>
      have := length_after_token hc h
      (tokens? r).map (w :: ·)
termination_by cs.length

/-- The tokens of a text, or its words where it has no tokens. -/
def splitTokens (s : String) : List String :=
  match tokens? s.toList with
  | some pieces => pieces.map String.ofList
  | none => words s

end Catalog.Text
