import Catalog.Proofs.Text.Marks

/-!
# A character in front of a text

A character that is no blank, no quote and no backslash attaches to the first token of the text
behind it, whether this token is quoted, escaped or neither, and also where the text has no tokens
and is cut at its blanks alone. Only a blank at the start of the text keeps the two apart.

* `consPiece` puts the character in front of the first piece, so `tokens?_cons_plain` and
  `wordPieces_cons_plain` say that reading commutes with it;
* `splitTokens_append_plain` puts this together, and `lower_append_separator` takes a separator
  through the lower case.
-/

namespace Catalog.Text

variable {cs : List Char} {b c : Char} {s : String}

/-- The text does not start with a blank. -/
def IsFlush (cs : List Char) : Prop := ∀ b ∈ cs.head?, isBlank b = false

theorem IsFlush.dropWhile_eq (h : IsFlush cs) : cs.dropWhile isBlank = cs := by
  cases cs with
  | nil => rfl
  | cons b cs => rw [List.dropWhile_cons, h b rfl, if_neg Bool.false_ne_true]

/-! ### Tokens -/

theorem token?_cons_plain (hblank : isBlank c = false) (hc : isQuoting c = false) (cs : List Char) :
    token? (c :: cs) = (token? cs).map fun p => (c :: p.1, p.2) := by
  rw [token?_cons hblank, part?_of_plain hc, Option.bind_some]
  rfl

theorem tokens?_cons_plain (hblank : isBlank c = false) (hc : isQuoting c = false)
    (h : IsFlush cs) : tokens? (c :: cs) = (tokens? cs).map (consPiece c) := by
  have hfront : (c :: cs).dropWhile isBlank = c :: cs := by
    rw [List.dropWhile_cons, hblank, if_neg Bool.false_ne_true]
  rw [tokens?_of_dropWhile hfront, token?_cons_plain hblank hc]
  cases cs with
  | nil =>
    have hnone : tokens? [] = some [] := tokens?_of_blank rfl
    rw [token?_nil, Option.map_some, Option.bind_some, hnone]
    rfl
  | cons d ds =>
    rw [tokens?_of_dropWhile h.dropWhile_eq]
    cases token? (d :: ds) with
    | none => rfl
    | some p =>
      show (tokens? p.2).map _ = ((tokens? p.2).map _).map _
      rw [Option.map_map]
      rfl

/-! ### Words -/

theorem wordPieces_cons_plain (hblank : isBlank c = false) (h : IsFlush cs) :
    wordPieces (c :: cs) = consPiece c (wordPieces cs) := by
  have hsplit : ∀ {d : Char} (ds : List Char), isBlank d = false →
      splitBlank (d :: ds) = consPiece d (splitBlank ds) := by
    intro d ds hd
    rw [splitBlank, hd, if_neg Bool.false_ne_true]
  rw [wordPieces, wordPieces, hsplit cs hblank]
  cases cs with
  | nil => rfl
  | cons d ds =>
    -- the first piece of a text that starts with no blank is not empty
    rw [hsplit ds (h d rfl)]
    cases splitBlank ds <;> rfl

/-! ### Texts -/

/-- The character becomes a part of the first token, and the other tokens stay as they are. -/
theorem splitTokens_append_plain (hblank : isBlank c = false) (hc : isQuoting c = false)
    (h : IsFlush s.toList) {token : String} {more : List String}
    (htokens : splitTokens s = token :: more) :
    splitTokens (String.singleton c ++ s) = (String.singleton c ++ token) :: more := by
  have hchars : (String.singleton c ++ s).toList = c :: s.toList := by
    rw [String.toList_append, String.toList_singleton, List.singleton_append]
  have hfirst : ∀ pieces : List (List Char), pieces.map String.ofList = token :: more →
      (consPiece c pieces).map String.ofList = (String.singleton c ++ token) :: more := by
    intro pieces hpieces
    cases pieces with
    | nil => cases hpieces
    | cons piece rest =>
      obtain ⟨rfl, rfl⟩ := List.cons.inj hpieces
      refine congrArg (· :: rest.map String.ofList) (String.toList_inj.mp ?_)
      rw [String.toList_append, String.toList_singleton, String.toList_ofList, String.toList_ofList,
        List.singleton_append]
  have hread := tokens?_cons_plain hblank hc h
  unfold splitTokens at htokens ⊢
  rw [hchars, hread]
  cases hs : tokens? s.toList with
  | none =>
    rw [hs] at htokens
    show words (String.singleton c ++ s) = _
    rw [words_eq, hchars, wordPieces_cons_plain hblank h]
    exact hfirst _ htokens
  | some pieces =>
    rw [hs] at htokens
    exact hfirst pieces htokens

/-- Lower-casing does not look across a separator. -/
theorem lower_append_separator (hc : IsSeparator c) (s : String) :
    lower (String.singleton c ++ s) = String.singleton c ++ lower s := by
  apply String.toList_inj.mp
  rw [lower, lower, String.toList_ofList, String.toList_append, String.toList_append,
    String.toList_ofList, String.toList_singleton]
  exact lowerFrom_cons_separator hc false s.toList

theorem isFlush_lower (h : IsFlush s.toList) : IsFlush (lower s).toList := by
  intro b hb
  rw [← Bool.not_eq_true]
  intro hblank
  have hstart : startsWith b (lower s) = true := beq_iff_eq.mpr hb
  rw [startsWith_lower (mem_marks_of_isBlank hblank), startsWith, beq_iff_eq] at hstart
  rw [h b hstart] at hblank
  cases hblank

end Catalog.Text
