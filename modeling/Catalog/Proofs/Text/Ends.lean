import Catalog.Proofs.Text.LowerCase
import Catalog.Proofs.Text.Tokens
import Mathlib.Data.List.TakeWhile

/-!
# Blanks at the ends of a text

Blanks at the ends of a text are no part of its tokens, with one exception: a backslash at the end
of what is before them holds the first of them.

* `toList_eq_trim` takes a text apart into what `trim` keeps and the blanks around it, and
  `toList_lower_eq_trim` does so in lower case;
* `tokens?_append_of_none` says what blanks at the end do to a text without tokens: they change
  nothing, or the first of them ends the last token;
* `endsEscaping` holds of the texts with a backslash left open at the end, and
  `splitTokens_lower_trim` says that for all others the blanks at the ends do not matter.
-/

namespace Catalog.Text

variable {cs bs ds : List Char} {b c : Char}

/-! ### What `trim` drops -/

/-- The blanks at the start of a text. -/
def blanksBefore (s : String) : List Char := s.toList.takeWhile isBlank

/-- The blanks at the end of a text, after something else. -/
def blanksAfter (s : String) : List Char :=
  ((s.toList.dropWhile isBlank).reverse.takeWhile isBlank).reverse

theorem isBlank_of_mem_blanksBefore {s : String} (h : b ∈ blanksBefore s) : isBlank b = true :=
  List.mem_takeWhile_imp h

theorem isBlank_of_mem_blanksAfter {s : String} (h : b ∈ blanksAfter s) : isBlank b = true :=
  List.mem_takeWhile_imp (List.mem_reverse.mp h)

theorem toList_eq_trim (s : String) :
    s.toList = blanksBefore s ++ ((trim s).toList ++ blanksAfter s) := by
  have hkept : s.toList.dropWhile isBlank = (trim s).toList ++ blanksAfter s := by
    rw [trim, String.toList_ofList, blanksAfter,
      ← List.reverse_append, List.takeWhile_append_dropWhile, List.reverse_reverse]
  rw [blanksBefore, ← hkept, List.takeWhile_append_dropWhile]

/-! ### Lower case -/

theorem lowerChars_cons_blank (hb : isBlank b = true) (cs : List Char) :
    lowerChars (b :: cs) = b :: lowerChars cs :=
  lowerFrom_cons_separator (isSeparator_of_isBlank hb) false cs

theorem lowerChars_blanks_append (hbs : ∀ b ∈ bs, isBlank b = true) (cs : List Char) :
    lowerChars (bs ++ cs) = bs ++ lowerChars cs := by
  induction bs with
  | nil => rfl
  | cons b bs ih =>
    rw [List.cons_append, lowerChars_cons_blank (hbs b List.mem_cons_self),
      ih fun d hd => hbs d (List.mem_cons_of_mem b hd), List.cons_append]

theorem lowerChars_append_blanks (hbs : ∀ b ∈ bs, isBlank b = true) (cs : List Char) :
    lowerChars (cs ++ bs) = lowerChars cs ++ bs := by
  cases bs with
  | nil => rw [List.append_nil, List.append_nil]
  | cons b bs =>
    have hrest : lowerChars (bs ++ []) = bs ++ lowerChars [] :=
      lowerChars_blanks_append (fun d hd => hbs d (List.mem_cons_of_mem b hd)) []
    have hnil : lowerChars [] = [] := rfl
    rw [List.append_nil, hnil, List.append_nil] at hrest
    show lowerFrom false (cs ++ b :: bs) = lowerFrom false cs ++ b :: bs
    rw [lowerFrom_append_separator (isSeparator_of_isBlank (hbs b List.mem_cons_self)), hrest]

theorem toList_lower_eq_trim (s : String) :
    (lower s).toList = blanksBefore s ++ ((lower (trim s)).toList ++ blanksAfter s) := by
  have hs : lowerChars s.toList =
      blanksBefore s ++ (lowerChars (trim s).toList ++ blanksAfter s) := by
    rw [toList_eq_trim s, lowerChars_blanks_append fun b => isBlank_of_mem_blanksBefore,
      lowerChars_append_blanks fun b => isBlank_of_mem_blanksAfter]
  rw [lower, lower, String.toList_ofList, String.toList_ofList, hs]

/-! ### Words -/

/-- The pieces between blanks that are not empty. -/
def wordPieces (cs : List Char) : List (List Char) :=
  (splitBlank cs).filter fun piece => !piece.isEmpty

theorem words_eq (s : String) : words s = (wordPieces s.toList).map String.ofList := rfl

theorem wordPieces_append_blank (hb : isBlank b = true) (cs ds : List Char) :
    wordPieces (cs ++ b :: ds) = wordPieces cs ++ wordPieces ds := by
  rw [wordPieces, splitBlank_append_blank hb, List.filter_append]
  rfl

theorem wordPieces_blanks_append (hbs : ∀ b ∈ bs, isBlank b = true) (cs : List Char) :
    wordPieces (bs ++ cs) = wordPieces cs := by
  induction bs with
  | nil => rfl
  | cons b bs ih =>
    have hfirst : wordPieces (b :: (bs ++ cs)) = wordPieces [] ++ wordPieces (bs ++ cs) :=
      wordPieces_append_blank (hbs b List.mem_cons_self) [] (bs ++ cs)
    show wordPieces (b :: (bs ++ cs)) = wordPieces cs
    rw [hfirst, ih fun d hd => hbs d (List.mem_cons_of_mem b hd)]
    rfl

theorem wordPieces_append_blanks (hbs : ∀ b ∈ bs, isBlank b = true) (cs : List Char) :
    wordPieces (cs ++ bs) = wordPieces cs := by
  cases bs with
  | nil => rw [List.append_nil]
  | cons b bs =>
    have hrest : wordPieces (bs ++ []) = wordPieces [] :=
      wordPieces_blanks_append (fun d hd => hbs d (List.mem_cons_of_mem b hd)) []
    rw [List.append_nil] at hrest
    have hnil : wordPieces [] = [] := rfl
    rw [wordPieces_append_blank (hbs b List.mem_cons_self), hrest, hnil, List.append_nil]

theorem isBlank_of_mem_splitBlank {piece : List Char} (h : piece ∈ splitBlank cs) (hc : c ∈ piece) :
    isBlank c = false := by
  induction cs generalizing piece with
  | nil =>
    rw [splitBlank, List.mem_singleton] at h
    rw [h] at hc
    cases hc
  | cons d cs ih =>
    rw [splitBlank] at h
    split at h
    · rcases List.mem_cons.mp h with rfl | h
      · cases hc
      · exact ih h hc
    · next hd =>
      cases hs : splitBlank cs with
      | nil => exact absurd hs (splitBlank_ne_nil cs)
      | cons first rest =>
        rw [hs] at h ih
        rcases List.mem_cons.mp h with rfl | h
        · rcases List.mem_cons.mp hc with rfl | hc
          · exact Bool.eq_false_iff.mpr hd
          · exact ih List.mem_cons_self hc
        · exact ih (List.mem_cons_of_mem first h) hc

theorem isBlank_of_mem_words {s word : String} (h : word ∈ words s) (hc : c ∈ word.toList) :
    isBlank c = false := by
  obtain ⟨piece, hpiece, rfl⟩ := List.mem_map.mp h
  rw [String.toList_ofList] at hc
  exact isBlank_of_mem_splitBlank (List.mem_filter.mp hpiece).1 hc

theorem ne_empty_of_mem_words {s word : String} (h : word ∈ words s) : word ≠ "" := by
  obtain ⟨piece, hpiece, rfl⟩ := List.mem_map.mp h
  have hfilled := (List.mem_filter.mp hpiece).2
  rintro hempty
  rw [String.ofList_eq_empty_iff.mp hempty] at hfilled
  cases hfilled

/-! ### Tokens -/

theorem tokens?_blanks_append (hbs : ∀ b ∈ bs, isBlank b = true) (cs : List Char) :
    tokens? (bs ++ cs) = tokens? cs := by
  refine tokens?_congr ?_
  rw [List.dropWhile_append_of_pos hbs]

theorem tokens?_blanks (hbs : ∀ b ∈ bs, isBlank b = true) : tokens? bs = some [] := by
  refine tokens?_of_blank ?_
  rw [← List.append_nil bs, List.dropWhile_append_of_pos hbs]
  rfl

/-- Blanks after a text with tokens make no difference. -/
theorem tokens?_append_blanks {tokens : List (List Char)} (h : tokens? cs = some tokens)
    (hbs : ∀ b ∈ bs, isBlank b = true) : tokens? (cs ++ bs) = some tokens := by
  cases bs with
  | nil => rw [List.append_nil, h]
  | cons b bs =>
    have hrest : tokens? bs = some [] :=
      tokens?_blanks fun d hd => hbs d (List.mem_cons_of_mem b hd)
    rw [tokens?_append_blank (hbs b List.mem_cons_self) h, hrest, Option.map_some, List.append_nil]

/-! ### Blanks after a text without tokens -/

theorem isBlank_ne (hb : isBlank b = true) : b ≠ '\x27' ∧ b ≠ '"' ∧ b ≠ '\\' := by
  refine ⟨?_, ?_, ?_⟩ <;> rintro rfl <;> cases hb

theorem singleQuoted?_append_of_none (h : singleQuoted? cs = none)
    (hbs : ∀ b ∈ bs, isBlank b = true) : singleQuoted? (cs ++ bs) = none := by
  induction cs with
  | nil =>
    rw [List.nil_append]
    induction bs with
    | nil => rfl
    | cons b bs ih =>
      have hquote : (b == '\x27') = false :=
        beq_eq_false_iff_ne.mpr (isBlank_ne (hbs b List.mem_cons_self)).1
      rw [singleQuoted?, hquote, ih fun d hd => hbs d (List.mem_cons_of_mem b hd)]
      rfl
  | cons c cs ih =>
    rw [singleQuoted?] at h
    rw [List.cons_append, singleQuoted?]
    split at h
    · cases h
    · next hc => rw [if_neg hc, ih (Option.map_eq_none_iff.mp h), Option.map_none]

theorem doubleQuoted?_blanks (hbs : ∀ b ∈ bs, isBlank b = true) : doubleQuoted? bs = none := by
  induction bs with
  | nil => rfl
  | cons b bs ih =>
    obtain ⟨_, hquote, hslash⟩ := isBlank_ne (hbs b List.mem_cons_self)
    rw [doubleQuoted?.eq_5 _ _ hquote (fun _ h => absurd h hslash) (fun _ h => absurd h hslash),
      ih fun d hd => hbs d (List.mem_cons_of_mem b hd), Option.map_none]

theorem doubleQuoted?_append_of_none (h : doubleQuoted? cs = none)
    (hbs : ∀ b ∈ bs, isBlank b = true) : doubleQuoted? (cs ++ bs) = none := by
  fun_induction doubleQuoted? cs with
  | case1 => exact doubleQuoted?_blanks hbs
  | case2 cs => cases h
  | case3 cs ih | case4 cs ih =>
    rw [List.cons_append, List.cons_append, doubleQuoted?, ih (Option.map_eq_none_iff.mp h),
      Option.map_none]
  | case5 c cs h1 h2 h3 ih =>
    -- what follows the character starts as before, or with a blank
    have hother : ∀ d tail, (d = '"' ∨ d = '\\') →
        (∀ rest, cs ≠ d :: rest) → cs ++ bs ≠ d :: tail := by
      intro d tail hd hne htail
      cases cs with
      | nil =>
        rw [List.nil_append] at htail
        obtain ⟨_, hquote, hslash⟩ := isBlank_ne (hbs d (by rw [htail]; exact List.mem_cons_self))
        exact hd.elim hquote hslash
      | cons e es => exact hne es (by rw [(List.cons.inj htail).1])
    have hquote : ∀ tail, c = '\\' → cs ++ bs = '"' :: tail → False :=
      fun tail hc => hother '"' tail (Or.inl rfl) fun rest => h2 rest hc
    have hslash : ∀ tail, c = '\\' → cs ++ bs = '\\' :: tail → False :=
      fun tail hc => hother '\\' tail (Or.inr rfl) fun rest => h3 rest hc
    rw [List.cons_append, doubleQuoted?.eq_5 _ _ h1 hquote hslash, ih (Option.map_eq_none_iff.mp h),
      Option.map_none]

/-- A part that is not complete is a quotation, which blanks do not close, or a backslash that takes
the first of them. -/
theorem part?_append_of_none (h : part? c cs = none) :
    (∀ bs, (∀ b ∈ bs, isBlank b = true) → part? c (cs ++ bs) = none) ∨
      ∀ b bs, part? c (cs ++ b :: bs) = some ([b], bs) := by
  unfold part? at h ⊢
  by_cases hsingle : (c == '\x27') = true
  · rw [if_pos hsingle] at h
    refine Or.inl fun bs hbs => ?_
    rw [if_pos hsingle]
    exact singleQuoted?_append_of_none h hbs
  · rw [if_neg hsingle] at h
    by_cases hdouble : (c == '"') = true
    · rw [if_pos hdouble] at h
      refine Or.inl fun bs hbs => ?_
      rw [if_neg hsingle, if_pos hdouble]
      exact doubleQuoted?_append_of_none h hbs
    · rw [if_neg hdouble] at h
      by_cases hslash : (c == '\\') = true
      · rw [if_pos hslash] at h
        cases cs with
        | nil =>
          refine Or.inr fun b bs => ?_
          rw [if_neg hsingle, if_neg hdouble, if_pos hslash, List.nil_append]
        | cons d rest => cases h
      · rw [if_neg hslash] at h
        cases h

theorem token?_blanks (hbs : ∀ b ∈ bs, isBlank b = true) : token? bs = some ([], bs) := by
  cases bs with
  | nil => exact token?_nil
  | cons b bs => rw [token?_of_blank (hbs b List.mem_cons_self)]

/-- A token that is not complete is not completed by blanks, or a backslash at its end takes the
first of them. -/
theorem token?_append_of_none (h : token? cs = none) :
    ∃ left : Option (List Char), ∀ b bs, (∀ d ∈ b :: bs, isBlank d = true) →
      token? (cs ++ b :: bs) = left.map fun w => (w ++ [b], bs) := by
  fun_induction token? cs with
  | case1 => cases h
  | case2 c cs hc => cases h
  | case3 c cs hc hnone =>
    have hc : isBlank c = false := Bool.eq_false_iff.mpr hc
    rcases part?_append_of_none hnone with hopen | hescape
    · refine ⟨none, fun b bs hbs => ?_⟩
      rw [List.cons_append, token?_cons hc, hopen _ hbs]
      rfl
    · refine ⟨some [], fun b bs hbs => ?_⟩
      have hrest : token? bs = some ([], bs) :=
        token?_blanks fun d hd => hbs d (List.mem_cons_of_mem b hd)
      rw [List.cons_append, token?_cons hc, hescape b bs, Option.bind_some, hrest]
      rfl
  | case4 c cs hc w rest hpart _ ih =>
    have hc : isBlank c = false := Bool.eq_false_iff.mpr hc
    obtain ⟨left, hleft⟩ := ih (Option.map_eq_none_iff.mp h)
    refine ⟨left.map (w ++ ·), fun b bs hbs => ?_⟩
    rw [List.cons_append, token?_cons hc, part?_append hpart, Option.bind_some, hleft b bs hbs]
    cases left with
    | none => rfl
    | some v =>
      show some (w ++ (v ++ [b]), bs) = some (w ++ v ++ [b], bs)
      rw [List.append_assoc]

/-- A text without tokens gets none by blanks at its end, or a backslash at its end takes the first
of them into the last token. -/
theorem tokens?_append_of_none (h : tokens? cs = none) :
    ∃ left : Option (List (List Char) × List Char), ∀ b bs, (∀ d ∈ b :: bs, isBlank d = true) →
      tokens? (cs ++ b :: bs) = left.map fun p => p.1 ++ [p.2 ++ [b]] := by
  induction hn : cs.length using Nat.strongRecOn generalizing cs with
  | ind n ih =>
    cases hc : cs.dropWhile isBlank with
    | nil =>
      rw [tokens?_of_blank hc] at h
      cases h
    | cons c rest =>
      have hstart : ∀ ds, (cs ++ ds).dropWhile isBlank = c :: (rest ++ ds) := by
        intro ds
        rw [List.dropWhile_append, hc]
        rfl
      rw [tokens?_of_dropWhile hc] at h
      cases htoken : token? (c :: rest) with
      | none =>
        obtain ⟨left, hleft⟩ := token?_append_of_none htoken
        refine ⟨left.map fun w => ([], w), fun b bs hbs => ?_⟩
        have hrest : tokens? bs = some [] :=
          tokens?_blanks fun d hd => hbs d (List.mem_cons_of_mem b hd)
        rw [tokens?_of_dropWhile (hstart (b :: bs)), ← List.cons_append, hleft b bs hbs]
        cases left with
        | none => rfl
        | some w =>
          show (tokens? bs).map ((w ++ [b]) :: ·) = some [w ++ [b]]
          rw [hrest]
          rfl
      | some p =>
        obtain ⟨w, r⟩ := p
        rw [htoken, Option.bind_some, Option.map_eq_none_iff] at h
        have hlen : r.length < n := by
          rw [← hn]
          exact length_after_token hc htoken
        obtain ⟨left, hleft⟩ := ih r.length hlen h rfl
        refine ⟨left.map fun p => (w :: p.1, p.2), fun b bs hbs => ?_⟩
        have htoken' := token?_append_blank (hbs b List.mem_cons_self) htoken bs
        rw [tokens?_of_dropWhile (hstart (b :: bs)), ← List.cons_append, htoken', Option.bind_some,
          hleft b bs hbs]
        cases left <;> rfl

/-! ### A backslash at the end -/

/-- A backslash is left open at the end: the text has tokens only with a blank after it. -/
def endsEscaping (s : String) : Bool :=
  (tokens? s.toList).isNone && (tokens? (s.toList ++ [' '])).isSome

theorem endsEscaping_iff {s : String} :
    endsEscaping s = true ↔
      tokens? s.toList = none ∧ (tokens? (s.toList ++ [' '])).isSome = true := by
  rw [endsEscaping, Bool.and_eq_true, Option.isNone_iff_eq_none]

theorem splitTokens_congr {s t : String} (htokens : tokens? s.toList = tokens? t.toList)
    (hwords : wordPieces s.toList = wordPieces t.toList) : splitTokens s = splitTokens t := by
  rw [splitTokens, splitTokens, htokens, words_eq, words_eq, hwords]

theorem splitTokens_of_none {s : String} (h : tokens? s.toList = none) :
    splitTokens s = words s := by
  rw [splitTokens, h]

theorem isBlank_of_mem_singleton (h : b ∈ [' ']) : isBlank b = true := by
  rw [List.mem_singleton.mp h]
  rfl

theorem tokens?_lower_eq_trim (s : String) :
    tokens? (lower s).toList = tokens? ((lower (trim s)).toList ++ blanksAfter s) := by
  rw [toList_lower_eq_trim, tokens?_blanks_append fun b => isBlank_of_mem_blanksBefore]

theorem wordPieces_lower_eq_trim (s : String) :
    wordPieces (lower s).toList = wordPieces (lower (trim s)).toList := by
  rw [toList_lower_eq_trim, wordPieces_blanks_append fun b => isBlank_of_mem_blanksBefore,
    wordPieces_append_blanks fun b => isBlank_of_mem_blanksAfter]

/-- Unless a backslash at the end takes something else than a space, the blanks at the ends of a
text may be replaced by one space at its end. -/
theorem splitTokens_lower_trim {s : String}
    (h : endsEscaping (lower (trim s)) = true → (blanksAfter s).head? = some ' ') :
    splitTokens (lower (trim s) ++ " ") = splitTokens (lower s) := by
  have hchars : (lower (trim s) ++ " ").toList = (lower (trim s)).toList ++ [' '] :=
    String.toList_append
  refine splitTokens_congr ?_ ?_
  · rw [hchars, tokens?_lower_eq_trim]
    cases htokens : tokens? (lower (trim s)).toList with
    | some tokens =>
      rw [tokens?_append_blanks htokens fun b => isBlank_of_mem_singleton,
        tokens?_append_blanks htokens fun b => isBlank_of_mem_blanksAfter]
    | none =>
      obtain ⟨left, hleft⟩ := tokens?_append_of_none htokens
      have hspace := hleft ' ' [] fun b => isBlank_of_mem_singleton
      have hafter := fun b => isBlank_of_mem_blanksAfter (s := s) (b := b)
      rw [hspace]
      cases left with
      | none =>
        -- a quote is open, which no blank closes
        cases hblanks : blanksAfter s with
        | nil => rw [List.append_nil, htokens, Option.map_none]
        | cons b bs =>
          rw [hblanks] at hafter
          rw [hleft b bs hafter, Option.map_none, Option.map_none]
      | some p =>
        have hescaping : endsEscaping (lower (trim s)) = true :=
          endsEscaping_iff.mpr ⟨htokens, by rw [hspace]; rfl⟩
        obtain ⟨bs, hblanks⟩ := List.head?_eq_some_iff.mp (h hescaping)
        rw [hblanks] at hafter
        rw [hblanks, hleft ' ' bs hafter]
  · rw [hchars, wordPieces_append_blanks fun b => isBlank_of_mem_singleton,
      wordPieces_lower_eq_trim s]

/-- A space after a backslash at the end is part of the last token. -/
theorem exists_splitTokens_of_endsEscaping {s : String} (h : endsEscaping s = true) :
    ∃ tokens w, splitTokens (s ++ " ") = tokens ++ [w ++ " "] := by
  obtain ⟨htokens, hsome⟩ := endsEscaping_iff.mp h
  obtain ⟨left, hleft⟩ := tokens?_append_of_none htokens
  have hspace := hleft ' ' [] fun b => isBlank_of_mem_singleton
  have hchars : (s ++ " ").toList = s.toList ++ [' '] := String.toList_append
  rw [hspace, Option.isSome_map] at hsome
  obtain ⟨⟨tokens, w⟩, rfl⟩ := Option.isSome_iff_exists.mp hsome
  refine ⟨tokens.map String.ofList, String.ofList w, ?_⟩
  rw [splitTokens, hchars, hspace]
  show (tokens ++ [w ++ [' ']]).map String.ofList = _
  rw [List.map_append, List.map_singleton, String.ofList_append]

end Catalog.Text
