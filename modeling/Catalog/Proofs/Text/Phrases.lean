import Catalog.Proofs.Text.Marks

/-!
# Phrases

Any text can be written as a phrase: between double quotes, with a backslash in front of every
double quote and every backslash. A phrase is read as one token, which is the text, and its
lower-case form is the phrase of the lower-case form.

* `phrase` writes a phrase, and `splitTokens_phrases` reads any number of them with spaces between;
* `lower_phrase` says that writing a phrase and lower-casing commute, although lower-casing looks
  around a character.
-/

namespace Catalog.Text

/-- A backslash is put in front of every double quote and every backslash. -/
def escaped : List Char → List Char
  | [] => []
  | c :: cs => if c == '"' || c == '\\' then '\\' :: c :: escaped cs else c :: escaped cs

/-- A text as a phrase in double quotes. -/
def phrase (s : String) : String := String.ofList ('"' :: (escaped s.toList ++ ['"']))

variable {c : Char} {cs ds : List Char}

theorem toList_phrase (s : String) : (phrase s).toList = '"' :: (escaped s.toList ++ ['"']) :=
  String.toList_ofList

theorem escaped_cons_of_special (hc : (c == '"' || c == '\\') = true) (cs : List Char) :
    escaped (c :: cs) = '\\' :: c :: escaped cs := if_pos hc

theorem escaped_cons_of_plain (hc : (c == '"' || c == '\\') = false) (cs : List Char) :
    escaped (c :: cs) = c :: escaped cs := if_neg (Bool.eq_false_iff.mp hc)

theorem escaped_append_of_plain (h : ∀ d ∈ ds, (d == '"' || d == '\\') = false) (cs : List Char) :
    escaped (ds ++ cs) = ds ++ escaped cs := by
  induction ds with
  | nil => rfl
  | cons d ds ih =>
    rw [List.cons_append, escaped_cons_of_plain (h d List.mem_cons_self),
      ih fun e he => h e (List.mem_cons_of_mem d he), List.cons_append]

/-! ### Tokens -/

/-- What is written between double quotes is read as what was meant. -/
theorem doubleQuoted?_escaped (cs rest : List Char) :
    doubleQuoted? (escaped cs ++ '"' :: rest) = some (cs, rest) := by
  induction cs with
  | nil => rfl
  | cons c cs ih =>
    by_cases hc : (c == '"' || c == '\\') = true
    · rw [escaped_cons_of_special hc, List.cons_append, List.cons_append]
      rw [Bool.or_eq_true, beq_iff_eq, beq_iff_eq] at hc
      rcases hc with rfl | rfl
      · rw [doubleQuoted?, ih, Option.map_some]
      · rw [doubleQuoted?, ih, Option.map_some]
    · rw [escaped_cons_of_plain (Bool.eq_false_iff.mpr hc), List.cons_append]
      simp only [Bool.or_eq_true, beq_iff_eq, not_or] at hc
      rw [doubleQuoted?.eq_5 _ _ hc.1 (fun _ h _ => hc.2 h) (fun _ h _ => hc.2 h), ih,
        Option.map_some]

theorem tokens?_phrase (s : String) : tokens? (phrase s).toList = some [s.toList] := by
  have hpart : part? '"' (escaped s.toList ++ ['"']) = some (s.toList, []) :=
    doubleQuoted?_escaped s.toList []
  have hdrop : (phrase s).toList.dropWhile isBlank = '"' :: (escaped s.toList ++ ['"']) := by
    rw [toList_phrase]
    rfl
  have hnone : tokens? [] = some [] := tokens?_of_blank rfl
  rw [tokens?_of_dropWhile hdrop, token?_cons (by decide), hpart, Option.bind_some, token?_nil,
    Option.map_some, Option.bind_some, hnone]
  simp

/-- Phrases with spaces between are read as the texts that they were made of. -/
theorem splitTokens_phrases (texts : List String) :
    splitTokens (joinWith " " (texts.map phrase)) = texts := by
  have htokens : tokens? (joinWith " " (texts.map phrase)).toList =
      some (texts.map String.toList) := by
    induction texts with
    | nil => exact tokens?_of_blank rfl
    | cons s texts ih =>
      cases texts with
      | nil => exact tokens?_phrase s
      | cons t texts =>
        show tokens? (phrase s ++ " " ++ joinWith " " ((t :: texts).map phrase)).toList = _
        rw [tokens?_append_space _ _ (tokens?_phrase s), ih]
        rfl
  rw [splitTokens, htokens]
  show (texts.map String.toList).map String.ofList = texts
  simp

/-! ### Lower case -/

theorem isSeparator_of_special (hc : (c == '"' || c == '\\') = true) : IsSeparator c := by
  rw [Bool.or_eq_true, beq_iff_eq, beq_iff_eq] at hc
  apply isSeparator_of_mem
  rcases hc with rfl | rfl <;> decide

theorem casedNext_cons_separator (hc : IsSeparator c) (cs : List Char) :
    casedNext (c :: cs) = false :=
  casedNext_append_separator hc [] cs

/-- A backslash does not come between a letter and what is looked at after it. -/
theorem casedNext_escaped (cs : List Char) : casedNext (escaped cs) = casedNext cs := by
  induction cs with
  | nil => rfl
  | cons c cs ih =>
    by_cases hc : (c == '"' || c == '\\') = true
    · rw [escaped_cons_of_special hc, casedNext_cons_separator (isSeparator_of_mem (by decide)),
        casedNext_cons_separator (isSeparator_of_special hc)]
    · rw [escaped_cons_of_plain (Bool.eq_false_iff.mpr hc)]
      unfold casedNext at ih ⊢
      rw [List.dropWhile_cons, List.dropWhile_cons]
      by_cases hignored : isCaseIgnorable c = true
      · rw [if_pos hignored, if_pos hignored]
        exact ih
      · rw [if_neg hignored, if_neg hignored]

theorem lowerFrom_escaped (casedBefore : Bool) (cs : List Char) :
    lowerFrom casedBefore (escaped cs) = escaped (lowerFrom casedBefore cs) := by
  induction cs generalizing casedBefore with
  | nil => rfl
  | cons c cs ih =>
    by_cases hc : (c == '"' || c == '\\') = true
    · have hsep := isSeparator_of_special hc
      rw [escaped_cons_of_special hc, lowerFrom_cons_separator (isSeparator_of_mem (by decide)),
        lowerChars, lowerFrom_cons_separator hsep, lowerChars, ih, lowerFrom_cons_separator hsep,
        escaped_cons_of_special hc, lowerChars]
    · -- lower-casing makes no quote and no backslash, so nothing has to be escaped in what becomes
      -- of the character
      have hhere : lowerAt casedBefore c (escaped cs) = lowerAt casedBefore c cs := by
        rw [lowerAt, lowerAt, casedNext_escaped]
      have hplain : ∀ d ∈ lowerAt casedBefore c cs, (d == '"' || d == '\\') = false := by
        intro d hd
        rw [← Bool.not_eq_true]
        intro hspecial
        have hmark : d ∈ marks := by
          rw [Bool.or_eq_true, beq_iff_eq, beq_iff_eq] at hspecial
          apply mem_marks_of_mem
          rcases hspecial with rfl | rfl <;> decide
        apply hc
        rw [eq_of_mem_lowerAt hmark hd]
        exact hspecial
      rw [escaped_cons_of_plain (Bool.eq_false_iff.mpr hc), lowerFrom_cons,
        lowerFrom_cons, hhere, ih, escaped_append_of_plain hplain]

theorem lower_phrase (s : String) : lower (phrase s) = phrase (lower s) := by
  have hquote : IsSeparator '"' := isSeparator_of_mem (by decide)
  apply String.toList_inj.mp
  rw [toList_phrase, lower, lower, String.toList_ofList, String.toList_ofList,
    toList_phrase, lowerChars, lowerFrom_cons_separator hquote, lowerChars,
    lowerFrom_append_separator hquote, lowerFrom_escaped]
  rfl

end Catalog.Text
