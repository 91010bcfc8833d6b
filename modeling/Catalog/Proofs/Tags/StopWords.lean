import Catalog.Proofs.Tags.Counting
import Catalog.Proofs.Text.Marks

/-!
# Common words in a text

A common word stands in a text in any case and with punctuation around it. Cleaning takes the
punctuation away, but an apostrophe inside the word as well, and what is left is looked up. So a
common word is left out of the tags if it has no apostrophe, or if it is a common word without its
apostrophe too; `can't` is offered as `cant`.

* `IsSpelling` says how a common word stands in a text, and `StaysCommon` holds of the common words
  that cleaning leaves common;
* `lowerFrom_filter` exchanges cleaning and lower-casing, which is not possible for every text: a
  `Σ` looks at what surrounds it;
* `IsListed` is what has been checked of the list, and `isTelling_clean_iff` what becomes of a
  common word;
* `ofText_stopWord_iff` says which common words a text is left without.
-/

namespace Catalog.Words

variable {cs : List Char} {c : Char} {entry word s : String}

/-- The word is the entry in some case, between characters that cleaning removes. -/
def IsSpelling (entry word : String) : Prop :=
  ∃ front core back : String, word = front ++ core ++ back ∧ Text.lower core = entry ∧
    ∀ c ∈ front.toList ++ back.toList, isRemoved c = true

/-- The entry has no apostrophe, or is a common word without it too. -/
def StaysCommon (entry : String) : Prop := '\x27' ∉ entry.toList ∨ entry ∈ ["it's", "we're"]

instance : Decidable (StaysCommon entry) := inferInstanceAs (Decidable (_ ∨ _))

/-! ### Characters -/

/-- The marks in ASCII that are no letters are their own lower-case form. -/
theorem isLower_of_mem_marks {marks : List Char}
    (hall : marks.all (fun d => decide (d.toNat < 0x80 ∧ d.toLower = d ∧ d.isLower = false)) = true)
    (h : marks.contains c = true) : Text.IsLower c ∧ c.isLower = false := by
  obtain ⟨hlt, hsame, hsmall⟩ :=
    of_decide_eq_true (List.all_eq_true.mp hall c (List.contains_iff_mem.mp h))
  refine ⟨?_, hsmall⟩
  rw [← hsame]
  exact Text.isLower_of_toNat_lt hlt

theorem isLower_of_isRemoved (h : isRemoved c = true) : Text.IsLower c ∧ c.isLower = false := by
  rcases Bool.or_eq_true_iff.mp h with hblank | hmark
  · have hsep := Text.isSeparator_of_isBlank hblank
    refine ⟨⟨hsep.sigma, hsep.lower⟩, ?_⟩
    rw [← Bool.not_eq_true]
    intro hsmall
    obtain ⟨hge, hle⟩ := Bool.and_eq_true_iff.mp hsmall
    have hge : 97 ≤ c.toNat := of_decide_eq_true hge
    have hle : c.toNat ≤ 122 := of_decide_eq_true hle
    simp only [Text.isBlank, Bool.or_eq_true, Bool.and_eq_true, decide_eq_true_eq,
      beq_iff_eq] at hblank
    omega
  · exact isLower_of_mem_marks (by decide) hmark

theorem isLower_of_isDigit (h : c.isDigit = true) : Text.IsLower c ∧ c.isLower = false := by
  obtain ⟨hge, hle⟩ := Bool.and_eq_true_iff.mp h
  have hge : 48 ≤ c.toNat := of_decide_eq_true hge
  have hle : c.toNat ≤ 57 := of_decide_eq_true hle
  constructor
  · exact Text.isLower_of_lt_capitals (by omega)
  · rw [← Bool.not_eq_true]
    intro hsmall
    have hsmall : 97 ≤ c.toNat := of_decide_eq_true (Bool.and_eq_true_iff.mp hsmall).1
    omega

theorem isRemoved_of_isLower (h : c.isLower = true) : isRemoved c = false := by
  rw [← Bool.not_eq_true]
  intro hremoved
  rw [(isLower_of_isRemoved hremoved).2] at h
  cases h

/-- A small letter or an apostrophe. Common words are made of these. -/
def IsPlain (c : Char) : Prop := c = '\x27' ∨ c.isLower = true

instance : Decidable (IsPlain c) := inferInstanceAs (Decidable (_ ∨ _))

/-- The apostrophe is the one such character that cleaning removes. -/
theorem IsPlain.isRemoved_eq (h : IsPlain c) : isRemoved c = (c == '\x27') := by
  rcases h with rfl | hletter
  · rfl
  · rw [isRemoved_of_isLower hletter, eq_comm, beq_eq_false_iff_ne]
    rintro rfl
    cases hletter

/-! ### Lower case -/

/-- A character that stays has no character in its lower-case form that goes, if this is plain. -/
theorem isRemoved_of_mem_lowerChar {d : Char} (hd : d ∈ Text.lowerChar c) (hplain : IsPlain d)
    (hc : isRemoved c = false) : isRemoved d = false := by
  rw [← Bool.not_eq_true]
  intro hremoved
  have hquote : d = '\x27' := by rwa [hplain.isRemoved_eq, beq_iff_eq] at hremoved
  have hmark : d ∈ Text.marks := by
    rw [hquote]
    exact List.mem_cons_self
  rw [Text.eq_of_mem_lowerChar hmark hd, hremoved] at hc
  cases hc

/-- A character that becomes plain is not the one whose form depends on what surrounds it. -/
theorem lowerAt_eq_lowerChar {casedBefore : Bool}
    (h : ∀ d ∈ Text.lowerAt casedBefore c cs, IsPlain d) (before : Bool) (after : List Char) :
    Text.lowerAt before c after = Text.lowerChar c := by
  have hne : c ≠ 'Σ' := by
    rintro rfl
    have hsigma : ¬ IsPlain 'ς' ∧ ¬ IsPlain 'σ' := by decide
    simp only [Text.lowerAt, beq_self_eq_true, if_true, List.mem_singleton, forall_eq] at h
    split at h
    · exact hsigma.1 h
    · exact hsigma.2 h
  rw [Text.lowerAt, beq_eq_false_iff_ne.mpr hne]
  rfl

/-- Cleaning before lower-casing is the same as after it if only plain characters come out. -/
theorem lowerFrom_filter (casedBefore before : Bool)
    (h : ∀ d ∈ Text.lowerFrom casedBefore cs, IsPlain d) :
    Text.lowerFrom before (cs.filter fun c => !isRemoved c) =
      (Text.lowerFrom casedBefore cs).filter fun c => !isRemoved c := by
  induction cs generalizing casedBefore before with
  | nil => rfl
  | cons c cs ih =>
    rw [Text.lowerFrom_cons] at h ⊢
    have hhere := fun d hd => h d (List.mem_append_left _ hd)
    have hrest := fun before => ih _ before fun d hd => h d (List.mem_append_right _ hd)
    have hat := lowerAt_eq_lowerChar hhere
    rw [hat] at hhere ⊢
    rw [List.filter_append]
    cases hc : isRemoved c with
    | true =>
      have hgone : ∀ ds : List Char,
          ((c :: ds).filter fun c => !isRemoved c) = ds.filter fun c => !isRemoved c := by
        intro ds
        rw [List.filter_cons_of_neg]
        rw [hc]
        exact Bool.false_ne_true
      rw [hgone, (isLower_of_isRemoved hc).1.2, hgone, List.filter_nil, List.nil_append]
      exact hrest before
    | false =>
      have hkept : ∀ d ∈ Text.lowerChar c, (!isRemoved d) = true := by
        intro d hd
        rw [isRemoved_of_mem_lowerChar hd (hhere d hd) hc]
        rfl
      rw [List.filter_cons_of_pos (by rw [hc]; rfl), Text.lowerFrom_cons, hat,
        List.filter_eq_self.mpr hkept]
      exact congrArg _ (hrest _)

/-! ### The list -/

/-- A text as one number. Numbers are compared faster than texts. -/
def code (cs : List Char) : Nat := cs.foldl (fun n c => n * 0x110000 + c.toNat) 0

/-- What holds of the common words as they are listed: they are plain, no word is an apostrophe
alone, and most of those with an apostrophe are no common words without it. -/
structure IsListed (entry : String) : Prop where
  plain : ∀ c ∈ entry.toList, IsPlain c
  letter : ∃ c ∈ entry.toList, c.isLower = true
  stays : StaysCommon entry ∨ String.ofList (entry.toList.filter fun c => c != '\x27') ∉ stopWords

theorem isListed_of_mem_stopWords (h : entry ∈ stopWords) : IsListed entry := by
  have hall : stopWords.all (fun entry => entry.toList.all (fun c => decide (IsPlain c)) &&
      entry.toList.any Char.isLower && (decide (StaysCommon entry) ||
        !(stopWords.map fun other => code other.toList).contains
          (code (entry.toList.filter fun c => c != '\x27')))) = true := by decide +kernel
  have hentry := List.all_eq_true.mp hall entry h
  simp only [Bool.and_eq_true, List.all_eq_true, List.any_eq_true, Bool.or_eq_true,
    decide_eq_true_eq] at hentry
  obtain ⟨⟨hplain, hletter⟩, hstays⟩ := hentry
  refine ⟨hplain, hletter, hstays.imp_right fun hother hmem => ?_⟩
  have hcode := List.mem_map_of_mem (f := fun other : String => code other.toList) hmem
  rw [String.toList_ofList] at hcode
  rw [List.contains_iff_mem.mpr hcode] at hother
  cases hother

theorem clean_of_mem_stopWords (h : entry ∈ stopWords) :
    clean entry = String.ofList (entry.toList.filter fun c => c != '\x27') := by
  refine congrArg String.ofList (List.filter_congr fun c hc => ?_)
  rw [((isListed_of_mem_stopWords h).plain c hc).isRemoved_eq]
  rfl

/-- Cleaning leaves a common word common if it has nothing to take out, and two of the others. -/
theorem clean_mem_stopWords_iff (h : entry ∈ stopWords) :
    clean entry ∈ stopWords ↔ StaysCommon entry := by
  constructor
  · intro hclean
    rw [clean_of_mem_stopWords h] at hclean
    exact (isListed_of_mem_stopWords h).stays.resolve_right fun hother => hother hclean
  · rintro (hnone | htwo)
    · have hkept : ∀ c ∈ entry.toList, (c != '\x27') = true := by
        intro c hc
        rw [bne_iff_ne]
        rintro rfl
        exact hnone hc
      rw [clean_of_mem_stopWords h, List.filter_eq_self.mpr hkept, String.ofList_toList]
      exact h
    · have hboth : ∀ entry ∈ ["it's", "we're"], clean entry ∈ stopWords := by decide +kernel
      exact hboth entry htwo

/-! ### Words -/

theorem clean_append (s t : String) : clean (s ++ t) = clean s ++ clean t := by
  rw [clean, String.toList_append, List.filter_append, String.ofList_append]
  rfl

theorem clean_of_removed (h : ∀ c ∈ s.toList, isRemoved c = true) : clean s = "" := by
  have hnone : (s.toList.filter fun c => !isRemoved c) = [] := by
    rw [List.filter_eq_nil_iff]
    intro c hc
    rw [h c hc]
    exact Bool.false_ne_true
  rw [clean, hnone]

theorem lower_clean (h : ∀ c ∈ (Text.lower s).toList, IsPlain c) :
    Text.lower (clean s) = clean (Text.lower s) := by
  rw [Text.lower, String.toList_ofList] at h
  rw [Text.lower, clean, String.toList_ofList, Text.lowerChars, lowerFrom_filter false false h,
    clean, Text.lower, String.toList_ofList]
  rfl

/-- What is left of a common word, in lower case, is what is left of its entry. -/
theorem lower_clean_of_isSpelling (hentry : entry ∈ stopWords) (h : IsSpelling entry word) :
    Text.lower (clean word) = clean entry := by
  obtain ⟨front, core, back, rfl, rfl, hremoved⟩ := h
  have hfront := clean_of_removed fun c hc => hremoved c (List.mem_append_left _ hc)
  have hback := clean_of_removed fun c hc => hremoved c (List.mem_append_right _ hc)
  rw [clean_append, clean_append, hfront, hback, String.empty_append, String.append_empty]
  exact lower_clean (isListed_of_mem_stopWords hentry).plain

/-- A word with a letter in its lower-case form is neither digits nor punctuation. -/
theorem isTelling_of_letter {letter : Char} (hletter : letter.isLower = true)
    (hmem : letter ∈ (Text.lower word).toList) : isTelling word = !isStopWord word := by
  have hother : ∀ kept : Char → Bool, (∀ c, kept c = true → Text.IsLower c ∧ c.isLower = false) →
      word.toList.all kept = false := by
    intro kept hkept
    rw [← Bool.not_eq_true, List.all_eq_true]
    intro hword
    rw [Text.lower_of_isLower fun c hc => (hkept c (hword c hc)).1] at hmem
    rw [(hkept letter (hword letter hmem)).2] at hletter
    cases hletter
  have hdigits := hother Char.isDigit fun c => isLower_of_isDigit
  have hmarks := hother keptPunctuation.contains fun c => isLower_of_mem_marks (by decide)
  have hne : word ≠ "" := by
    rintro rfl
    cases hdigits
  rw [isTelling, bne_iff_ne.mpr hne, hdigits, hmarks]
  rfl

/-- What is left of a common word is worth a tag unless it is a common word itself. -/
theorem isTelling_clean_iff (hentry : entry ∈ stopWords) (h : IsSpelling entry word) :
    isTelling (clean word) = true ↔ ¬ StaysCommon entry := by
  obtain ⟨letter, hmem, hletter⟩ := (isListed_of_mem_stopWords hentry).letter
  have hlower := lower_clean_of_isSpelling hentry h
  have hkept : letter ∈ (clean entry).toList := by
    rw [clean, String.toList_ofList, List.mem_filter, isRemoved_of_isLower hletter]
    exact ⟨hmem, rfl⟩
  rw [← hlower] at hkept
  rw [isTelling_of_letter hletter hkept, isStopWord, hlower, Bool.not_eq_true', ← Bool.not_eq_true,
    List.contains_iff_mem, clean_mem_stopWords_iff hentry]

/-! ### Texts -/

theorem ofText_joinWith {texts : List String} (h : ∀ word ∈ texts, word ∈ Text.words s) :
    ofText (Text.joinWith " " texts) = (texts.map clean).filter isTelling := by
  rw [ofText, Text.words_joinWith_space]
  intro word hword
  exact ⟨Text.ne_empty_of_mem_words (h word hword), fun c =>
    Text.isBlank_of_mem_words (h word hword)⟩

/-- A word of a text may be taken out of it without a loss if it is not worth a tag. -/
theorem ofText_eq_without_iff {before after : List String}
    (h : Text.words s = before ++ word :: after) :
    ofText s = ofText (Text.joinWith " " (before ++ after)) ↔ isTelling (clean word) = false := by
  have hrest : ∀ other ∈ before ++ after, other ∈ Text.words s := by
    intro other hother
    rw [h, List.mem_append, List.mem_cons]
    exact (List.mem_append.mp hother).imp_right Or.inr
  rw [ofText_joinWith hrest, ofText, h, List.map_append, List.map_append, List.map_cons,
    List.filter_append, List.filter_append, List.append_cancel_left_eq]
  cases htelling : isTelling (clean word) with
  | false => simp [htelling]
  | true => simp [htelling]

theorem ofText_eq_nil_iff :
    ofText s = [] ↔ ∀ word ∈ Text.words s, isTelling (clean word) = false := by
  simp [ofText, List.filter_eq_nil_iff]

/-- A common word of a text contributes nothing exactly if it stays common. A text of common words
contributes nothing, and leaves a counter as it is, exactly if all of them stay common. -/
theorem ofText_stopWord_iff (s : String) :
    (∀ (word entry : String) (before after : List String), Text.words s = before ++ word :: after →
      entry ∈ stopWords → IsSpelling entry word →
        (ofText s = ofText (Text.joinWith " " (before ++ after)) ↔ StaysCommon entry)) ∧
    ∀ entryOf : String → String,
      (∀ word ∈ Text.words s, entryOf word ∈ stopWords ∧ IsSpelling (entryOf word) word) →
        ∀ c : WordCounter, (ofText s = [] ∧ c.addText s = c) ↔
          ∀ word ∈ Text.words s, StaysCommon (entryOf word) := by
  have hstays : ∀ word entry, entry ∈ stopWords → IsSpelling entry word →
      (isTelling (clean word) = false ↔ StaysCommon entry) := by
    intro word entry hentry hspelling
    rw [← Bool.not_eq_true, isTelling_clean_iff hentry hspelling, not_not]
  refine ⟨fun word entry before after hwords hentry hspelling => ?_, fun entryOf hcommon c => ?_⟩
  · rw [ofText_eq_without_iff hwords, hstays word entry hentry hspelling]
  · rw [WordCounter.addText_eq_self_iff, and_self, ofText_eq_nil_iff]
    exact forall₂_congr fun word hword =>
      hstays word _ (hcommon word hword).1 (hcommon word hword).2

/-- `The` between brackets and `It's` are common words that are left out. -/
theorem ofText_stopWord_of_the_and_its :
    Text.words "(The) It's Revenue" = ["(The)"] ++ "It's" :: ["Revenue"] ∧
      Text.words "(The) It's" = ["(The)", "It's"] ∧
      ("the" ∈ stopWords ∧ IsSpelling "the" "(The)") ∧
      ("it's" ∈ stopWords ∧ IsSpelling "it's" "It's") ∧
      ofText "(The) It's Revenue" = ofText (Text.joinWith " " (["(The)"] ++ ["Revenue"])) ∧
      ofText "(The) It's" = [] ∧
      WordCounter.addText ⟨[("Revenue", 2)]⟩ "(The) It's" = ⟨[("Revenue", 2)]⟩ := by
  have hwords : Text.words "(The) It's Revenue" =
      ["(The)"] ++ "It's" :: ["Revenue"] := by decide +kernel
  have hcommon : Text.words "(The) It's" = ["(The)", "It's"] := by decide +kernel
  have hthe : "the" ∈ stopWords ∧ IsSpelling "the" "(The)" :=
    ⟨by decide +kernel, "(", "The", ")", by decide +kernel, by decide +kernel,
      List.all_eq_true.mp (by decide +kernel)⟩
  have hits : "it's" ∈ stopWords ∧ IsSpelling "it's" "It's" :=
    ⟨by decide +kernel, "", "It's", "", by decide +kernel, by decide +kernel,
      List.all_eq_true.mp (by decide +kernel)⟩
  refine ⟨hwords, hcommon, hthe, hits, ?_, ?_⟩
  · exact ((ofText_stopWord_iff _).1 _ "it's" _ _ hwords hits.1 hits.2).mpr (by decide +kernel)
  · have htext := (ofText_stopWord_iff "(The) It's").2 fun word =>
        if word = "It's" then "it's" else "the"
    refine (htext ?_ _).mpr (by decide +kernel)
    rw [hcommon]
    intro word hword
    simp only [List.mem_cons, List.not_mem_nil, or_false] at hword
    rcases hword with rfl | rfl
    · exact hthe
    · exact hits

/-- The common word `can't` is offered without its apostrophe, and a counter counts it. -/
theorem not_leftOut_of_apostrophe :
    Text.words "can't" = [] ++ "can't" :: [] ∧ "can't" ∈ stopWords ∧ IsSpelling "can't" "can't" ∧
      ofText "can't" = ["cant"] ∧ ofText (Text.joinWith " " ([] ++ [])) = [] ∧
      WordCounter.addText {} "can't" = ⟨[("cant", 1)]⟩ := by
  refine ⟨?_, ?_, ⟨"", "can't", "", ?_, ?_, List.all_eq_true.mp ?_⟩, ?_, ?_, ?_⟩ <;> decide +kernel

end Catalog.Words
