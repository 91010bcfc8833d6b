import Catalog.Proofs.Search.Shown
import Catalog.Proofs.Text.Leading

/-!
# Excluding what a text finds

A `-` in front of a text that is read as one token attaches to this token and makes its word
unwanted, and nothing else changes: the word is a keyword or not as before, and it is there or
missing as before. So the two texts share out the items of a tree.

* `QueryWord.negate` is the same word on the other side, and `QueryWord.ofToken_append_minus` says
  that the `-` puts it there;
* `Query.parse_append_minus` says so of texts of one token;
* `Tree.SharesOut` says that every item fits one of two queries and not the other, and
  `Tree.WellFormed.sharesOut_append_minus` that a text and the text behind a `-` do this.
-/

namespace Catalog

namespace QueryWord

variable {w : QueryWord} {token : String}

/-- The same word, unwanted if it was wanted and wanted if it was not. -/
def negate (w : QueryWord) : QueryWord := { w with isUnwanted := !w.isUnwanted }

/-- Whether a word is there does not depend on whether it is wanted. -/
theorem fits_negate (w : QueryWord) (e : ItemTexts) : w.negate.fits e = !w.fits e := by
  have hborne : w.negate.isBorne e = w.isBorne e := rfl
  have hside : w.negate.isUnwanted = !w.isUnwanted := rfl
  rw [fits, fits, hborne, hside]
  cases w.isBorne e <;> cases w.isUnwanted <;> rfl

/-- A `-` in front of a token that has none makes its word unwanted. -/
theorem ofToken_append_minus (h : Text.startsWith '-' token = false) :
    ofToken (String.singleton '-' ++ token) = (ofToken token).negate := by
  have hchars : (String.singleton '-' ++ token).toList = '-' :: token.toList := by
    rw [String.toList_append, String.toList_singleton, List.singleton_append]
  have hbare : Text.dropLeading '-' (String.singleton '-' ++ token) =
      Text.dropLeading '-' token := by
    rw [Text.dropLeading, Text.dropLeading, hchars, List.dropWhile_cons_of_pos (by rfl)]
  have hunwanted : Text.startsWith '-' (String.singleton '-' ++ token) = true :=
    Text.startsWith_iff.mpr ⟨token.toList, hchars⟩
  simp only [ofToken, hbare, hunwanted, h]
  cases Text.afterLeading '#' (Text.dropLeading '-' token) <;> rfl

/-- A token without `-` in front stands for a word unless it is empty or a bare `#`. -/
theorem word_ofToken_ne (hne : token ≠ "") (hhash : token ≠ "#")
    (h : Text.startsWith '-' token = false) : (ofToken token).word ≠ "" := by
  rw [ofToken, Text.dropLeading_of_not_startsWith h]
  cases hkeyword : Text.afterLeading '#' token with
  | none => exact hne
  | some keyword =>
    rintro rfl
    exact hhash (String.toList_inj.mp (Text.afterLeading_eq_some_iff.mp hkeyword))

end QueryWord

namespace Query

variable {s token : String} {e : ItemTexts}

/-- A query of one token fits where the word of the token does. -/
theorem fits_ofTokens_singleton (h : (QueryWord.ofToken token).word ≠ "") :
    (ofTokens [token]).fits e = (QueryWord.ofToken token).fits e := by
  have hasked : ∀ w, w ∈ (ofTokens [token]).asked ↔ w = QueryWord.ofToken token := by
    intro w
    rw [mem_asked_ofTokens]
    constructor
    · rintro ⟨_, other, hother, rfl⟩
      rw [List.mem_singleton.mp hother]
    · rintro rfl
      exact ⟨h, token, List.mem_singleton_self token, rfl⟩
  rw [Bool.eq_iff_iff, fits_iff_asked]
  simp only [hasked, forall_eq]

/-- A `-` in front of a text that starts with no blank attaches to its first token. -/
theorem parse_append_minus (hflush : Text.IsFlush s.toList)
    (htokens : Text.splitTokens (Text.lower s) = [token]) :
    parse (String.singleton '-' ++ s) = ofTokens [String.singleton '-' ++ token] := by
  have hminus : Text.IsSeparator '-' := Text.isSeparator_of_mem (by decide)
  rw [parse, Text.lower_append_separator hminus,
    Text.splitTokens_append_plain (by decide) (by decide) (Text.isFlush_lower hflush) htokens]

end Query

namespace Tree

variable {t : Tree} {q r : Query}

/-- Two queries share out the items of a tree: each item fits one of them and not the other. What
the second returns is what the first leaves out, and the numbers of items that they find add up to
that of all items. -/
structure SharesOut (t : Tree) (q r : Query) : Prop where
  fits_one : ∀ id, ∀ item ∈ t.items id, item ∈ t.fitting r id ↔ item ∉ t.fitting q id
  first : t.Returns q (t.isMatch q)
  second : t.Returns r fun id item => !t.isMatch q id item
  count : ∀ headless headless',
    (t.search q headless).count + (t.search r headless').count = t.itemCount

/-- Items that a condition picks and those that it does not pick are all items. -/
theorem length_flatMap_filter_add (p : Nat → Item → Bool) (places : List Nat)
    (items : Nat → List Item) : (places.flatMap fun id => (items id).filter (p id)).length +
        (places.flatMap fun id => (items id).filter fun item => !p id item).length =
      (places.flatMap items).length := by
  induction places with
  | nil => rfl
  | cons id places ih =>
    have hhere := List.length_eq_length_filter_add (l := items id) (p id)
    simp only [List.flatMap_cons, List.length_append]
    omega

theorem WellFormed.sharesOut_of_fits (h : t.WellFormed)
    (hfits : ∀ id, ∀ item ∈ t.items id, t.isMatch r id item = !t.isMatch q id item) :
    t.SharesOut q r := by
  have hfirst := t.returns_isMatch q
  have hsecond : t.Returns r fun id item => !t.isMatch q id item := returns_of_fits hfits
  refine ⟨?_, hfirst, hsecond, ?_⟩
  · intro id item hitem
    rw [hsecond.fitting, hfirst.fitting, List.mem_filter, List.mem_filter]
    simp [hitem]
  · intro headless headless'
    rw [hfirst.count, hsecond.count, length_flatMap_filter_add, h.length_items_all]

/-- Of any tree, a text that is read as one token and the text behind a `-` share out the items,
whether the token is quoted or not, a keyword or not. The text must not start with a blank, and its
token must stand for a wanted word. -/
theorem WellFormed.sharesOut_append_minus (h : t.WellFormed) {s token : String}
    (hflush : Text.IsFlush s.toList) (htokens : Text.splitTokens (Text.lower s) = [token])
    (hne : token ≠ "") (hhash : token ≠ "#") (hminus : Text.startsWith '-' token = false) :
    t.SharesOut (Query.parse s) (Query.parse ("-" ++ s)) := by
  have hword := QueryWord.word_ofToken_ne hne hhash hminus
  have hnegated := QueryWord.ofToken_append_minus hminus
  have hword' : (QueryWord.ofToken (String.singleton '-' ++ token)).word ≠ "" := by
    rw [hnegated]
    exact hword
  apply h.sharesOut_of_fits
  intro id item _
  show (Query.parse (String.singleton '-' ++ s)).fits _ = !(Query.parse s).fits _
  rw [Query.parse_append_minus hflush htokens, Query.parse, htokens,
    Query.fits_ofTokens_singleton hword', Query.fits_ofTokens_singleton hword, hnegated,
    QueryWord.fits_negate]

/-- A quoted phrase whose quotes leave a letter outside, in a tree where one of three items has
it. -/
theorem sharesOut_of_quoted_phrase :
    let t := ((∅ : Tree).create ["Sales", "North"]).1.modify 2 fun f =>
      { f with items := [{ title := "Year ends" }, { title := "Year" },
        { title := "Ends", number := some 3 }] }
    let s := "\x27Year End\x27S"
    (t.WellFormed ∧ Text.IsFlush s.toList ∧ Text.splitTokens (Text.lower s) = ["year ends"] ∧
        Text.startsWith '-' "year ends" = false) ∧
      t.SharesOut (Query.parse s) (Query.parse ("-" ++ s)) ∧
      (t.search (Query.parse ("-" ++ s)) false).shownAt "Sales/North" =
        [⟨"Year", "", [], none⟩, ⟨"Ends", "", [], some 3⟩] := by
  intro t s
  have hreachable : t.Reachable := .change 2 _ (.create _ .empty (by decide))
  have h : t.WellFormed := hreachable.wellFormed
  have hflush : Text.IsFlush s.toList := by
    have hhead : s.toList.head? = some '\x27' := by decide +kernel
    intro b hb
    rw [hhead] at hb
    cases hb
    decide
  have htokens : Text.splitTokens (Text.lower s) = ["year ends"] := by decide +kernel
  have hminus : Text.startsWith '-' "year ends" = false := by decide
  exact ⟨⟨h, hflush, htokens, hminus⟩,
    h.sharesOut_append_minus hflush htokens (by decide) (by decide) hminus, by decide +kernel⟩

end Tree

end Catalog
