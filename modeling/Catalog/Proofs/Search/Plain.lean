import Catalog.Proofs.Search.Share
import Catalog.Proofs.Text.Ends

/-!
# Texts without a bar

A text without `|` asks for the share of all items that fit it. It is read without the blanks at its
ends and with a space behind it. A backslash at the end takes that space, while the text as it is
has none to offer, or another blank.

* `RatioQuery.AgreesWithPlain` says of a text that its share comes with the result of a plain
  search, on any tree and after any questions;
* `fullQuery_eq_of_not_escaping` and `fullQuery_ne_of_escaping` compare the two queries;
* `RatioQuery.agreesWithPlain_iff` says for which texts the results agree, and
  `not_agreesWithPlain_of_escaping` is a text for which they do not.
-/

namespace Catalog.RatioQuery

variable {s : String}

/-- On every tree and after any calls to an engine, the share of a text comes with the result of a
plain search for that text. -/
def AgreesWithPlain (s : String) : Prop :=
  ∀ (t : Tree) (calls : List EngineCall) (headless : Bool), t.Reachable →
    let engine := (SearchEngine.ofTree t).after calls
    (engine.searchRatio s headless).1.result = (engine.searchText s headless).1

/-! ### What is searched for -/

/-- After any run of calls, the two results are those of the two queries. -/
theorem results_after (t : Tree) (calls : List EngineCall) (s : String) (headless : Bool) :
    let engine := (SearchEngine.ofTree t).after calls
    (engine.searchRatio s headless).1.result = t.search (fullQuery s) headless ∧
      (engine.searchText s headless).1 = t.search (Query.parse s) headless := by
  intro engine
  obtain ⟨htree, hfaithful⟩ :=
    SearchEngine.isFaithful_after (SearchEngine.isFaithful_ofTree t) calls
  have hplain := (SearchEngine.searchText_of_isFaithful hfaithful s headless).1
  rw [htree] at hplain
  refine ⟨?_, hplain⟩
  show (((SearchEngine.ofTree t).after calls).searchRatio s headless).1.result = _
  rw [SearchEngine.searchRatio_after]
  rfl

/-- The results agree exactly if each of the two queries entails the other. -/
theorem agreesWithPlain_iff_entails :
    AgreesWithPlain s ↔ (fullQuery s).Entails (Query.parse s) ∧
      (Query.parse s).Entails (fullQuery s) := by
  constructor
  · intro h
    have hcount : ∀ t : Tree, t.Reachable →
        (t.search (fullQuery s) true).count = (t.search (Query.parse s) true).count := by
      intro t ht
      obtain ⟨hshare, hplain⟩ := results_after t [] s true
      rw [← hshare, ← hplain, h t [] true ht]
    exact ⟨Query.entails_of_count_le fun t ht => (hcount t ht).le,
      Query.entails_of_count_le fun t ht => (hcount t ht).ge⟩
  · intro h t calls headless _
    obtain ⟨hshare, hplain⟩ := results_after t calls s headless
    show _ = _
    rw [hshare, hplain]
    refine Tree.search_congr (fun id item _ => ?_) headless
    rw [Tree.itemTexts_eq, Bool.eq_iff_iff]
    exact ⟨h.1 _ _ _ _, h.2 _ _ _ _⟩

/-! ### The two queries -/

theorem ofText_of_not_mem (hbar : '|' ∉ s.toList) : ofText s = ⟨Text.trim s, ""⟩ := by
  have hnone : s.toList.dropWhile (· != '|') = [] := by
    rw [List.dropWhile_eq_nil_iff]
    intro c hc
    rw [bne_iff_ne]
    rintro rfl
    exact hbar hc
  rw [ofText, hnone]

theorem lower_full_of_not_mem (hbar : '|' ∉ s.toList) :
    Text.lower (ofText s).full = Text.lower (Text.trim s) ++ " " := by
  have hempty : Text.lower "" = "" := rfl
  rw [ofText_of_not_mem hbar, full, Text.lower_append_space, hempty, String.append_empty]

theorem fullQuery_of_not_mem (hbar : '|' ∉ s.toList) :
    fullQuery s = Query.ofTokens (Text.splitTokens (Text.lower (Text.trim s) ++ " ")) := by
  rw [fullQuery, Query.parse, lower_full_of_not_mem hbar]

/-- The queries are the same unless a backslash at the end takes something else than a space. -/
theorem fullQuery_eq_of_not_escaping (hbar : '|' ∉ s.toList)
    (h : Text.endsEscaping (Text.lower (Text.trim s)) = true →
      (Text.blanksAfter s).head? = some ' ') :
    fullQuery s = Query.parse s := by
  rw [fullQuery_of_not_mem hbar, Text.splitTokens_lower_trim h, Query.parse]

/-- They differ if a backslash at the end of the text has nothing to take there: the plain query has
no word with a blank in it. -/
theorem fullQuery_ne_of_escaping (hbar : '|' ∉ s.toList)
    (h : Text.endsEscaping (Text.lower (Text.trim s)) = true) (hnone : Text.blanksAfter s = []) :
    fullQuery s ≠ Query.parse s := by
  obtain ⟨tokens, w, hsplit⟩ := Text.exists_splitTokens_of_endsEscaping h
  have hspace : ' ' ∈ (w ++ " ").toList := by
    rw [String.toList_append]
    exact List.mem_append_right _ List.mem_cons_self
  let word := QueryWord.ofToken (w ++ " ")
  have hword : ' ' ∈ word.word.toList := Query.mem_ofToken_of_mem hspace (by decide) (by decide)
  have hasked : word ∈ (fullQuery s).asked := by
    rw [fullQuery_of_not_mem hbar, hsplit]
    refine Query.mem_asked_ofTokens.mpr ⟨?_, w ++ " ",
      List.mem_append_right _ List.mem_cons_self, rfl⟩
    intro hempty
    rw [hempty] at hword
    cases hword
  intro heq
  rw [heq, Query.parse] at hasked
  obtain ⟨_, token, htoken, hof⟩ := Query.mem_asked_ofTokens.mp hasked
  have htokens : Text.tokens? (Text.lower s).toList = none := by
    rw [Text.tokens?_lower_eq_trim, hnone, List.append_nil]
    exact (Text.endsEscaping_iff.mp h).1
  rw [Text.splitTokens_of_none htokens] at htoken
  have hblank : Text.isBlank ' ' = false :=
    Text.isBlank_of_mem_words htoken (Query.mem_of_mem_ofToken (by rw [hof]; exact hword))
  cases hblank

/-! ### Words that keep apart -/

theorem mem_lower_of_mem_lower_full (hbar : '|' ∉ s.toList) {c : Char}
    (h : c ∈ (Text.lower (ofText s).full).toList) : c = ' ' ∨ c ∈ (Text.lower s).toList := by
  rw [lower_full_of_not_mem hbar, String.toList_append, List.mem_append] at h
  rcases h with h | h
  · right
    rw [Text.toList_lower_eq_trim]
    exact List.mem_append_right _ (List.mem_append_left _ h)
  · exact Or.inl (List.mem_singleton.mp h)

theorem isApart_of_mem_plain {separator : Char} (hsep : separator ∉ (Text.lower s).toList)
    {w : QueryWord} (hw : w ∈ (Query.parse s).asked) : w.IsApart separator :=
  ⟨Query.word_ne_of_mem_parse hw, fun _ hc =>
    Text.isLower_of_mem_lower (Query.mem_lower_of_mem_parse hw hc),
    fun hmem => hsep (Query.mem_lower_of_mem_parse hw hmem)⟩

/-! ### Which texts agree -/

/-- The share of a text without a bar comes with the result of a plain search exactly if the two
queries entail each other. The words of the queries show this as long as some character in lower
case is left to keep them apart. The queries are the same unless the text without the blanks at its
ends leaves a backslash open and is not followed by a space, and differ if it is followed by
nothing. -/
theorem agreesWithPlain_iff (s : String) (hbar : '|' ∉ s.toList) :
    (AgreesWithPlain s ↔
      (fullQuery s).Entails (Query.parse s) ∧ (Query.parse s).Entails (fullQuery s)) ∧
      ((fullQuery s).covers (Query.parse s) = true ∧ (Query.parse s).covers (fullQuery s) = true →
        AgreesWithPlain s) ∧
      (∀ c, Text.IsLower c → c ≠ ' ' → c ∉ (Text.lower s).toList → AgreesWithPlain s →
        (fullQuery s).covers (Query.parse s) = true ∧ (Query.parse s).covers (fullQuery s) = true) ∧
      ((Text.endsEscaping (Text.lower (Text.trim s)) = true →
        (Text.blanksAfter s).head? = some ' ') → fullQuery s = Query.parse s) ∧
      (Text.endsEscaping (Text.lower (Text.trim s)) = true → Text.blanksAfter s = [] →
        fullQuery s ≠ Query.parse s) := by
  refine ⟨agreesWithPlain_iff_entails, ?_, ?_, fullQuery_eq_of_not_escaping hbar,
    fullQuery_ne_of_escaping hbar⟩
  · intro h
    exact agreesWithPlain_iff_entails.mpr ⟨Query.entails_of_covers h.1, Query.entails_of_covers h.2⟩
  · intro c hc hspace hnew h
    obtain ⟨hfull, hplain⟩ := agreesWithPlain_iff_entails.mp h
    have hnew' : c ∉ (Text.lower (ofText s).full).toList :=
      fun hmem => (mem_lower_of_mem_lower_full hbar hmem).elim hspace hnew
    have hfullApart : ∀ w ∈ (fullQuery s).asked, w.IsApart c :=
      fun w hw => isApart_of_mem hnew' (Or.inl hw)
    have hplainApart : ∀ w ∈ (Query.parse s).asked, w.IsApart c :=
      fun w hw => isApart_of_mem_plain hnew hw
    exact ⟨Query.covers_of_entails hc hfullApart hplainApart hfull,
      Query.covers_of_entails hc hplainApart hfullApart hplain⟩

/-- A backslash that is followed by a space takes the same space in both queries. -/
theorem agreesWithPlain_of_escaped_space :
    '|' ∉ "a\\ ".toList ∧ Text.endsEscaping (Text.lower (Text.trim "a\\ ")) = true ∧
      AgreesWithPlain "a\\ " := by
  have hbar : '|' ∉ "a\\ ".toList := by decide
  obtain ⟨_, hcovers, _, hsame, _⟩ := agreesWithPlain_iff "a\\ " hbar
  have heq : fullQuery "a\\ " = Query.parse "a\\ " := hsame fun _ => by decide +kernel
  refine ⟨hbar, by decide +kernel, hcovers ?_⟩
  rw [heq]
  exact ⟨Query.covers_of_subset (List.Subset.refl _), Query.covers_of_subset (List.Subset.refl _)⟩

/-- A backslash at the very end takes the space that is put behind it, so that the share is that of
the titles with `a` and a space. The plain search finds the titles with `a` and a backslash. -/
theorem not_agreesWithPlain_of_escaping :
    let t := ((∅ : Tree).create ["Numbers"]).1.modify 1 fun f => { f with
      items := [{ title := "a b" }, { title := "a\\b" }] }
    let engine := SearchEngine.ofTree t
    let titles := fun r : SearchResult =>
      (r.found.get? "Numbers").map fun found => found.map MatchedItem.title
    '|' ∉ "a\\".toList ∧ t.Reachable ∧
      titles (engine.searchRatio "a\\" false).1.result = some ["a b"] ∧
      titles (engine.searchText "a\\" false).1 = some ["a\\b"] ∧ ¬ AgreesWithPlain "a\\" := by
  intro t engine titles
  have ht : t.Reachable := .change 1 _ (.create ["Numbers"] .empty (by decide))
  have hshare : titles (engine.searchRatio "a\\" false).1.result = some ["a b"] := by decide +kernel
  have hplain : titles (engine.searchText "a\\" false).1 = some ["a\\b"] := by decide +kernel
  refine ⟨by decide, ht, hshare, hplain, fun h => ?_⟩
  have heq : (engine.searchRatio "a\\" false).1.result = (engine.searchText "a\\" false).1 :=
    h t [] false ht
  rw [heq, hplain] at hshare
  exact absurd hshare (by decide)

end Catalog.RatioQuery
