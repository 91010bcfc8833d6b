import Catalog.Proofs.Query.Entailment
import Catalog.Proofs.Search.Engine
import Catalog.Proofs.Search.Hits

/-!
# When a share is a share

A text with two parts is read twice, once as a whole and once from its outer part alone. A quote
that the inner part leaves open takes the outer part in, so the whole need not ask for what the
outer part asks for, and more items may fit both parts than the outer one.

* `Tree.single` is a tree of one family with one item, which stands for any item in any tree;
* `RatioQuery.IsBounded` says of a text that no more items fit both parts than the outer one, on any
  tree and after any questions;
* `RatioQuery.isBounded_iff` says for which texts this holds.
-/

namespace Catalog

/-! ### A tree for one item -/

namespace Tree

/-- The tree of one family below the root, with an alias and one item. -/
def single (name aliasName title : String) (keywords : List String) : Tree :=
  ((∅ : Tree).create [name]).1.modify 1 fun f => { f with
    aliasName := some aliasName
    items := [{ title := title, index := .ofList (keywords.map fun k => "#" ++ k) }] }

variable {name aliasName title : String} {keywords : List String}

theorem reachable_single : (single name aliasName title keywords).Reachable :=
  .change 1 _ (.create [name] .empty (by decide))

theorem size_single : (single name aliasName title keywords).size = 2 := rfl

theorem items_single : (single name aliasName title keywords).items 0 = [] ∧
    (single name aliasName title keywords).items 1 =
      [{ title := title, index := .ofList (keywords.map fun k => "#" ++ k) }] := ⟨rfl, rfl⟩

theorem aliasesText_single : (single name aliasName title keywords).aliasesText 1 = aliasName := by
  have hsize : 1 < (single name aliasName title keywords).size := by
    rw [size_single]
    decide
  have hfind : (single name aliasName title keywords).find? [name] = some 1 :=
    reachable_single.wellFormed.find?_path hsize
  have hlineage : (single name aliasName title keywords).lineage 1 = [([name], 1)] := by
    show [[name]].filterMap _ = _
    rw [List.filterMap_cons, hfind]
    rfl
  rw [aliasesText, hlineage]
  rfl

theorem searchKeywords_single : Item.searchKeywords
    { title := title, index := .ofList (keywords.map fun k => "#" ++ k) } =
      .ofList (keywords.map Text.lower) := by
  refine SortedSet.ext_mem fun k => ?_
  simp only [Item.searchKeywords, SortedSet.mem_ofList, List.mem_map, SortedSet.mem_toList]
  constructor
  · intro hex
    obtain ⟨_, ⟨word, hword, rfl⟩, rfl⟩ := hex
    exact ⟨word, hword, by rw [Keyword.bare_hash]⟩
  · intro hex
    obtain ⟨word, hword, rfl⟩ := hex
    exact ⟨"#" ++ word, ⟨word, hword, rfl⟩, by rw [Keyword.bare_hash]⟩

theorem itemTexts_single {item : Item} (h : item ∈ (single name aliasName title keywords).items 1) :
    (single name aliasName title keywords).itemTexts 1 item =
      .ofTexts name aliasName title keywords := by
  rw [items_single.2, List.mem_singleton] at h
  rw [h, itemTexts, aliasesText_single, searchKeywords_single]
  rfl

/-- Every item is searched by texts of its own. -/
theorem itemTexts_eq (t : Tree) (id : Nat) (item : Item) : t.itemTexts id item =
    .ofTexts (t.pathText id)
      (t.aliasesText id) item.title (item.index.toList.map Keyword.bare) := by
  rw [itemTexts, ItemTexts.ofTexts, Item.searchKeywords, List.map_map]
  rfl

/-- A query finds nothing there exactly if it does not fit the texts of the item. -/
theorem count_search_single_eq_zero_iff {q : Query} {headless : Bool} :
    ((single name aliasName title keywords).search q headless).count = 0 ↔
      q.fits (.ofTexts name aliasName title keywords) = false := by
  rw [reachable_single.wellFormed.count_search_eq_zero_iff]
  constructor
  · intro hnone
    have hone := hnone 1 (by rw [size_single]; decide) _ List.mem_cons_self
    rw [itemTexts_single List.mem_cons_self] at hone
    exact hone
  · intro hfits id hid item hitem
    have hcases : id = 0 ∨ id = 1 := by
      rw [size_single] at hid
      omega
    rcases hcases with rfl | rfl
    · rw [items_single.1] at hitem
      cases hitem
    · rw [itemTexts_single hitem]
      exact hfits

end Tree

/-- A query that never finds more than another one entails it. -/
theorem Query.entails_of_count_le {q r : Query}
    (h : ∀ t : Tree, t.Reachable → (t.search q true).count ≤ (t.search r true).count) :
    q.Entails r := by
  intro path aliases title keywords hq
  rw [← Bool.not_eq_false]
  intro hr
  let t := Tree.single path aliases title keywords
  have hle : (t.search q true).count ≤ (t.search r true).count := h t Tree.reachable_single
  have hnone : (t.search r true).count = 0 := Tree.count_search_single_eq_zero_iff.mpr hr
  rw [hnone, Nat.le_zero, Tree.count_search_single_eq_zero_iff, hq] at hle
  cases hle

/-! ### Bounded shares -/

namespace RatioQuery

/-- The query for both parts of a text. -/
def fullQuery (s : String) : Query := Query.parse (ofText s).full

/-- The query for the outer part of a text. -/
def outerQuery (s : String) : Query := Query.parse (ofText s).outer

/-- On every tree and after any calls to an engine, no more items fit both parts of a text than the
outer one. -/
def IsBounded (s : String) : Prop :=
  ∀ (t : Tree) (calls : List EngineCall) (headless : Bool), t.Reachable →
    let answer := (((SearchEngine.ofTree t).after calls).searchRatio s headless).1
    answer.result.count ≤ answer.total

variable {s : String}

theorem isBounded_of_entails (h : (ofText s).outer = "" ∨ (fullQuery s).Entails (outerQuery s)) :
    IsBounded s := by
  intro t calls headless ht
  rw [SearchEngine.searchRatio_after]
  show (t.search (fullQuery s) headless).count ≤ if _ then t.itemCount
    else (t.search (outerQuery s) true).count
  by_cases hempty : ((ofText s).outer == "") = true
  · rw [if_pos hempty]
    exact ht.wellFormed.count_search_le _ _
  · rw [if_neg hempty]
    have hentails := h.resolve_left fun houter => hempty (by rw [houter]; rfl)
    refine Tree.count_search_mono (fun id item _ hfits => ?_) headless true
    rw [Tree.itemTexts_eq] at hfits ⊢
    exact hentails _ _ _ _ hfits

theorem entails_of_isBounded (h : IsBounded s) (hne : (ofText s).outer ≠ "") :
    (fullQuery s).Entails (outerQuery s) := by
  refine Query.entails_of_count_le fun t ht => ?_
  have hbound := h t [] true ht
  rw [SearchEngine.searchRatio_after] at hbound
  have hbound : (t.search (fullQuery s) true).count ≤
      if ((ofText s).outer == "") = true then t.itemCount
        else (t.search (outerQuery s) true).count := hbound
  rw [if_neg (by simpa using hne)] at hbound
  exact hbound

/-- Where the inner part leaves nothing open, the whole asks for all that the outer part asks
for. -/
theorem covers_of_isClosed (h : Text.IsClosed (Text.lower (ofText s).inner)) :
    (fullQuery s).covers (outerQuery s) = true := by
  refine Query.covers_of_subset fun w hw => ?_
  obtain ⟨hne, token, htoken, rfl⟩ := Query.mem_asked_ofTokens.mp hw
  refine Query.mem_asked_ofTokens.mpr ⟨hne, token, ?_, rfl⟩
  rw [full, Text.lower_append_space]
  exact Text.mem_splitTokens_append h htoken

theorem isApart_of_mem {separator : Char} {w : QueryWord}
    (hsep : separator ∉ (Text.lower (ofText s).full).toList)
    (hw : w ∈ (fullQuery s).asked ∨ w ∈ (outerQuery s).asked) : w.IsApart separator := by
  have hchars : ∀ c ∈ w.word.toList, c ∈ (Text.lower (ofText s).full).toList := by
    intro c hc
    rcases hw with hw | hw
    · exact Query.mem_lower_of_mem_parse hw hc
    · rw [full, Text.lower_append_space, String.toList_append]
      exact List.mem_append_right _ (Query.mem_lower_of_mem_parse hw hc)
  have hne : w.word ≠ "" := hw.elim Query.word_ne_of_mem_parse Query.word_ne_of_mem_parse
  exact ⟨hne, fun c hc => Text.isLower_of_mem_lower (hchars c hc), fun hmem =>
    hsep (hchars separator hmem)⟩

/-- A share is bounded exactly if the whole text asks for what its outer part asks for. The words of
the two queries show this as long as some character in lower case is left to keep them apart, and it
is so whenever the inner part leaves no quote and no backslash open. -/
theorem isBounded_iff (s : String) :
    (IsBounded s ↔ (ofText s).outer = "" ∨ (fullQuery s).Entails (outerQuery s)) ∧
      ((fullQuery s).covers (outerQuery s) = true → (fullQuery s).Entails (outerQuery s)) ∧
      (∀ c, Text.IsLower c → c ∉ (Text.lower (ofText s).full).toList →
        (fullQuery s).Entails (outerQuery s) → (fullQuery s).covers (outerQuery s) = true) ∧
      (Text.IsClosed (Text.lower (ofText s).inner) →
        (fullQuery s).covers (outerQuery s) = true) := by
  refine ⟨⟨fun h => ?_, isBounded_of_entails⟩, Query.entails_of_covers,
    fun c hc hnew h => ?_, covers_of_isClosed⟩
  · by_cases hempty : (ofText s).outer = ""
    · exact Or.inl hempty
    · exact Or.inr (entails_of_isBounded h hempty)
  · exact Query.covers_of_entails hc (fun w hw => isApart_of_mem hnew (Or.inl hw))
      (fun w hw => isApart_of_mem hnew (Or.inr hw)) h

/-- A quote left open on both sides: together they enclose a blank, which two items have in their
titles, and the outer one alone is a word of its own, which one item has. -/
theorem count_gt_total_of_open_quotes :
    let t := ((∅ : Tree).create ["Numbers"]).1.modify 1 fun f => { f with
      items := [{ title := "a b" }, { title := "c d" }, { title := "\"" }] }
    let answer := ((SearchEngine.ofTree t).searchRatio "\" | \"" true).1
    t.Reachable ∧ answer.total = 1 ∧ answer.result.count = 2 ∧ ¬ IsBounded "\" | \"" := by
  intro t answer
  have ht : t.Reachable := .change 1 _ (.create ["Numbers"] .empty (by decide))
  have hanswer : answer.total = 1 ∧ answer.result.count = 2 := by decide +kernel
  refine ⟨ht, hanswer.1, hanswer.2, fun h => ?_⟩
  have hle : answer.result.count ≤ answer.total := h t [] true ht
  rw [hanswer.1, hanswer.2] at hle
  omega

end RatioQuery

end Catalog
