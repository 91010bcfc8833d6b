import Catalog.Proofs.Query.Written
import Catalog.Proofs.Search.Shown
import Catalog.Proofs.Tree.Paths

/-!
# Finding items by their own texts

A text that is searched for as a phrase is read as one word, unless it starts with `-` or `#`. The
query is lower-cased before it is read, and what it is held against is lower-cased on its own, but
the phrase and the text come to the same. So an item is found by each text that a query is held
against.

* `Query.mem_asked_parse_phrase` says what a phrase is read as;
* `Tree.ownTexts` lists the texts of an item: its title, the path of its family, and the aliases
  along this path;
* `Tree.WellFormed.finds_phrase_of_ownText` says that the phrase of each of them finds the item.
-/

namespace Catalog

/-- A token without a mark in front is a word that is wanted. -/
theorem QueryWord.ofToken_of_bare {token : String} (hminus : Text.startsWith '-' token = false)
    (hhash : Text.startsWith '#' token = false) : ofToken token = ⟨false, false, token⟩ := by
  rw [ofToken, Text.dropLeading_of_not_startsWith hminus, Text.afterLeading_eq_none_iff.mpr hhash,
    hminus]

namespace Query

variable {s : String} {w : QueryWord}

/-- A phrase asks for its text in lower case, or for nothing if it is empty. -/
theorem mem_asked_parse_phrase (hminus : Text.startsWith '-' s = false)
    (hhash : Text.startsWith '#' s = false) :
    w ∈ (parse (Text.phrase s)).asked ↔ w.word ≠ "" ∧ w = ⟨false, false, Text.lower s⟩ := by
  have hminus' : Text.startsWith '-' (Text.lower s) = false := by
    rw [Text.startsWith_lower (Text.mem_marks_of_mem (by decide))]
    exact hminus
  have hhash' : Text.startsWith '#' (Text.lower s) = false := by
    rw [Text.startsWith_lower (Text.mem_marks_of_mem (by decide))]
    exact hhash
  have htokens : Text.splitTokens (Text.phrase (Text.lower s)) = [Text.lower s] :=
    Text.splitTokens_phrases [Text.lower s]
  rw [parse, Text.lower_phrase, htokens, mem_asked_ofTokens]
  simp only [List.mem_singleton, exists_eq_left, QueryWord.ofToken_of_bare hminus' hhash']
  rw [eq_comm]

end Query

namespace Tree

variable {t : Tree} {q : Query} {id : Nat} {item : Item}

/-- The aliases of the families along the path of a family, from below the root down to the family
itself. -/
def upperAliases (t : Tree) (id : Nat) : List String :=
  (upperPaths (t.node id).path false).map fun path => (t.familyAt path).aliasText

/-- The texts of an item: its title, the path of its family, and the aliases along this path. -/
def ownTexts (t : Tree) (id : Nat) (item : Item) : List String :=
  [item.title, Text.joinWith "/" (t.node id).path, Text.joinWith "/" (t.upperAliases id)]

/-- On a well-formed tree, there is a family at the end of each path that leads to a family, so no
alias is missing. -/
theorem WellFormed.aliasesText_eq (h : t.WellFormed) (hid : id < t.size) :
    t.aliasesText id = Text.joinWith "/" (t.upperAliases id) := by
  have hfound : ∀ path ∈ upperPaths (t.node id).path false,
      ((t.find? path).map fun upper => (path, upper)).map (fun upper =>
        (t.family upper.2).aliasText) = some (t.familyAt path).aliasText := by
    intro path hpath
    obtain ⟨upper, hupper⟩ := h.exists_find?_of_prefix hid (mem_upperPaths_iff.mp hpath).2
    rw [hupper, familyAt_of_find? hupper]
    rfl
  rw [aliasesText, lineage, List.map_filterMap, upperAliases, ← List.filterMap_eq_map]
  exact congrArg (Text.joinWith "/") (List.filterMap_congr hfound)

/-- The texts of an item are those that a query is held against. -/
theorem WellFormed.texts_itemTexts (h : t.WellFormed) (hid : id < t.size) {text : String}
    (htext : text ∈ t.ownTexts id item) : Text.lower text ∈ (t.itemTexts id item).texts := by
  simp only [ownTexts, ← h.aliasesText_eq hid, List.mem_cons, List.not_mem_nil, or_false] at htext
  rcases htext with rfl | rfl | rfl
  · simp [itemTexts]
  · simp [itemTexts, pathText]
  · simp [itemTexts]

/-- Every item of a tree fits, and is shown for, the phrase of each of its texts that does not start
with `-` or `#`: its title, the joined path of its family, and the joined aliases of this family and
of those above it below the root. -/
theorem WellFormed.finds_phrase_of_ownText (h : t.WellFormed) {id : Nat} {item : Item}
    (hitem : item ∈ t.items id) {text : String} (htext : text ∈ t.ownTexts id item)
    (hminus : Text.startsWith '-' text = false) (hhash : Text.startsWith '#' text = false) :
    item ∈ t.fitting (Query.parse (Text.phrase text)) id ∧
      t.Finds (Query.parse (Text.phrase text)) id item := by
  have hfits : (Query.parse (Text.phrase text)).fits (t.itemTexts id item) = true := by
    rw [Query.fits_iff_asked]
    intro w hw
    obtain ⟨_, rfl⟩ := (Query.mem_asked_parse_phrase hminus hhash).mp hw
    have hword : (t.itemTexts id item).hasWord (Text.lower text) = true := by
      rw [ItemTexts.hasWord, List.any_eq_true]
      exact ⟨_, h.texts_itemTexts (lt_size_of_mem_items hitem) htext, Text.contains_refl _⟩
    show ((t.itemTexts id item).hasWord (Text.lower text) != false) = true
    rw [hword]
    rfl
  exact ⟨mem_fitting_iff.mpr ⟨hitem, hfits⟩, h.finds_of_fits hitem hfits⟩

/-- A title with quotes in which a letter has another form in lower case at the end of its word, and
an alias with a backslash. -/
theorem finds_phrase_of_quoted_texts :
    let item : Item := { title := "\"ΟΔΟΣ\" 7" }
    let t := ((∅ : Tree).create ["Sales", "North"]).1.modify 2 fun f =>
      { f with aliasName := some "N\\E", items := [item] }
    (t.WellFormed ∧ item ∈ t.items 2 ∧ t.ownTexts 2 item = ["\"ΟΔΟΣ\" 7", "Sales/North", "/N\\E"] ∧
      Text.phrase item.title = "\"\\\"ΟΔΟΣ\\\" 7\"" ∧
      ∀ text ∈ t.ownTexts 2 item,
        Text.startsWith '-' text = false ∧ Text.startsWith '#' text = false) ∧
      ∀ text ∈ t.ownTexts 2 item,
        item ∈ t.fitting (Query.parse (Text.phrase text)) 2 ∧
        t.Finds (Query.parse (Text.phrase text)) 2 item := by
  intro item t
  have hreachable : t.Reachable := .change 2 _ (.create _ .empty (by decide))
  have h : t.WellFormed := hreachable.wellFormed
  have hitem : item ∈ t.items 2 := by
    show item ∈ [item]
    exact List.mem_cons_self
  have hbare : ∀ text ∈ t.ownTexts 2 item, Text.startsWith '-' text = false ∧
      Text.startsWith '#' text = false := by
    decide +kernel
  refine ⟨⟨h, hitem, by decide +kernel, by decide +kernel, hbare⟩, ?_⟩
  intro text htext
  exact h.finds_phrase_of_ownText hitem htext (hbare text htext).1 (hbare text htext).2

end Tree

end Catalog
