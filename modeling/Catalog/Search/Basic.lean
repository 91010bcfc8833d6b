import Catalog.Query.Basic
import Catalog.Tree.Walk

/-!
# Searching

A query is held against every item: its keywords against those of the item, and its other words
against the path of the family, the aliases along that path, and the title. The case of letters does
not matter.

* `ItemTexts` is what a query is held against, and `Query.fits` holds it;
* `Tree.hits` lists the items that a query fits, family by family;
* `Tree.search` is the result of a query.
-/

namespace Catalog

/-! ### One item -/

/-- What a query is held against, all in lower case. -/
structure ItemTexts where
  keywords : SortedSet String
  texts : List String
  deriving DecidableEq

namespace Item

/-- The keywords of an item without `#` and in lower case. -/
def searchKeywords (item : Item) : SortedSet String :=
  SortedSet.ofList (item.index.toList.map fun keyword => Text.lower (Keyword.bare keyword))

end Item

namespace Tree

/-- The path of a family as one text. -/
def pathText (t : Tree) (id : Nat) : String := Text.joinWith "/" (t.node id).path

/-- The families along the path of a family, from below the root down to the family itself. -/
def lineage (t : Tree) (id : Nat) : List (List String × Nat) :=
  (upperPaths (t.node id).path false).filterMap fun path =>
    (t.find? path).map fun upper => (path, upper)

/-- The aliases along the path of a family as one text. -/
def aliasesText (t : Tree) (id : Nat) : String :=
  Text.joinWith "/" ((t.lineage id).map fun upper => (t.family upper.2).aliasText)

/-- What a query about an item of a family is held against. -/
def itemTexts (t : Tree) (id : Nat) (item : Item) : ItemTexts :=
  ⟨item.searchKeywords,
    [Text.lower (t.pathText id), Text.lower (t.aliasesText id), Text.lower item.title]⟩

end Tree

/-- Whether a word occurs in one of the texts. -/
def ItemTexts.hasWord (e : ItemTexts) (word : String) : Bool :=
  e.texts.any fun text => Text.contains text word

/-- Whether a query fits: each wanted word is there, and no unwanted one is. -/
def Query.fits (q : Query) (e : ItemTexts) : Bool :=
  q.keywords.wanted.toList.all (fun k => decide (k ∈ e.keywords)) &&
    q.keywords.unwanted.toList.all (fun k => !decide (k ∈ e.keywords)) &&
    q.freetext.wanted.toList.all e.hasWord &&
    q.freetext.unwanted.toList.all fun word => !e.hasWord word

theorem Query.fits_iff {q : Query} {e : ItemTexts} :
    q.fits e = true ↔
      (∀ k ∈ q.keywords.wanted, k ∈ e.keywords) ∧ (∀ k ∈ q.keywords.unwanted, k ∉ e.keywords) ∧
        (∀ w ∈ q.freetext.wanted, e.hasWord w = true) ∧
        ∀ w ∈ q.freetext.unwanted, e.hasWord w = false := by
  simp [Query.fits, and_assoc]

/-! ### Results -/

/-- One item that was found, as it is shown. -/
structure MatchedItem where
  title : String
  text : String
  /-- The labels as they are shown. -/
  labels : List Label
  number : Option Nat
  deriving DecidableEq, Repr

/-- The items that were found, by the path of their family as one text. -/
structure SearchResult where
  found : SortedMap String (List MatchedItem) := ∅
  /-- The families of the items, whatever the case of their letters. -/
  families : List String := []
  /-- The alias of every family above or at a family with a found item, by its path as one text. -/
  aliases : SortedMap String String := ∅
  count : Nat := 0

/-- An item as it is shown. -/
def Item.toMatched (item : Item) : MatchedItem :=
  ⟨item.title, item.text, Label.sortedForDisplay item.labels.toList, item.number⟩

namespace Tree

/-- The items of a family that a query fits. -/
def fitting (t : Tree) (q : Query) (id : Nat) : List Item :=
  (t.items id).filter fun item => q.fits (t.itemTexts id item)

/-- The families with an item that a query fits, and these items. -/
def hits (t : Tree) (q : Query) : List (Nat × List Item) :=
  (t.all.map fun id => (id, t.fitting q id)).filter fun hit => !hit.2.isEmpty

/-- Adds the aliases along the path of a family. -/
def addAliases (t : Tree) (aliases : SortedMap String String) (id : Nat) :
    SortedMap String String :=
  (t.lineage id).foldl
    (fun known upper => known.insert (Text.joinWith "/" upper.1) (t.family upper.2).aliasText)
    aliases

/-- Adds the items found in a family. Two families whose paths are one text are shown as one, with
the aliases of the first. -/
def addHit (t : Tree) (r : SearchResult) (hit : Nat × List Item) : SearchResult :=
  let path := t.pathText hit.1
  let items := hit.2.map Item.toMatched
  match r.found.get? path with
  | some before => { r with found := r.found.insert path (before ++ items) }
  | none => { r with found := r.found.insert path items, aliases := t.addAliases r.aliases hit.1 }

/-- Whether the first family is not listed after the second: the order in lower case decides, then
the order of the texts as they are. -/
def listedBefore (a b : String) : Bool :=
  ((compare (Text.lower a) (Text.lower b)).then (compare a b)).isLE

/-- The result of a query. A headless result has the count only. -/
def search (t : Tree) (q : Query) (headless : Bool) : SearchResult :=
  let hits := t.hits q
  let count := (hits.flatMap fun hit => hit.2).length
  if headless then { count := count }
  else
    let r := hits.foldl t.addHit {}
    { r with families := r.found.keys.mergeSort listedBefore, count := count }

theorem count_search (t : Tree) (q : Query) (headless : Bool) :
    (t.search q headless).count = ((t.hits q).flatMap fun hit => hit.2).length := by
  cases headless <;> rfl

end Tree

end Catalog
