import Catalog.Decimal.Binary
import Catalog.Keyword
import Catalog.Sorted.Map
import Catalog.Tags.Counter
import Catalog.Tree.Walk

/-!
# Tags

Tags are offered while a query is typed: all keywords of all items, and the words that are most
frequent in paths, aliases and titles. The words are counted with a table that says where each of
them stands, so that a word is found without a search through all of them.

* `WordTable.entry` gives the place of a word and makes room for it at the end if it is new;
* `WordTable.look` looks the count of a word up, and `WordTable.addText` counts the words of a text;
* `WordTable.counter` is the counter without the table;
* `Tree.keywords` and `Tree.countWords` collect keywords and words, and `Tree.tagsKeeping` are the
  tags with a number of words;
* `Tree.tags` keeps a share of the words.
-/

namespace Catalog

/-! ### Counting words with a table of places -/

/-- Words with their counts, and the place of each word under its lower-case form. -/
structure WordTable where
  words : Array (String × Nat) := #[]
  positions : SortedMap String Nat := ∅

namespace WordTable

/-- The place of a word. A word that has not been met gets the place after all others, with the
count zero. -/
def entry (t : WordTable) (word : String) : Nat × WordTable :=
  match t.positions.get? (Text.lower word) with
  | some position => (position, t)
  | none =>
    (t.words.size,
      { words := t.words.push (word, 0),
        positions := t.positions.insert (Text.lower word) t.words.size })

/-- Looks the count of a word up and makes room for it. -/
def look (t : WordTable) (word : String) : Nat × WordTable :=
  let found := t.entry word
  ((found.2.words.getD found.1 (word, 0)).2, found.2)

/-- Counts a word. -/
def add (t : WordTable) (word : String) : WordTable :=
  let found := t.entry word
  { found.2 with words := found.2.words.modify found.1 fun e => (e.1, e.2 + 1) }

/-- Counts the words of a text. -/
def addText (t : WordTable) (s : String) : WordTable := (Words.ofText s).foldl add t

/-- The counter without the table. -/
def counter (t : WordTable) : WordCounter := ⟨t.words.toList⟩

end WordTable

/-! ### Tags -/

namespace Tree

/-- The keywords of all items. -/
def keywords (t : Tree) : SortedSet String :=
  t.all.foldl (fun known id => (t.items id).foldl (fun known item => known ∪ item.index) known) ∅

/-- The texts whose words count for a family: its path, its alias, and the titles of its items. -/
def countedTexts (t : Tree) (id : Nat) : List String :=
  Text.joinWith " " (t.node id).path :: (t.family id).aliasText :: (t.items id).map Item.title

/-- The counts of the words of a tree. -/
def countWords (t : Tree) : WordCounter :=
  ((t.all.flatMap t.countedTexts).foldl WordTable.addText {}).counter

/-- What a tag is ordered by: the tag in lower case without leading `#`, then the tag as it is. -/
def tagKey (tag : String) : List String := [Text.lower (Text.dropLeading '#' tag), tag]

/-- Whether the first tag does not come after the second. -/
def tagBefore (a b : String) : Bool := (compare (tagKey a) (tagKey b)).isLE

/-- All keywords and a number of words, in order. A word that is a keyword as it stands counts
once. -/
def tagsKeeping (t : Tree) (n : Nat) : List String :=
  let known := t.keywords.toList
  let fresh := (t.countWords.mostFrequent n).filter fun word => !known.contains word
  (known ++ fresh).mergeSort tagBefore

/-- All keywords and a share of the words, in order. -/
def tags (t : Tree) (keep : Binary64) : List String :=
  t.tagsKeeping (keep.shareOf t.countWords.size)

end Tree

end Catalog
