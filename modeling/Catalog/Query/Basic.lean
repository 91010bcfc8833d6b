import Catalog.Sorted.Set
import Catalog.Text.LowerCase
import Catalog.Text.Pieces
import Catalog.Text.Tokens

/-!
# Queries

A query asks for items by keywords and by words that occur in their texts. Each word is either
wanted or unwanted.

* `Query.parse` reads a query: tokens in lower case, of which those that start with `-` are unwanted
  and those that start with `#` are keywords;
* `Query.union` asks for the words of two queries at once.
-/

namespace Catalog

/-- The words that an item has to have and those that it must not have. -/
structure WordChoice where
  wanted : SortedSet String := ∅
  unwanted : SortedSet String := ∅
  deriving DecidableEq

/-- What is asked for. Keywords are without their `#`. -/
structure Query where
  keywords : WordChoice := {}
  freetext : WordChoice := {}
  deriving DecidableEq

namespace WordChoice

instance : Inhabited WordChoice := ⟨{}⟩

/-- Whether nothing is asked for. -/
def isEmpty (w : WordChoice) : Bool := w.wanted.isEmpty && w.unwanted.isEmpty

/-- The words of two choices. -/
def union (w v : WordChoice) : WordChoice := ⟨w.wanted ∪ v.wanted, w.unwanted ∪ v.unwanted⟩

/-- Adds a word on one side. -/
def add (w : WordChoice) (isUnwanted : Bool) (word : String) : WordChoice :=
  if isUnwanted then { w with unwanted := w.unwanted.insert word }
  else { w with wanted := w.wanted.insert word }

end WordChoice

/-- One word of a query. -/
structure QueryWord where
  isUnwanted : Bool
  isKeyword : Bool
  word : String
  deriving DecidableEq, Repr

/-- The word that a token stands for. Any number of `-` makes it unwanted, and one `#` after them
makes it a keyword. -/
def QueryWord.ofToken (token : String) : QueryWord :=
  let bare := Text.dropLeading '-' token
  match Text.afterLeading '#' bare with
  | some keyword => ⟨Text.startsWith '-' token, true, keyword⟩
  | none => ⟨Text.startsWith '-' token, false, bare⟩

namespace Query

instance : Inhabited Query := ⟨{}⟩

/-- Whether nothing is asked for, so that every item matches. -/
def isEmpty (q : Query) : Bool := q.keywords.isEmpty && q.freetext.isEmpty

/-- The words of two queries. -/
def union (q r : Query) : Query := ⟨q.keywords.union r.keywords, q.freetext.union r.freetext⟩

/-- Adds a word. An empty word asks for nothing. -/
def add (q : Query) (w : QueryWord) : Query :=
  if w.word == "" then q
  else if w.isKeyword then { q with keywords := q.keywords.add w.isUnwanted w.word }
  else { q with freetext := q.freetext.add w.isUnwanted w.word }

/-- The query of a list of tokens. -/
def ofTokens (tokens : List String) : Query :=
  tokens.foldl (fun q token => q.add (QueryWord.ofToken token)) {}

/-- The query that a text stands for. -/
def parse (s : String) : Query := ofTokens (Text.splitTokens (Text.lower s))

end Query

end Catalog
