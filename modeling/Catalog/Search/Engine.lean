import Catalog.Decimal.Binary
import Catalog.Memo
import Catalog.Search.Basic

/-!
# Search engines

A text such as `inner | outer` asks which share of the items that fit `outer` also fit `inner`.
Without `|` the share is that of all items. A `SearchEngine` answers queries on a tree that no
longer changes, and remembers queries that were read and searches that were made.

* `RatioQuery.ofText` takes a text with two parts apart, and `Tree.searchRatio` is its result;
* `SearchEngine.parse`, `SearchEngine.search` and `SearchEngine.searchRatio` answer and give the
  engine that remembers the answer.
-/

namespace Catalog

/-! ### Shares -/

/-- The two parts of a text. The outer part is empty when the share is that of all items. -/
structure RatioQuery where
  inner : String
  outer : String
  deriving DecidableEq, Repr

namespace RatioQuery

/-- Takes a text apart at its first `|`; every further `|` counts as a space. -/
def ofText (s : String) : RatioQuery :=
  let inner := s.toList.takeWhile (· != '|')
  match s.toList.dropWhile (· != '|') with
  | [] => ⟨Text.trim s, ""⟩
  | _ :: outer =>
    ⟨Text.trim (String.ofList inner), Text.trim (Text.replaceChar '|' ' ' (String.ofList outer))⟩

/-- The text that asks for both parts at once. -/
def full (r : RatioQuery) : String := r.inner ++ " " ++ r.outer

end RatioQuery

/-- The result of a text with two parts. -/
structure RatioResult where
  result : SearchResult
  query : RatioQuery
  /-- The number of items that fit the outer part. -/
  total : Nat
  /-- The share in per cent. -/
  ratio : Binary64

/-- The share of `count` in `total` in per cent; none of nothing is zero. -/
def percentage (count total : Nat) : Binary64 := Binary64.ofRatio false (100 * count) total

/-- The result of two searches, of which the second has its count only. -/
def RatioResult.ofResult (query : RatioQuery) (result : SearchResult) (total : Nat) : RatioResult :=
  ⟨result, query, total, percentage result.count total⟩

/-- The result of a text with two parts on a tree. -/
def Tree.searchRatio (t : Tree) (s : String) (headless : Bool) : RatioResult :=
  let query := RatioQuery.ofText s
  .ofResult query (t.search (Query.parse query.full) headless)
    (if query.outer == "" then t.itemCount else (t.search (Query.parse query.outer) true).count)

/-! ### Search engines -/

/-- A tree with what has been asked about it. -/
structure SearchEngine where
  tree : Tree
  totalItems : Nat
  queries : Memo String Query := {}
  results : Memo (Query × Bool) SearchResult := {}

namespace SearchEngine

/-- An engine that remembers nothing yet. -/
def ofTree (t : Tree) : SearchEngine := { tree := t, totalItems := t.itemCount }

/-- Reads a query. -/
def parse (e : SearchEngine) (s : String) : Query × SearchEngine :=
  let asked := e.queries.getOrInsert s fun _ => Query.parse s
  (asked.1, { e with queries := asked.2 })

/-- Searches for a query. -/
def search (e : SearchEngine) (q : Query) (headless : Bool) : SearchResult × SearchEngine :=
  let asked := e.results.getOrInsert (q, headless) fun _ => e.tree.search q headless
  (asked.1, { e with results := asked.2 })

/-- Reads a query and searches for it. -/
def searchText (e : SearchEngine) (s : String) (headless : Bool) : SearchResult × SearchEngine :=
  let parsed := e.parse s
  parsed.2.search parsed.1 headless

/-- Answers a text with two parts. -/
def searchRatio (e : SearchEngine) (s : String) (headless : Bool) : RatioResult × SearchEngine :=
  let query := RatioQuery.ofText s
  let full := e.searchText query.full headless
  if query.outer == "" then (.ofResult query full.1 e.totalItems, full.2)
  else
    let outer := full.2.searchText query.outer true
    (.ofResult query full.1 outer.1.count, outer.2)

end SearchEngine

end Catalog
