import Catalog.Yaml.Writer

/-!
# Ranks

Families and items are ordered by their ranks: booleans, integers, floating-point numbers or texts.
Ranks of different kinds have no meaningful order, so siblings are sorted only when all their ranks
are of one kind.

* `Rank.ofValue?` reads a rank from a record, and `Rank.text` shows it;
* `Rank.compare` orders ranks, within their kind where that is the same and by kind otherwise, and
  `==` goes by it;
* `Rank.compareOptional` puts a missing rank before all others.
-/

namespace Catalog

/-- What a family or an item is ordered by. -/
inductive Rank where
  | bool (b : Bool)
  | int (i : Int)
  | float (x : Binary64)
  | text (s : String)
  deriving DecidableEq, Repr, Inhabited

/-- The kind of a rank. -/
inductive RankKind where
  | bool
  | int
  | float
  | text
  deriving DecidableEq, Repr, Ord

namespace Rank

/-- The kind of a rank. -/
def kind : Rank → RankKind
  | .bool _ => .bool
  | .int _ => .int
  | .float _ => .float
  | .text _ => .text

/-- The rank that a value gives: none if the value is nothing. Integers too large for 64 bits with a
sign count as floating-point numbers, and what is no scalar ranks by its text. -/
def ofValue? : Value → Option Rank
  | .null => none
  | .bool b => some (.bool b)
  | .int i => some (if i < 0x8000000000000000 then .int i else .float (Binary64.ofInt i))
  | .float x => some (.float x)
  | .text s => some (.text s)
  | v => some (.text v.toText)

/-- The value that gives a rank. -/
def toValue : Rank → Value
  | .bool b => .bool b
  | .int i => .int i
  | .float x => .float x
  | .text s => .text s

/-- The text of a rank. A whole floating-point number keeps its point. -/
def display : Rank → String
  | .bool b => if b then "true" else "false"
  | .int i => toString i
  | .float x => FloatNotation.ranking.render x
  | .text s => s

/-- The rank of the text of a rank. -/
def toText (r : Rank) : Rank := .text r.display

@[simp] theorem toText_toText (r : Rank) : r.toText.toText = r.toText := rfl

@[simp] theorem kind_toText (r : Rank) : r.toText.kind = .text := rfl

/-- The order of ranks: within a kind that of its values, where floating-point numbers are in their
total order, and across kinds that of the kinds. -/
protected def compare : Rank → Rank → Ordering
  | .bool a, .bool b => Ord.compare a b
  | .int i, .int j => Ord.compare i j
  | .float x, .float y => Ord.compare x.orderKey y.orderKey
  | .text s, .text t => Ord.compare s t
  | r, q => Ord.compare r.kind q.kind

instance : Ord Rank := ⟨Rank.compare⟩

/-- Ranks are equal if neither comes before the other. -/
instance : BEq Rank := ⟨fun r q => r.compare q == .eq⟩

/-- The order of ranks that may be missing: a missing rank comes first. -/
def compareOptional : Option Rank → Option Rank → Ordering
  | none, none => .eq
  | none, some _ => .lt
  | some _, none => .gt
  | some r, some q => r.compare q

end Rank

end Catalog
