import Catalog.Normal.Inheritance
import Catalog.Normal.Settling
import Catalog.Tree.Walk

/-!
# Normal trees

A tree is made normal in five steps. Labels spread only after values have been settled, and items
are put in order only after missing ranks have been filled in, so the order of the steps is fixed.

A family is to have items or sub-families, not both. The items of a family that has both move to a
sub-family of a fixed name. Then items are put in the order of their ranks and numbered. Ranks of
different kinds have no order: a family whose items mix kinds keeps its items as they are, and where
sibling families mix kinds all of them are ranked by text.

* `Tree.relocate` moves the items of one family, and `Tree.relocateItems` goes through all families,
  parents first, so that items that land in a family with sub-families move on;
* `Family.orderItems` orders and numbers the items of one family, and `Tree.orderAt` does so at one
  place and settles the ranks of the sub-families there; `Tree.orderAll` goes through all families;
* `Tree.normalize` takes the five steps.
-/

namespace Catalog

/-! ### Items or sub-families -/

namespace Tree

/-- The name of the sub-family that takes the items of a family with sub-families. -/
def sinkName : String := "Default"

/-- Whether a family has both items and sub-families. -/
def isMixed (t : Tree) (id : Nat) : Bool := (t.node id).hasSons && !(t.items id).isEmpty

/-- Moves the items of a family to the end of its sub-family of the fixed name, which is made if
need be. -/
def moveToSink (t : Tree) (id : Nat) : Tree :=
  let made := t.createBelow id [sinkName]
  (made.1.modify id fun f => { f with items := [] }).modify made.2 fun f =>
    { f with items := f.items ++ t.items id }

/-- Moves the items of a family if it has sub-families too. -/
def relocate (t : Tree) (id : Nat) : Logged Tree :=
  if t.isMixed id then do
    Logged.warn .mixedFamily
    return t.moveToSink id
  else pure t

/-- Moves the items of every family that has sub-families too. -/
def relocateItems (t : Tree) : Logged Tree := Logged.foldList relocate t t.all

end Tree

/-! ### Order and numbers -/

/-- Whether all ranks are of one kind. A missing rank is a kind of its own. -/
def Rank.areUniform : List (Option Rank) → Bool
  | [] => true
  | r :: rest => rest.all fun q => q.map Rank.kind == r.map Rank.kind

namespace Family

/-- Whether the items can be ordered by their ranks. -/
def hasUniformItems (f : Family) : Bool := Rank.areUniform (f.items.map Item.rank)

/-- Items in the order of their ranks; items of equal rank stay in order. -/
def sortItems (items : List Item) : List Item :=
  items.mergeSort fun a b => (Rank.compareOptional a.rank b.rank).isLE

/-- Items numbered from one. -/
def numberItems (items : List Item) : List Item :=
  (items.zipIdx 1).map fun numbered => { numbered.1 with number := some numbered.2 }

/-- The items in order if they have one, and numbered. -/
def orderItems (f : Family) : List Item :=
  numberItems (if f.hasUniformItems then sortItems f.items else f.items)

theorem length_numberItems (items : List Item) : (numberItems items).length = items.length := by
  simp [numberItems]

theorem perm_sortItems (items : List Item) : (sortItems items).Perm items := List.mergeSort_perm _ _

end Family

namespace Tree

/-- Whether the sub-families of a family can be ordered by their ranks. -/
def hasUniformSons (t : Tree) (id : Nat) : Bool :=
  Rank.areUniform ((t.sons id).map fun son => (t.family son).rank)

/-- Orders and numbers the items of one family. -/
def orderItemsAt (t : Tree) (id : Nat) : Tree :=
  t.modify id fun f => { f with items := f.orderItems }

/-- Ranks a family by the text of its rank. -/
def rankByText (t : Tree) (id : Nat) : Tree :=
  t.modify id fun f => { f with rank := f.rank.map Rank.toText }

/-- Orders and numbers the items of one family, and ranks all its sub-families by text where they
mix kinds. -/
def orderAt (t : Tree) (id : Nat) : Logged Tree := do
  if !(t.family id).hasUniformItems then Logged.warn .mixedItemRanks
  let ordered := t.orderItemsAt id
  if ordered.hasUniformSons id then return ordered
  Logged.warn .mixedFamilyRanks
  return (ordered.sons id).foldl rankByText ordered

/-- The tree with all items in order and numbered and all siblings of comparable ranks. -/
def orderAll (t : Tree) : Logged Tree := Logged.foldList orderAt t t.all

/-! ### Normal trees -/

/-- Makes a tree normal. -/
def normalize (t : Tree) : Logged Tree := do
  let relocated ← t.relocateItems
  let settled ← relocated.settle
  settled.fillDefaults.spreadLabels.orderAll

end Tree

end Catalog
