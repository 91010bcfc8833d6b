import Catalog.Tree.Walk

/-!
# Spreading labels

Labels spread through the tree: down from a family to all families and items below it, and up from
items and families to all families above them. The labels given to a family itself are noted the
first time, so that what has spread is never taken for its own.

Two sweeps over all families do this. On the way down every family is met after its parent, and a
table keeps what came down to each family; on the way up every family is met before its parent.

* `Tree.ownLabels` are the labels given to a family itself;
* `Item.inherit` adds labels to an item and their names to its keywords, and `Family.receive` does
  so for all items of a family;
* `Descent.step` and `Tree.gatherAt` are the steps of the two sweeps;
* `Tree.spreadLabels` is the tree with the labels spread.
-/

namespace Catalog

namespace Item

/-- The item with more labels. The names of all its labels are keywords of it. -/
def inherit (labels : SortedSet Label) (item : Item) : Item :=
  let borne := item.labels ∪ labels
  { item with labels := borne, index := item.index.insertAll (borne.toList.map Label.name) }

theorem mem_labels_inherit {labels : SortedSet Label} {item : Item} {l : Label} :
    l ∈ (item.inherit labels).labels ↔ l ∈ item.labels ∨ l ∈ labels := by
  simp [inherit]

theorem mem_index_inherit {labels : SortedSet Label} {item : Item} {k : String} :
    k ∈ (item.inherit labels).index ↔
      k ∈ item.index ∨ ∃ l ∈ (item.inherit labels).labels, l.name = k := by
  simp [inherit]

end Item

namespace Family

/-- The family and its items with the labels that come down to them, and the note of its own labels.
It bears the labels of its items too. -/
def receive (own labels : SortedSet Label) (f : Family) : Family :=
  let items := f.items.map (Item.inherit labels)
  { f with
    labels := items.foldl (fun borne item => borne ∪ item.labels) labels
    ownLabels := some own
    items := items }

end Family

/-! ### Down -/

/-- The labels given to a family itself. -/
def Tree.ownLabels (t : Tree) (id : Nat) : SortedSet Label :=
  (t.family id).ownLabels.getD (t.family id).labels

/-- A tree whose labels are on their way down, with the labels that came down to each place so
far. -/
structure Descent where
  tree : Tree
  table : Array (SortedSet Label)

namespace Descent

/-- The start of the way down: nothing has come down yet. -/
def start (t : Tree) : Descent := ⟨t, Array.replicate t.size ∅⟩

/-- The labels that come down to a place: those of its family and those that came down to the
parent. -/
def labelsAt (d : Descent) (id : Nat) : SortedSet Label :=
  match (d.tree.node id).parent with
  | some parent => d.tree.ownLabels id ∪ d.table.getD parent ∅
  | none => d.tree.ownLabels id

/-- Lets the labels come down to a place. -/
def step (d : Descent) (id : Nat) : Descent :=
  ⟨d.tree.modify id (Family.receive (d.tree.ownLabels id) (d.labelsAt id)),
    d.table.setIfInBounds id (d.labelsAt id)⟩

end Descent

namespace Tree

/-- The tree with the labels of families spread down. -/
def spreadDown (t : Tree) : Tree := (t.all.foldl Descent.step (Descent.start t)).tree

/-! ### Up -/

/-- Adds the labels of a family to those of its parent. -/
def gatherAt (t : Tree) (id : Nat) : Tree :=
  match (t.node id).parent with
  | some parent => t.modify parent fun f => { f with labels := f.labels ∪ (t.family id).labels }
  | none => t

/-- The tree with labels spread down and up. -/
def spreadLabels (t : Tree) : Tree := t.all.reverse.foldl gatherAt t.spreadDown

end Tree

end Catalog
