import Catalog.Item
import Catalog.Sorted.Map

/-!
# The tree of families

A family is found by its path, the names from the top down to it; the root has the empty path. A
tree keeps its nodes in one array, in the order in which they were made, and nodes refer to each
other by their place in it. A node is made after its parent, so the place of a parent is always less
than that of its sons.

* `Tree.empty` is the tree of the root alone;
* `Tree.create` and `Tree.createBelow` go along a path and make what is missing;
* `Tree.find?` goes along a path and makes nothing;
* `Tree.modify` and `Tree.mapFamilies` change families and leave the shape of the tree alone, as
  `find?_modify` and `find?_mapFamilies` say.
-/

namespace Catalog

/-- One family in its place: its path, the nodes next to it, and what is known about it. -/
structure Node where
  path : List String := []
  sons : SortedMap String Nat := ∅
  parent : Option Nat := none
  family : Family := {}
  deriving Inhabited

namespace Node

/-- The last name of the path; the root has none. -/
def name? (n : Node) : Option String := n.path.getLast?

/-- Whether there are sub-families. -/
def hasSons (n : Node) : Bool := !n.sons.isEmpty

end Node

/-- A tree of families. -/
structure Tree where
  nodes : Array Node

namespace Tree

/-- The place of the root. -/
def root : Nat := 0

/-- The tree of the root alone. -/
def empty : Tree := ⟨#[{}]⟩

instance : EmptyCollection Tree := ⟨empty⟩
instance : Inhabited Tree := ⟨∅⟩

/-- The number of families, the root included. -/
def size (t : Tree) : Nat := t.nodes.size

/-- The node at a place. -/
def node (t : Tree) (id : Nat) : Node := t.nodes.getD id {}

/-- The family at a place. -/
def family (t : Tree) (id : Nat) : Family := (t.node id).family

/-- The items of the family at a place. -/
def items (t : Tree) (id : Nat) : List Item := (t.family id).items

/-- The son of a node that bears a name. -/
def son? (t : Tree) (id : Nat) (name : String) : Option Nat := (t.node id).sons.get? name

/-- The places of the sons of a node in the order of their names. -/
def sons (t : Tree) (id : Nat) : List Nat := (t.node id).sons.values

/-! ### Making families -/

/-- Makes a son with a new name and gives its place. -/
def addSon (t : Tree) (id : Nat) (name : String) : Tree × Nat :=
  let son : Node := { path := (t.node id).path ++ [name], parent := some id }
  (⟨(t.nodes.modify id fun n => { n with sons := n.sons.insert name t.size }).push son⟩, t.size)

/-- Goes along a path below a node, makes what is missing, and gives the place of its end. -/
def createBelow (t : Tree) (id : Nat) : List String → Tree × Nat
  | [] => (t, id)
  | name :: rest =>
    match t.son? id name with
    | some son => createBelow t son rest
    | none => let made := t.addSon id name; createBelow made.1 made.2 rest

/-- Goes along a path below the root, makes what is missing, and gives the place of its end. -/
def create (t : Tree) (path : List String) : Tree × Nat := t.createBelow root path

/-- The end of a path below a node, if all of it is there. -/
def findBelow? (t : Tree) (id : Nat) : List String → Option Nat
  | [] => some id
  | name :: rest => (t.son? id name).bind fun son => findBelow? t son rest

/-- The place of the family with a path. -/
def find? (t : Tree) (path : List String) : Option Nat := t.findBelow? root path

@[simp] theorem createBelow_nil (t : Tree) (id : Nat) : t.createBelow id [] = (t, id) := rfl

@[simp] theorem find?_nil (t : Tree) : t.find? [] = some root := rfl

@[simp] theorem size_addSon (t : Tree) (id : Nat) (name : String) :
    (t.addSon id name).1.size = t.size + 1 := by
  simp [addSon, size]

theorem findBelow?_append (t : Tree) (id : Nat) (p q : List String) :
    t.findBelow? id (p ++ q) = (t.findBelow? id p).bind fun mid => t.findBelow? mid q := by
  induction p generalizing id with
  | nil => rfl
  | cons name rest ih =>
    simp only [List.cons_append, findBelow?]
    cases t.son? id name with
    | none => rfl
    | some son => exact ih son

/-! ### Changing families -/

/-- Changes the family at a place. -/
def modify (t : Tree) (id : Nat) (f : Family → Family) : Tree :=
  ⟨t.nodes.modify id fun n => { n with family := f n.family }⟩

/-- Puts a new family at every place. -/
def mapFamilies (t : Tree) (f : Nat → Family) : Tree :=
  ⟨t.nodes.mapIdx fun id n => { n with family := f id }⟩

/-- Adds an item to the family at a place, after its other items. -/
def addItem (t : Tree) (id : Nat) (item : Item) : Tree :=
  t.modify id fun f => { f with items := f.items ++ [item] }

@[simp] theorem size_modify (t : Tree) (id : Nat) (f : Family → Family) :
    (t.modify id f).size = t.size := by
  simp [modify, size]

@[simp] theorem size_mapFamilies (t : Tree) (f : Nat → Family) :
    (t.mapFamilies f).size = t.size := by
  simp [mapFamilies, size]

theorem sons_node_modify (t : Tree) (id : Nat) (f : Family → Family) (other : Nat) :
    ((t.modify id f).node other).sons = (t.node other).sons := by
  simp only [node, modify, Array.getD_eq_getD_getElem?, Array.getElem?_modify]
  split
  · cases t.nodes[other]? <;> rfl
  · rfl

theorem node_mapFamilies (t : Tree) (f : Nat → Family) {id : Nat} (h : id < t.size) :
    (t.mapFamilies f).node id = { t.node id with family := f id } := by
  have h' : id < t.nodes.size := h
  simp [node, mapFamilies, Array.getD_eq_getD_getElem?, h']

theorem family_mapFamilies (t : Tree) (f : Nat → Family) {id : Nat} (h : id < t.size) :
    (t.mapFamilies f).family id = f id := by
  rw [family, node_mapFamilies t f h]

theorem sons_node_mapFamilies (t : Tree) (f : Nat → Family) (id : Nat) :
    ((t.mapFamilies f).node id).sons = (t.node id).sons := by
  by_cases h : id < t.size
  · rw [node_mapFamilies t f h]
  · have h' : ¬ id < t.nodes.size := h
    simp [node, mapFamilies, Array.getD_eq_getD_getElem?, h']

/-- Where a path leads depends on the sons of the nodes only. -/
theorem findBelow?_congr {t u : Tree} (h : ∀ id, (u.node id).sons = (t.node id).sons) (id : Nat)
    (path : List String) : u.findBelow? id path = t.findBelow? id path := by
  induction path generalizing id with
  | nil => rfl
  | cons name rest ih =>
    have hs : u.son? id name = t.son? id name := by simp [son?, h]
    simp only [findBelow?, hs]
    cases t.son? id name with
    | none => rfl
    | some son => exact ih son

@[simp] theorem find?_modify (t : Tree) (id : Nat) (f : Family → Family) (path : List String) :
    (t.modify id f).find? path = t.find? path :=
  findBelow?_congr (sons_node_modify t id f) root path

@[simp] theorem find?_mapFamilies (t : Tree) (f : Nat → Family) (path : List String) :
    (t.mapFamilies f).find? path = t.find? path :=
  findBelow?_congr (sons_node_mapFamilies t f) root path

/-! ### Counts -/

/-- The number of items of all families. -/
def itemCount (t : Tree) : Nat := (t.nodes.toList.flatMap fun n => n.family.items).length

/-- Whether some family has an item. -/
def hasItems (t : Tree) : Bool := t.nodes.any fun n => !n.family.items.isEmpty

end Tree

end Catalog
