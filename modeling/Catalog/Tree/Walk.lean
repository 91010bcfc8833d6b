import Catalog.Text.Pieces
import Catalog.Tree.Basic

/-!
# Walks through the tree

* `Tree.subtree` lists a node and all nodes below it, each before its sons, sons in the order of
  their names; `Tree.all` is the list for the root;
* `Tree.parents` lists the nodes above a node, the nearest first;
* `upperPaths` lists the paths that lead to a path;
* `Tree.sortedSons` orders the sons of a node by their ranks;
* `OutlineLine` is one line of the outline, which lists every family under its parent with its place
  among its siblings and the numbers of its items and sub-families, and on demand the titles of its
  items;
* `Tree.outlineLines` lists the lines, and `Tree.outline` is the whole text.

The walks follow only links that lead away from the root, respectively towards it, so they end on
every tree.
-/

namespace Catalog

/-! ### Walks through the tree -/

namespace Tree

/-- A node and all nodes below it, each before its sons. -/
def subtree (t : Tree) (id : Nat) : List Nat :=
  id :: (t.sons id).flatMap fun son => if id < son ∧ son < t.size then subtree t son else []
termination_by t.size - id
decreasing_by omega

/-- All nodes, each before its sons. -/
def all (t : Tree) : List Nat := t.subtree root

/-- The nodes above a node, the nearest first. -/
def parents (t : Tree) (id : Nat) : List Nat :=
  match (t.node id).parent with
  | some parent => if parent < id then parent :: parents t parent else []
  | none => []
termination_by id
decreasing_by omega

theorem self_mem_subtree (t : Tree) (id : Nat) : id ∈ t.subtree id := by
  rw [subtree]
  exact List.mem_cons_self

theorem lt_of_mem_parents {t : Tree} {id p : Nat} (h : p ∈ t.parents id) : p < id := by
  induction id using Nat.strongRecOn with
  | ind id ih =>
    rw [parents] at h
    split at h
    · next parent _ =>
      split at h
      · next hlt =>
        rcases List.mem_cons.mp h with rfl | h
        · exact hlt
        · exact Nat.lt_trans (ih parent hlt h) hlt
      · cases h
    · cases h

/-- Puts a new family at every place and notes the warnings in the order in which the walk meets the
places. -/
def mapLogged (t : Tree) (f : Nat → Logged Family) : Logged Tree :=
  ⟨t.mapFamilies fun id => (f id).value, t.all.flatMap fun id => (f id).warnings⟩

@[simp] theorem value_mapLogged (t : Tree) (f : Nat → Logged Family) :
    (t.mapLogged f).value = t.mapFamilies fun id => (f id).value := rfl

/-- The order of two sons: by rank, then by name. -/
def compareSons (t : Tree) (a b : String × Nat) : Ordering :=
  (Rank.compareOptional (t.family a.2).rank (t.family b.2).rank).then (compare a.1 b.1)

/-- The sons of a node with their names, in the order of their ranks. -/
def sortedSons (t : Tree) (id : Nat) : List (String × Nat) :=
  (t.node id).sons.entries.mergeSort fun a b => (t.compareSons a b).isLE

theorem perm_sortedSons (t : Tree) (id : Nat) :
    (t.sortedSons id).Perm (t.node id).sons.entries :=
  List.mergeSort_perm _ _

end Tree

/-- The paths that lead to a path, itself included, the shortest first; the empty one is left out on
demand. -/
def upperPaths (path : List String) (withRoot : Bool) : List (List String) :=
  (List.range' (if withRoot then 0 else 1) (path.length + if withRoot then 1 else 0)).map path.take

theorem mem_upperPaths_root {path p : List String} : p ∈ upperPaths path true ↔ p <+: path := by
  simp only [upperPaths, List.mem_map, List.mem_range'_1, if_true]
  constructor
  · rintro ⟨n, _, rfl⟩
    exact List.take_prefix n path
  · intro h
    have hlen := h.length_le
    exact ⟨p.length, by omega, (List.prefix_iff_eq_take.mp h).symm⟩

/-! ### The outline of a tree -/

/-- One line of the outline, at a depth below the root. -/
inductive OutlineLine where
  | family (depth position : Nat) (name : String) (items sons : Nat)
  | item (depth number : Nat) (title : String)
  deriving DecidableEq, Repr

namespace OutlineLine

/-- The blanks in front of a line at a depth. -/
def indent (depth : Nat) : String := String.ofList (List.replicate (2 * depth) ' ')

/-- The text of a line. -/
def text : OutlineLine → String
  | .family depth position name items sons =>
    indent depth ++ "(" ++ toString position ++ ") " ++ name ++ " [" ++ toString items ++ "," ++
      toString sons ++ "]"
  | .item depth number title =>
    indent (depth + 2) ++ "|" ++ Text.padLeft 2 (toString number) ++ "| " ++ title

end OutlineLine

namespace Tree

/-- The lines for the items of a family, numbered from one. -/
def itemLines (depth : Nat) (items : List Item) : List OutlineLine :=
  (items.zipIdx 1).map fun numbered => .item depth numbered.2 numbered.1.title

/-- The lines for a node and all nodes below it. -/
def outlineBelow (t : Tree) (details : Bool) (depth position : Nat) (name : String) (id : Nat) :
    List OutlineLine :=
  .family depth position name (t.items id).length (t.node id).sons.size ::
    ((if details then itemLines depth (t.items id) else []) ++
      ((t.sortedSons id).zipIdx 1).flatMap fun son =>
        if id < son.1.2 ∧ son.1.2 < t.size then
          outlineBelow t details (depth + 1) son.2 son.1.1 son.1.2
        else [])
termination_by t.size - id
decreasing_by omega

/-- The lines of the outline; the root has no name. -/
def outlineLines (t : Tree) (details : Bool) : List OutlineLine :=
  t.outlineBelow details 0 1 "" root

/-- The text of the outline. -/
def outline (t : Tree) (details : Bool) : String :=
  Text.joinWith "\n" ((t.outlineLines details).map OutlineLine.text)

end Tree

end Catalog
