import Catalog.Yaml.Node

/-!
# Anchors

An alias stands for the node with its anchor. Anchors are numbered in the order of the document: the
number of an anchor is the count of different names before it, and of two nodes with one number the
later one counts.

* `BoundNode` is a node whose aliases are numbers;
* `AnchorTable` holds the numbers of names and the nodes of numbers;
* `bind` goes through a document once.
-/

namespace Catalog.Yaml

/-- A node whose aliases are numbers of anchors. -/
inductive BoundNode where
  | aliasOf (number : Nat)
  | scalar (tag : Option String) (text : String) (isPlain : Bool)
  | list (tag : Option String) (items : List BoundNode)
  | map (tag : Option String) (entries : List (BoundNode × BoundNode))
  deriving Inhabited

/-- What is known about anchors at a place of the document. `holders` gives for each number the
place of its node among all nodes with an anchor, the latest first, and `nodes` gives these nodes by
place. -/
structure AnchorTable where
  numbers : List (String × Nat) := []
  holders : List (Nat × Nat) := []
  places : Nat := 0
  nodes : List (Nat × BoundNode) := []

namespace AnchorTable

/-- Registers the anchor of a node that begins, and gives the place of the node. -/
def enter (t : AnchorTable) (anchor : Option String) : AnchorTable × Option Nat :=
  match anchor with
  | none => (t, none)
  | some name =>
    let number := t.numbers.length
    ({ t with numbers := (name, number) :: t.numbers.filter fun e => e.1 != name
              holders := (number, t.places) :: t.holders
              places := t.places + 1 }, some t.places)

/-- Registers the node of a place once it is complete. -/
def leave (t : AnchorTable) (place : Option Nat) (n : BoundNode) : AnchorTable :=
  match place with
  | none => t
  | some p => { t with nodes := (p, n) :: t.nodes }

/-- The number of a name. -/
def number? (t : AnchorTable) (name : String) : Option Nat :=
  (t.numbers.find? fun e => e.1 == name).map (·.2)

/-- The node of a number. -/
def node? (t : AnchorTable) (number : Nat) : Option BoundNode :=
  (t.holders.find? fun e => e.1 == number).bind fun h =>
    (t.nodes.find? fun e => e.1 == h.2).map (·.2)

end AnchorTable

mutual

/-- Binds the aliases of a node. -/
def bind (t : AnchorTable) : Node → Except Fault (BoundNode × AnchorTable)
  | .aliasOf name =>
    match t.number? name with
    | some number => .ok (.aliasOf number, t)
    | none => .error .unknownAlias
  | .scalar anchor tag text isPlain =>
    let (u, place) := t.enter anchor
    let n := BoundNode.scalar tag text isPlain
    .ok (n, u.leave place n)
  | .list anchor tag items => do
    let (u, place) := t.enter anchor
    let (bound, v) ← bindItems u items
    let n := BoundNode.list tag bound
    return (n, v.leave place n)
  | .map anchor tag entries => do
    let (u, place) := t.enter anchor
    let (bound, v) ← bindEntries u entries
    let n := BoundNode.map tag bound
    return (n, v.leave place n)

/-- Binds the aliases of the items of a list. -/
def bindItems (t : AnchorTable) : List Node → Except Fault (List BoundNode × AnchorTable)
  | [] => .ok ([], t)
  | item :: items => do
    let (n, u) ← bind t item
    let (ns, v) ← bindItems u items
    return (n :: ns, v)

/-- Binds the aliases of the entries of a mapping. -/
def bindEntries (t : AnchorTable) :
    List (Node × Node) → Except Fault (List (BoundNode × BoundNode) × AnchorTable)
  | [] => .ok ([], t)
  | (key, value) :: entries => do
    let (k, u) ← bind t key
    let (v, w) ← bind u value
    let (rest, x) ← bindEntries w entries
    return ((k, v) :: rest, x)

end

mutual

/-- The size of a node as a count of its scalars, its aliases and the two ends of its
collections. -/
def BoundNode.size : BoundNode → Nat
  | .aliasOf _ => 1
  | .scalar .. => 1
  | .list _ items => 2 + sizeItems items
  | .map _ entries => 2 + sizeEntries entries

/-- The size of the items of a list. -/
def BoundNode.sizeItems : List BoundNode → Nat
  | [] => 0
  | item :: items => item.size + sizeItems items

/-- The size of the entries of a mapping. -/
def BoundNode.sizeEntries : List (BoundNode × BoundNode) → Nat
  | [] => 0
  | (key, value) :: entries => key.size + value.size + sizeEntries entries

end

end Catalog.Yaml
