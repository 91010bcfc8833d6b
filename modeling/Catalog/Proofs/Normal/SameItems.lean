import Catalog.Proofs.Normal.Relocation

/-!
# Trees with the same items

Relocation looks at the links of a tree and at where its items are. What is said about families has
no part in it.

* `Tree.SameItems` relates two trees that differ in what is said about families only;
* `SameItems.relocate` is the step of relocation and `SameItems.relocateItems` the run: items end in
  the same places.
-/

namespace Catalog

/-- The node without what is known about its family. -/
def Node.bare (n : Node) : Node := { n with family := {} }

namespace Tree

variable {t u : Tree}

theorem SameLinks.bare_eq (h : SameLinks t u) (id : Nat) : (u.node id).bare = (t.node id).bare := by
  rw [Node.bare, Node.bare, h.path, h.nodeSons, h.parent]

theorem SameLinks.of_bare (hsize : u.size = t.size)
    (h : ∀ id, (u.node id).bare = (t.node id).bare) : SameLinks t u where
  size := hsize
  path id := by
    have hpath := congrArg Node.path (h id)
    exact hpath
  nodeSons id := by
    have hsons := congrArg Node.sons (h id)
    exact hsons
  parent id := by
    have hparent := congrArg Node.parent (h id)
    exact hparent

/-! ### Relocation -/

theorem bare_addSon {id : Nat} {name : String} {other : Nat} (h : other < t.size) :
    ((t.addSon id name).1.node other).bare =
      if other = id then { (t.node id).bare with sons := (t.node id).sons.insert name t.size }
      else (t.node other).bare := by
  rw [node_addSon h]
  split <;> rfl

theorem SameLinks.addSon (h : SameLinks t u) (id : Nat) (name : String) :
    SameLinks (t.addSon id name).1 (u.addSon id name).1 := by
  refine SameLinks.of_bare (by rw [size_addSon, size_addSon, h.size]) fun other => ?_
  rcases Nat.lt_trichotomy other t.size with hlt | heq | hgt
  · have hlt' : other < u.size := by
      rw [h.size]
      exact hlt
    rw [bare_addSon hlt, bare_addSon hlt', h.size, h.nodeSons, h.bare_eq, h.bare_eq]
  · subst heq
    rw [node_addSon_new, ← h.size, node_addSon_new, h.path]
  · rw [node_of_size_le (t := (t.addSon id name).1) (by rw [size_addSon]; omega),
      node_of_size_le (by rw [size_addSon, h.size]; omega)]

/-- The second tree differs from the first in what is said about its families only: links and items
are the same. -/
structure SameItems (t u : Tree) : Prop extends SameLinks t u where
  items : ∀ id, u.items id = t.items id

namespace SameItems

theorem sink_eq (h : SameItems t u) (id : Nat) : u.sink id = t.sink id := by
  have hson := h.toSameLinks.son? id sinkName
  cases hs : t.son? id sinkName with
  | some son => rw [(sink_of_son? hs).2, (sink_of_son? (hson.trans hs)).2]
  | none => rw [(sink_of_none hs).2, (sink_of_none (hson.trans hs)).2, h.size]

theorem sameLinks_createBelow_sink (h : SameItems t u) (id : Nat) :
    SameLinks (t.createBelow id [sinkName]).1 (u.createBelow id [sinkName]).1 := by
  have hson := h.toSameLinks.son? id sinkName
  cases hs : t.son? id sinkName with
  | some son =>
    rw [(sink_of_son? hs).1, (sink_of_son? (hson.trans hs)).1]
    exact h.toSameLinks
  | none =>
    rw [(sink_of_none hs).1, (sink_of_none (hson.trans hs)).1]
    exact h.toSameLinks.addSon id sinkName

theorem moveToSink (h : SameItems t u) (ht : t.WellFormed) {id : Nat} (hid : id < t.size) :
    SameItems (t.moveToSink id) (u.moveToSink id) where
  toSameLinks := (sameLinks_moveToSink t id).symm.trans
    ((h.sameLinks_createBelow_sink id).trans (sameLinks_moveToSink u id))
  items other := by
    have hid' : id < u.size := by
      rw [h.size]
      exact hid
    rw [(h.toSameLinks.wellFormed ht).items_moveToSink hid' other, ht.items_moveToSink hid other,
      h.sink_eq, h.items, h.items]

theorem isMixed_eq (h : SameItems t u) (id : Nat) : u.isMixed id = t.isMixed id := by
  rw [isMixed, isMixed, Node.hasSons, Node.hasSons, h.nodeSons, h.items]

theorem relocate (h : SameItems t u) (ht : t.WellFormed) {id : Nat} (hid : id < t.size) :
    SameItems (t.relocate id).value (u.relocate id).value := by
  rw [Tree.relocate, Tree.relocate, h.isMixed_eq]
  split
  · exact h.moveToSink ht hid
  · exact h

end SameItems

theorem WellFormed.relocate (h : t.WellFormed) {id : Nat} (hid : id < t.size) :
    (t.relocate id).value.WellFormed ∧ t.size ≤ (t.relocate id).value.size := by
  rw [Tree.relocate]
  split
  · refine ⟨h.moveToSink hid, ?_⟩
    show t.size ≤ (t.moveToSink id).size
    rw [(sameLinks_moveToSink t id).size]
    exact (h.extends_createBelow hid [sinkName]).size_le
  · exact ⟨h, Nat.le_refl _⟩

/-- Relocation looks at links and items only. -/
theorem SameItems.relocateItems (h : SameItems t u) (ht : t.WellFormed) :
    SameItems t.relocateItems.value u.relocateItems.value := by
  rw [Tree.relocateItems, Tree.relocateItems, Logged.value_foldList, Logged.value_foldList,
    h.toSameLinks.all]
  have hrun := List.foldl_rel (l := t.all) (f := fun v id => (v.relocate id).value)
    (g := fun w id => (w.relocate id).value)
    (r := fun v w => v.WellFormed ∧ t.size ≤ v.size ∧ SameItems v w)
    (a := t) (b := u) ⟨ht, Nat.le_refl _, h⟩ fun id hmem v w hvw => by
      obtain ⟨hv, hsize, hitems⟩ := hvw
      have hid : id < v.size := Nat.lt_of_lt_of_le (ht.mem_all_iff.mp hmem) hsize
      obtain ⟨hwf, hle⟩ := hv.relocate hid
      exact ⟨hwf, Nat.le_trans hsize hle, hitems.relocate hv hid⟩
  exact hrun.2.2

end Tree

end Catalog
