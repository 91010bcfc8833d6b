import Catalog.Tree.Walk

/-!
# Links between nodes

A node is tied to others by its path, its parent and its sons. Most operations leave these links
alone and change families only.

* `node_modify`, `family_modify_self` and `family_modify_of_ne` say what changing one family does;
* `Tree.SameLinks` relates two trees that differ in their families only: all walks agree on them,
  and `SameLinks.eq_of_family` says that nothing but the families is left to compare.
-/

namespace Catalog.Tree

variable {t u v : Tree}

/-! ### Nodes -/

theorem node_of_size_le {id : Nat} (h : t.size ≤ id) : t.node id = {} := by
  have h' : ¬ id < t.nodes.size := Nat.not_lt.mpr h
  simp [node, Array.getD_eq_getD_getElem?, h']

theorem family_of_size_le {id : Nat} (h : t.size ≤ id) : t.family id = {} := by
  rw [family, node_of_size_le h]

theorem lt_size_of_mem_items {id : Nat} {item : Item} (hitem : item ∈ t.items id) :
    id < t.size := by
  apply Nat.lt_of_not_le
  intro hle
  rw [items, family_of_size_le hle] at hitem
  cases hitem

theorem ext_node (hs : u.size = t.size) (h : ∀ id < t.size, u.node id = t.node id) : u = t := by
  obtain ⟨ns⟩ := t
  obtain ⟨ms⟩ := u
  congr 1
  refine Array.ext hs fun id hm hn => ?_
  have hid := h id hn
  simpa [node, Array.getD_eq_getD_getElem?, hm, hn] using hid

theorem node_modify (t : Tree) (id : Nat) (f : Family → Family) {other : Nat} (h : other < t.size) :
    (t.modify id f).node other =
      { t.node other with
        family := if other = id then f (t.family other) else t.family other } := by
  have h' : other < t.nodes.size := h
  simp only [node, family, modify, Array.getD_eq_getD_getElem?, Array.getElem?_modify]
  by_cases e : id = other
  · simp [e, h']
  · simp [e, Ne.symm e, h']

theorem family_modify_self {id : Nat} (h : id < t.size) (f : Family → Family) :
    (t.modify id f).family id = f (t.family id) := by
  simp [family, node_modify t id f h]

theorem family_modify_of_ne {id other : Nat} (h : other ≠ id) (f : Family → Family) :
    (t.modify id f).family other = t.family other := by
  by_cases hlt : other < t.size
  · simp [family, node_modify t id f hlt, h]
  · have h1 : (t.modify id f).node other = {} := node_of_size_le (by rw [size_modify]; omega)
    have h2 : t.node other = {} := node_of_size_le (by omega)
    rw [family, family, h1, h2]

/-! ### Trees with the same links -/

/-- The second tree differs from the first in its families only. -/
structure SameLinks (t u : Tree) : Prop where
  size : u.size = t.size
  path : ∀ id, (u.node id).path = (t.node id).path
  nodeSons : ∀ id, (u.node id).sons = (t.node id).sons
  parent : ∀ id, (u.node id).parent = (t.node id).parent

namespace SameLinks

theorem refl (t : Tree) : SameLinks t t := ⟨rfl, fun _ => rfl, fun _ => rfl, fun _ => rfl⟩

theorem trans (h : SameLinks t u) (h' : SameLinks u v) : SameLinks t v where
  size := h'.size.trans h.size
  path id := (h'.path id).trans (h.path id)
  nodeSons id := (h'.nodeSons id).trans (h.nodeSons id)
  parent id := (h'.parent id).trans (h.parent id)

theorem symm (h : SameLinks t u) : SameLinks u t where
  size := h.size.symm
  path id := (h.path id).symm
  nodeSons id := (h.nodeSons id).symm
  parent id := (h.parent id).symm

/-- Trees are equal if their links and their families are. -/
theorem eq_of_family (h : SameLinks t u) (hf : ∀ id < t.size, u.family id = t.family id) :
    u = t := by
  refine ext_node h.size fun id hid => ?_
  have h1 := h.path id
  have h2 := h.nodeSons id
  have h3 := h.parent id
  have h4 := hf id hid
  simp only [Tree.family] at h4
  generalize u.node id = n at *
  generalize t.node id = m at *
  cases n
  cases m
  simp_all

theorem son? (h : SameLinks t u) (id : Nat) (name : String) : u.son? id name = t.son? id name := by
  simp [Tree.son?, h.nodeSons id]

theorem sons (h : SameLinks t u) (id : Nat) : u.sons id = t.sons id := by
  simp [Tree.sons, h.nodeSons id]

theorem find? (h : SameLinks t u) (path : List String) : u.find? path = t.find? path :=
  findBelow?_congr h.nodeSons root path

theorem subtree (h : SameLinks t u) (id : Nat) : u.subtree id = t.subtree id := by
  induction hn : t.size - id using Nat.strongRecOn generalizing id with
  | ind n ih =>
    rw [Tree.subtree.eq_def u, Tree.subtree.eq_def t, h.sons id, h.size]
    refine congrArg (id :: ·) ?_
    rw [List.flatMap_def, List.flatMap_def]
    refine congrArg List.flatten (List.map_congr_left fun son _ => ?_)
    by_cases hs : id < son ∧ son < t.size
    · rw [if_pos hs, if_pos hs]
      exact ih (t.size - son) (by omega) son rfl
    · rw [if_neg hs, if_neg hs]

theorem all (h : SameLinks t u) : u.all = t.all := h.subtree root

theorem parents (h : SameLinks t u) (id : Nat) : u.parents id = t.parents id := by
  induction id using Nat.strongRecOn with
  | ind id ih =>
    rw [Tree.parents.eq_def u, Tree.parents.eq_def t, h.parent id]
    cases (t.node id).parent with
    | none => rfl
    | some parent =>
      by_cases hlt : parent < id
      · simp only [hlt, if_true]
        rw [ih parent hlt]
      · simp [hlt]

end SameLinks

theorem sameLinks_modify (t : Tree) (id : Nat) (f : Family → Family) :
    SameLinks t (t.modify id f) := by
  refine ⟨size_modify t id f, fun other => ?_, sons_node_modify t id f, fun other => ?_⟩ <;>
  · by_cases h : other < t.size
    · rw [node_modify t id f h]
    · rw [node_of_size_le (t := t) (by omega), node_of_size_le (by rw [size_modify]; omega)]

theorem sameLinks_mapFamilies (t : Tree) (f : Nat → Family) : SameLinks t (t.mapFamilies f) := by
  refine ⟨size_mapFamilies t f, fun other => ?_, sons_node_mapFamilies t f, fun other => ?_⟩ <;>
  · by_cases h : other < t.size
    · rw [node_mapFamilies t f h]
    · rw [node_of_size_le (t := t) (by omega), node_of_size_le (by rw [size_mapFamilies]; omega)]

/-- Steps that keep the links keep them all the way through a list. -/
theorem sameLinks_foldl {α : Type} {step : Tree → α → Tree} (h : ∀ t a, SameLinks t (step t a))
    (t : Tree) (xs : List α) : SameLinks t (xs.foldl step t) := by
  induction xs generalizing t with
  | nil => exact SameLinks.refl t
  | cons a rest ih => exact (h t a).trans (ih (step t a))

end Catalog.Tree
