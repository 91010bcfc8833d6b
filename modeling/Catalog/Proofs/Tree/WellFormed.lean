import Catalog.Proofs.Tree.Links

/-!
# Well-formed trees

The path, the parent and the sons of a node say the same thing in three ways. `Tree.WellFormed` says
that they agree, and `Tree.Reachable` collects the trees that arise when paths are created and
families are changed, in any order. A path is shown as one text, with `/` between its names, so
names without `/` can be told apart in it.

* `WellFormed.find?_eq_some_iff` says that looking a path up is the inverse of reading it off a
  node, so `WellFormed.path_injective` holds;
* `WellFormed.addSon` is the step and `createBelow_induction` the run of creating a path;
* `Tree.Extends` relates a tree to one in which paths have been created;
* `Reachable.wellFormed` says that every tree that can be made is well formed;
* `Tree.IsPlain` says that no name of a family holds `/`, and `IsPlain.createBelow` that making
  paths of such names keeps it.
-/

namespace Catalog.Tree

variable {t u : Tree}

/-- The path, the parent and the sons of every node agree with those of the nodes around it. -/
structure WellFormed (t : Tree) : Prop where
  root_lt : root < t.size
  path_root : (t.node root).path = []
  parent_root : (t.node root).parent = none
  /-- Every node but the root is the son of an earlier one. -/
  up : ∀ id < t.size, id ≠ root → ∃ parent name, parent < id ∧ t.son? parent name = some id
  /-- A son knows its parent, and its path goes on from that of its parent. -/
  down : ∀ id name son, t.son? id name = some son →
    son < t.size ∧ (t.node son).parent = some id ∧ (t.node son).path = (t.node id).path ++ [name]

theorem wellFormed_empty : (∅ : Tree).WellFormed where
  root_lt := Nat.one_pos
  path_root := rfl
  parent_root := rfl
  up id hid hne := absurd (Nat.lt_one_iff.mp hid) hne
  down id name son h := by
    have hnone : (∅ : Tree).son? id name = none := by
      cases id <;> rfl
    rw [hnone] at h
    cases h

theorem SameLinks.wellFormed (h : SameLinks t u) (ht : t.WellFormed) : u.WellFormed where
  root_lt := by
    rw [h.size]
    exact ht.root_lt
  path_root := (h.path root).trans ht.path_root
  parent_root := (h.parent root).trans ht.parent_root
  up id hid hne := by
    rw [h.size] at hid
    obtain ⟨parent, name, hlt, hson⟩ := ht.up id hid hne
    exact ⟨parent, name, hlt, by rw [h.son?, hson]⟩
  down id name son hson := by
    rw [h.son?] at hson
    rw [h.size, h.parent, h.path, h.path]
    exact ht.down id name son hson

namespace WellFormed

theorem ne_root_of_son? (h : t.WellFormed) {id son : Nat} {name : String}
    (hs : t.son? id name = some son) : son ≠ root := by
  rintro rfl
  have hp := (h.down id name root hs).2.1
  rw [h.parent_root] at hp
  cases hp

theorem lt_of_son? (h : t.WellFormed) {id son : Nat} {name : String}
    (hs : t.son? id name = some son) : id < son := by
  obtain ⟨hlt, hparent, _⟩ := h.down id name son hs
  obtain ⟨other, name', hother, hs'⟩ := h.up son hlt (h.ne_root_of_son? hs)
  have heq := (h.down other name' son hs').2.1
  rw [hparent, Option.some.injEq] at heq
  omega

theorem mem_sons_iff {id son : Nat} : son ∈ t.sons id ↔ ∃ name, t.son? id name = some son :=
  SortedMap.mem_values_iff

theorem hasSons_iff {id : Nat} : (t.node id).hasSons = true ↔ t.sons id ≠ [] := by
  rw [Node.hasSons, SortedMap.isEmpty, Bool.not_eq_true', List.isEmpty_eq_false_iff, sons,
    SortedMap.values]
  exact (not_congr List.map_eq_nil_iff).symm

/-- A node other than the root has a parent, whose sons lead back to it. -/
theorem exists_parent (h : t.WellFormed) {id : Nat} (hid : id < t.size) (hne : id ≠ root) :
    ∃ parent name, parent < id ∧ (t.node id).parent = some parent ∧
      (t.node id).path = (t.node parent).path ++ [name] ∧ t.son? parent name = some id := by
  obtain ⟨parent, name, hlt, hs⟩ := h.up id hid hne
  obtain ⟨_, hparent, hpath⟩ := h.down parent name id hs
  exact ⟨parent, name, hlt, hparent, hpath, hs⟩

/-- What a node names as its parent has the node among its sons. -/
theorem mem_sons_of_parent (h : t.WellFormed) {id parent : Nat} (hid : id < t.size)
    (hp : (t.node id).parent = some parent) : parent < id ∧ id ∈ t.sons parent := by
  have hne : id ≠ root := by
    rintro rfl
    rw [h.parent_root] at hp
    cases hp
  obtain ⟨other, name, hlt, hother, _, hs⟩ := h.exists_parent hid hne
  rw [hp, Option.some.injEq] at hother
  subst hother
  exact ⟨hlt, mem_sons_iff.mpr ⟨name, hs⟩⟩

theorem of_mem_sons (h : t.WellFormed) {id son : Nat} (hs : son ∈ t.sons id) :
    id < son ∧ son < t.size ∧ (t.node son).parent = some id := by
  obtain ⟨name, hs⟩ := mem_sons_iff.mp hs
  obtain ⟨hlt, hparent, _⟩ := h.down id name son hs
  exact ⟨h.lt_of_son? hs, hlt, hparent⟩

/-! ### Paths -/

theorem path_of_findBelow? (h : t.WellFormed) {start id : Nat} {path : List String}
    (hstart : start < t.size) (hf : t.findBelow? start path = some id) :
    id < t.size ∧ (t.node id).path = (t.node start).path ++ path := by
  induction path generalizing start with
  | nil =>
    cases hf
    exact ⟨hstart, (List.append_nil _).symm⟩
  | cons name rest ih =>
    obtain ⟨son, hs, hrest⟩ := Option.bind_eq_some_iff.mp hf
    obtain ⟨hlt, _, hpath⟩ := h.down start name son hs
    obtain ⟨hid, hidpath⟩ := ih hlt hrest
    refine ⟨hid, ?_⟩
    rw [hidpath, hpath, List.append_assoc, List.singleton_append]

theorem find?_path (h : t.WellFormed) {id : Nat} (hid : id < t.size) :
    t.find? (t.node id).path = some id := by
  induction id using Nat.strongRecOn with
  | ind id ih =>
    by_cases hroot : id = root
    · rw [hroot, h.path_root]
      rfl
    · obtain ⟨parent, name, hlt, _, hpath, hs⟩ := h.exists_parent hid hroot
      have hparent : t.findBelow? root (t.node parent).path = some parent :=
        ih parent hlt (Nat.lt_trans hlt hid)
      rw [hpath, find?, findBelow?_append, hparent, Option.bind_some]
      simp [findBelow?, hs]

/-- Looking a path up is the inverse of reading it off a node. -/
theorem find?_eq_some_iff (h : t.WellFormed) {id : Nat} {path : List String} :
    t.find? path = some id ↔ id < t.size ∧ (t.node id).path = path := by
  constructor
  · intro hf
    have hid := h.path_of_findBelow? h.root_lt hf
    rw [h.path_root, List.nil_append] at hid
    exact hid
  · intro hex
    obtain ⟨hid, rfl⟩ := hex
    exact h.find?_path hid

theorem path_injective (h : t.WellFormed) {a b : Nat} (ha : a < t.size) (hb : b < t.size)
    (hp : (t.node a).path = (t.node b).path) : a = b := by
  have hfa := h.find?_path ha
  rw [hp, h.find?_path hb, Option.some.injEq] at hfa
  exact hfa.symm

end WellFormed

/-! ### Making sons -/

section AddSon

variable {id : Nat} {name : String}

theorem node_addSon {other : Nat} (h : other < t.size) :
    (t.addSon id name).1.node other =
      if other = id then { t.node id with sons := (t.node id).sons.insert name t.size }
      else t.node other := by
  have h' : other < t.nodes.size := h
  have hne : other ≠ t.nodes.size := by omega
  by_cases e : id = other
  · subst e
    simp [node, addSon, Array.getD_eq_getD_getElem?, Array.getElem?_push, Array.getElem_modify,
      h', hne]
  · simp [node, addSon, Array.getD_eq_getD_getElem?, Array.getElem?_push, Array.getElem_modify, h',
      hne, e, Ne.symm e]

theorem node_addSon_new :
    (t.addSon id name).1.node t.size =
      { path := (t.node id).path ++ [name], parent := some id } := by
  simp [node, addSon, size, Array.getD_eq_getD_getElem?, Array.getElem_push]

theorem son?_addSon (hid : id < t.size) (other : Nat) (n : String) :
    (t.addSon id name).1.son? other n =
      if other = id ∧ n = name then some t.size else t.son? other n := by
  rcases Nat.lt_trichotomy other t.size with hlt | heq | hgt
  · by_cases e : other = id
    · subst e
      simp [son?, node_addSon hlt, SortedMap.get?_insert]
    · simp [son?, node_addSon hlt, e]
  · subst heq
    have hne : t.size ≠ id := by omega
    simp only [son?, node_addSon_new, hne, false_and, if_false]
    rw [node_of_size_le (Nat.le_refl _)]
  · have hne : other ≠ id := by omega
    have hnew : (t.addSon id name).1.node other = {} := node_of_size_le (by rw [size_addSon]; omega)
    simp only [son?, hnew, hne, false_and, if_false]
    rw [node_of_size_le (Nat.le_of_lt hgt)]

theorem family_addSon (other : Nat) : (t.addSon id name).1.family other = t.family other := by
  rcases Nat.lt_trichotomy other t.size with hlt | heq | hgt
  · by_cases e : other = id
    · subst e
      simp [family, node_addSon hlt]
    · simp [family, node_addSon hlt, e]
  · subst heq
    simp only [family, node_addSon_new]
    rw [node_of_size_le (Nat.le_refl _)]
  · have hnew : (t.addSon id name).1.node other = {} := node_of_size_le (by rw [size_addSon]; omega)
    simp only [family, hnew]
    rw [node_of_size_le (Nat.le_of_lt hgt)]

theorem path_addSon {other : Nat} (h : other < t.size) :
    ((t.addSon id name).1.node other).path = (t.node other).path := by
  rw [node_addSon h]
  split
  · next e => rw [e]
  · rfl

theorem parent_addSon {other : Nat} (h : other < t.size) :
    ((t.addSon id name).1.node other).parent = (t.node other).parent := by
  rw [node_addSon h]
  split
  · next e => rw [e]
  · rfl

theorem WellFormed.addSon (h : t.WellFormed) (hid : id < t.size) (hnew : t.son? id name = none) :
    (t.addSon id name).1.WellFormed where
  root_lt := by
    rw [size_addSon]
    exact Nat.lt_succ_of_lt h.root_lt
  path_root := (path_addSon h.root_lt).trans h.path_root
  parent_root := (parent_addSon h.root_lt).trans h.parent_root
  up other hother hne := by
    rw [size_addSon] at hother
    rcases Nat.lt_succ_iff_lt_or_eq.mp hother with hlt | rfl
    · obtain ⟨parent, n, hpo, hs⟩ := h.up other hlt hne
      refine ⟨parent, n, hpo, ?_⟩
      rw [son?_addSon hid, if_neg, hs]
      rintro ⟨rfl, rfl⟩
      rw [hnew] at hs
      cases hs
    · exact ⟨id, name, hid, by rw [son?_addSon hid, if_pos ⟨rfl, rfl⟩]⟩
  down other n son hs := by
    rw [son?_addSon hid] at hs
    split at hs
    · next e =>
      obtain ⟨rfl, rfl⟩ := e
      cases hs
      refine ⟨by rw [size_addSon]; omega, ?_, ?_⟩
      · rw [node_addSon_new]
      · rw [node_addSon_new, path_addSon hid]
    · obtain ⟨hlt, hparent, hpath⟩ := h.down other n son hs
      have hother : other < t.size := Nat.lt_trans (h.lt_of_son? hs) hlt
      refine ⟨by rw [size_addSon]; omega, ?_, ?_⟩
      · rw [parent_addSon hlt, hparent]
      · rw [path_addSon hlt, path_addSon hother, hpath]

end AddSon

/-- What holds of a tree and still holds after a son is made holds after a path is made. -/
theorem createBelow_induction {P : Tree → Prop} (h : t.WellFormed) {id : Nat} (hid : id < t.size)
    (ht : P t) {path : List String}
    (step : ∀ u id, ∀ name ∈ path, u.WellFormed → id < u.size → u.son? id name = none → P u →
      P (u.addSon id name).1) :
    (t.createBelow id path).1.WellFormed ∧
      (t.createBelow id path).2 < (t.createBelow id path).1.size ∧ P (t.createBelow id path).1 := by
  induction path generalizing t id with
  | nil => exact ⟨h, hid, ht⟩
  | cons name rest ih =>
    have hrest : ∀ u id, ∀ name ∈ rest, u.WellFormed → id < u.size → u.son? id name = none → P u →
        P (u.addSon id name).1 := fun u id name hmem => step u id name (List.mem_cons_of_mem _ hmem)
    unfold createBelow
    cases hs : t.son? id name with
    | some son => exact ih h (h.down id name son hs).1 ht hrest
    | none =>
      refine ih (h.addSon hid hs) ?_ (step t id name List.mem_cons_self h hid hs ht) hrest
      rw [size_addSon]
      exact Nat.lt_succ_self t.size

theorem WellFormed.createBelow (h : t.WellFormed) {id : Nat} (hid : id < t.size)
    (path : List String) : (t.createBelow id path).1.WellFormed :=
  (createBelow_induction (P := fun _ => True) h hid trivial fun _ _ _ _ _ _ _ _ => trivial).1

theorem WellFormed.end_createBelow_lt (h : t.WellFormed) {id : Nat} (hid : id < t.size)
    (path : List String) : (t.createBelow id path).2 < (t.createBelow id path).1.size :=
  (createBelow_induction (P := fun _ => True) h hid trivial fun _ _ _ _ _ _ _ _ => trivial).2.1

/-- The second tree is the first with nodes made: those of the first keep their places, what is
known of them and what they lead to, and those that are new are bare. -/
structure Extends (t u : Tree) : Prop where
  size_le : t.size ≤ u.size
  path : ∀ id < t.size, (u.node id).path = (t.node id).path
  parent : ∀ id < t.size, (u.node id).parent = (t.node id).parent
  son? : ∀ id name son, t.son? id name = some son → u.son? id name = some son
  family : ∀ id, u.family id = t.family id

namespace Extends

theorem refl (t : Tree) : Extends t t :=
  ⟨Nat.le_refl _, fun _ _ => rfl, fun _ _ => rfl, fun _ _ _ h => h, fun _ => rfl⟩

theorem addSon {id : Nat} {name : String} (h : Extends t u) (hid : id < u.size)
    (hnew : u.son? id name = none) : Extends t (u.addSon id name).1 where
  size_le := by
    rw [size_addSon]
    exact Nat.le_succ_of_le h.size_le
  path other hother := by rw [path_addSon (Nat.lt_of_lt_of_le hother h.size_le),
    h.path other hother]
  parent other hother := by rw [parent_addSon (Nat.lt_of_lt_of_le hother h.size_le),
    h.parent other hother]
  son? other n son hs := by
    have hs' := h.son? other n son hs
    rw [son?_addSon hid, if_neg, hs']
    rintro ⟨rfl, rfl⟩
    rw [hnew] at hs'
    cases hs'
  family other := by rw [family_addSon, h.family other]

end Extends

theorem WellFormed.extends_createBelow (h : t.WellFormed) {id : Nat} (hid : id < t.size)
    (path : List String) : Extends t (t.createBelow id path).1 :=
  (createBelow_induction h hid (Extends.refl t) fun _ _ _ _ _ hid hnew hu => hu.addSon hid hnew).2.2

/-! ### Trees that can be made -/

/-- The trees that arise from the empty one when paths are created below nodes that exist and
families are changed at will. -/
inductive Reachable : Tree → Prop
  | empty : Reachable ∅
  | create {t : Tree} {id : Nat} (path : List String) :
      Reachable t → id < t.size → Reachable (t.createBelow id path).1
  | change {t : Tree} (id : Nat) (f : Family → Family) : Reachable t → Reachable (t.modify id f)

theorem Reachable.wellFormed (h : t.Reachable) : t.WellFormed := by
  induction h with
  | empty => exact wellFormed_empty
  | create path _ hid ih => exact ih.createBelow hid path
  | change id f _ ih => exact (sameLinks_modify _ id f).wellFormed ih

/-! ### Trees of plain names -/

/-- No name of a family holds `/`. -/
def IsPlain (t : Tree) : Prop := ∀ id < t.size, ∀ name ∈ (t.node id).path, '/' ∉ name.toList

instance : Decidable t.IsPlain :=
  inferInstanceAs (Decidable (∀ id < t.size, ∀ name ∈ (t.node id).path, '/' ∉ name.toList))

theorem SameLinks.isPlain (h : SameLinks t u) (ht : t.IsPlain) : u.IsPlain := by
  intro id hid
  rw [h.size] at hid
  rw [h.path]
  exact ht id hid

theorem IsPlain.addSon (ht : t.IsPlain) {id : Nat} {name : String} (hid : id < t.size)
    (hname : '/' ∉ name.toList) : (t.addSon id name).1.IsPlain := by
  intro other hother n hmem
  rw [size_addSon] at hother
  rcases Nat.lt_succ_iff_lt_or_eq.mp hother with hlt | heq
  · rw [path_addSon hlt] at hmem
    exact ht other hlt n hmem
  · rw [heq, node_addSon_new, List.mem_append, List.mem_singleton] at hmem
    rcases hmem with hmem | rfl
    · exact ht id hid n hmem
    · exact hname

theorem IsPlain.createBelow (ht : t.IsPlain) (h : t.WellFormed) {id : Nat} (hid : id < t.size)
    {path : List String} (hpath : ∀ name ∈ path, '/' ∉ name.toList) :
    (t.createBelow id path).1.IsPlain :=
  (createBelow_induction h hid ht fun _ _ name hmem _ hid _ hu =>
    hu.addSon hid (hpath name hmem)).2.2

end Catalog.Tree
