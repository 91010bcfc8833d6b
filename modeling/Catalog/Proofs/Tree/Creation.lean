import Catalog.Proofs.Tree.WellFormed

/-!
# What making a path leads to

A path is made one name after the other. Names that lead on are followed, and from the first one
that does not on every name gets a new family.

* `Tree.IsLinked` says that the places, paths, parents and sons of a tree agree:
  `Reachable.isLinked`;
* `findBelow?_createBelow` says where a path that has been made ends, and
  `createBelow_of_findBelow?` that making it again changes nothing;
* `path_of_made` says which families are new;
* `Tree.Makes` puts together what a path that is made adds and what it keeps, and
  `makes_createBelow` that this is so on every tree that can be made.
-/

namespace Catalog.Tree

variable {t u : Tree}

/-! ### Links that agree -/

/-- The root is the first node, every other node hangs below an earlier one that leads back to it,
and looking a path up is the inverse of reading it off a node. -/
structure IsLinked (t : Tree) : Prop where
  root : Tree.root < t.size ∧ (t.node Tree.root).path = [] ∧ (t.node Tree.root).parent = none
  parent : ∀ id < t.size, id ≠ Tree.root → ∃ parent name, parent < id ∧
    (t.node id).parent = some parent ∧
    (t.node id).name? = some name ∧ t.son? parent name = some id ∧
    (t.node id).path = (t.node parent).path ++ [name]
  sons : ∀ id < t.size, ∀ e ∈ (t.node id).sons.entries, e.2 < t.size ∧ (t.node e.2).parent = some id
  find? : ∀ path id, t.find? path = some id ↔ id < t.size ∧ (t.node id).path = path
  apart : ∀ a < t.size, ∀ b < t.size, (t.node a).path = (t.node b).path → a = b

theorem Reachable.isLinked (h : t.Reachable) : t.IsLinked := by
  have hwf := h.wellFormed
  refine ⟨⟨hwf.root_lt, hwf.path_root, hwf.parent_root⟩, fun id hid hne => ?_, fun id _ e he => ?_,
    fun path id => hwf.find?_eq_some_iff, fun a ha b hb => hwf.path_injective ha hb⟩
  · obtain ⟨parent, name, hlt, hparent, hpath, hson⟩ := hwf.exists_parent hid hne
    have hname : (t.node id).name? = some name := by
      rw [Node.name?, hpath]
      exact List.getLast?_concat
    exact ⟨parent, name, hlt, hparent, hname, hson, hpath⟩
  · have hson : t.son? id e.1 = some e.2 := SortedMap.mem_entries_iff.mp he
    obtain ⟨hlt, hparent, _⟩ := hwf.down id e.1 e.2 hson
    exact ⟨hlt, hparent⟩

/-! ### Where a path ends -/

theorem Extends.findBelow? (h : Extends t u) {id last : Nat} {path : List String}
    (hfind : t.findBelow? id path = some last) : u.findBelow? id path = some last := by
  induction path generalizing id with
  | nil => exact hfind
  | cons name rest ih =>
    obtain ⟨son, hson, hrest⟩ := Option.bind_eq_some_iff.mp hfind
    exact Option.bind_eq_some_iff.mpr ⟨son, h.son? id name son hson, ih hrest⟩

/-- The path leads to the place that making it gives. -/
theorem WellFormed.findBelow?_createBelow (h : t.WellFormed) {id : Nat} (hid : id < t.size)
    (path : List String) :
    (t.createBelow id path).1.findBelow? id path = some (t.createBelow id path).2 := by
  induction path generalizing t id with
  | nil => rfl
  | cons name rest ih =>
    rw [Tree.createBelow]
    cases hson : t.son? id name with
    | some son =>
      have hlt := (h.down id name son hson).1
      have hkept := (h.extends_createBelow hlt rest).son? id name son hson
      exact Option.bind_eq_some_iff.mpr ⟨son, hkept, ih h hlt⟩
    | none =>
      have hmade := h.addSon hid hson
      have hlt : t.size < (t.addSon id name).1.size := by
        rw [size_addSon]
        exact Nat.lt_succ_self t.size
      have hnew : (t.addSon id name).1.son? id name = some t.size := by
        rw [son?_addSon hid, if_pos ⟨rfl, rfl⟩]
      have hkept := (hmade.extends_createBelow hlt rest).son? id name t.size hnew
      exact Option.bind_eq_some_iff.mpr ⟨t.size, hkept, ih hmade hlt⟩

/-- Making a path that is there changes nothing. -/
theorem createBelow_of_findBelow? {id last : Nat} {path : List String}
    (h : t.findBelow? id path = some last) : t.createBelow id path = (t, last) := by
  induction path generalizing id with
  | nil =>
    cases h
    rfl
  | cons name rest ih =>
    obtain ⟨son, hson, hrest⟩ := Option.bind_eq_some_iff.mp h
    rw [Tree.createBelow, hson]
    exact ih hrest

/-! ### Which families are new -/

/-- The path of a new family goes from the start along a part of the path that was made. -/
theorem WellFormed.path_of_made (h : t.WellFormed) {id k : Nat} (hid : id < t.size)
    {path : List String} (hnew : t.size ≤ k) (hk : k < (t.createBelow id path).1.size) :
    ∃ q, q <+: path ∧ ((t.createBelow id path).1.node k).path = (t.node id).path ++ q := by
  induction path generalizing t id with
  | nil => exact absurd hk (Nat.not_lt.mpr hnew)
  | cons name rest ih =>
    rw [Tree.createBelow] at hk ⊢
    cases hson : t.son? id name with
    | some son =>
      simp only [hson] at hk ⊢
      obtain ⟨hlt, _, hpath⟩ := h.down id name son hson
      obtain ⟨q, hq, hkpath⟩ := ih h hlt hnew hk
      refine ⟨name :: q, List.cons_prefix_cons.mpr ⟨rfl, hq⟩, ?_⟩
      rw [hkpath, hpath, List.append_assoc, List.singleton_append]
    | none =>
      simp only [hson] at hk ⊢
      have hmade := h.addSon hid hson
      have hsize : (t.addSon id name).1.size = t.size + 1 := size_addSon t id name
      have hlt : t.size < (t.addSon id name).1.size := by omega
      have hpath : ((t.addSon id name).1.node t.size).path =
          (t.node id).path ++ [name] := by rw [node_addSon_new]
      rcases Nat.eq_or_lt_of_le hnew with rfl | hlater
      · -- the son that was made first
        refine ⟨[name], List.cons_prefix_cons.mpr ⟨rfl, List.nil_prefix⟩, ?_⟩
        exact ((hmade.extends_createBelow hlt rest).path t.size hlt).trans hpath
      · obtain ⟨q, hq, hkpath⟩ := ih hmade hlt (by omega) hk
        refine ⟨name :: q, List.cons_prefix_cons.mpr ⟨rfl, hq⟩, ?_⟩
        have hend : (t.addSon id name).2 = t.size := rfl
        rw [hend, hkpath, hpath, List.append_assoc, List.singleton_append]

/-- The new families are those of the prefixes that were missing. -/
theorem WellFormed.exists_made_iff (h : t.WellFormed) {id : Nat} (hid : id < t.size)
    {path p : List String} :
    (∃ k, t.size ≤ k ∧ k < (t.createBelow id path).1.size ∧
      ((t.createBelow id path).1.node k).path = p) ↔
      (∃ q, q <+: path ∧ (t.node id).path ++ q = p) ∧ t.find? p = none := by
  have hmade : (t.createBelow id path).1.WellFormed := h.createBelow hid path
  have hgrown := h.extends_createBelow hid path
  constructor
  · rintro ⟨k, hnew, hk, rfl⟩
    obtain ⟨q, hq, hpath⟩ := h.path_of_made hid hnew hk
    refine ⟨⟨q, hq, hpath.symm⟩, Option.eq_none_iff_forall_ne_some.mpr fun old hfind => ?_⟩
    obtain ⟨hold, hsame⟩ := h.find?_eq_some_iff.mp hfind
    rw [← hgrown.path old hold] at hsame
    have heq := hmade.path_injective (Nat.lt_of_lt_of_le hold hgrown.size_le) hk hsame
    omega
  · rintro ⟨⟨q, ⟨rest, rfl⟩, rfl⟩, hmissing⟩
    -- the whole path leads on from the end of the prefix, so the prefix is there
    have hfind := h.findBelow?_createBelow hid (q ++ rest)
    rw [findBelow?_append] at hfind
    obtain ⟨k, hk, _⟩ := Option.bind_eq_some_iff.mp hfind
    have hid' := Nat.lt_of_lt_of_le hid hgrown.size_le
    obtain ⟨hlt, hpath⟩ := hmade.path_of_findBelow? hid' hk
    rw [hgrown.path id hid] at hpath
    refine ⟨k, Nat.not_lt.mp fun hold => ?_, hlt, hpath⟩
    rw [hgrown.path k hold] at hpath
    rw [h.find?_eq_some_iff.mpr ⟨hold, hpath⟩] at hmissing
    cases hmissing

/-! ### One path -/

/-- The second tree is the first with a path made below a place, and the path ends at `last`.
Earlier families keep their places, their paths and what is known about them. One new family, about
which nothing is known, stands at every prefix that was missing, and making the path again changes
nothing. -/
structure Makes (t : Tree) (id : Nat) (path : List String) (u : Tree) (last : Nat) : Prop where
  last_lt : last < u.size
  path_last : (u.node last).path = (t.node id).path ++ path
  kept : Extends t u
  made : ∀ p, (∃ k, t.size ≤ k ∧ k < u.size ∧ (u.node k).path = p) ↔
    (∃ q, q <+: path ∧ (t.node id).path ++ q = p) ∧ t.find? p = none
  bare : ∀ k, t.size ≤ k → u.family k = {}
  again : u.createBelow id path = (u, last)
  again_from_root : u.create ((t.node id).path ++ path) = (u, last)

theorem WellFormed.makes_createBelow (h : t.WellFormed) {id : Nat} (hid : id < t.size)
    (path : List String) : t.Makes id path (t.createBelow id path).1 (t.createBelow id path).2 := by
  have hmade : (t.createBelow id path).1.WellFormed := h.createBelow hid path
  have hgrown := h.extends_createBelow hid path
  have hfind := h.findBelow?_createBelow hid path
  have hid' := Nat.lt_of_lt_of_le hid hgrown.size_le
  obtain ⟨hlast, hpath⟩ := hmade.path_of_findBelow? hid' hfind
  rw [hgrown.path id hid] at hpath
  refine ⟨hlast, hpath, hgrown, fun p => h.exists_made_iff hid,
    fun k hk => ?_, createBelow_of_findBelow? hfind, ?_⟩
  · rw [hgrown.family, family_of_size_le hk]
  · have hroot : (t.createBelow id path).1.findBelow? Tree.root ((t.node id).path ++ path) =
        some (t.createBelow id path).2 := hmade.find?_eq_some_iff.mpr ⟨hlast, hpath⟩
    exact createBelow_of_findBelow? hroot

/-- On every tree that can be made, the links agree, and making a path below any family adds what
was missing of the path, keeps everything else and leads to a tree whose links agree again. -/
theorem isLinked_and_makes_createBelow (h : t.Reachable) {id : Nat} (hid : id < t.size)
    (path : List String) :
    t.IsLinked ∧ (t.createBelow id path).1.IsLinked ∧
      t.Makes id path (t.createBelow id path).1 (t.createBelow id path).2 :=
  ⟨h.isLinked, (Reachable.create path h hid).isLinked, h.wellFormed.makes_createBelow hid path⟩

/-- A family that is described before a path is made below it, of which one step is there
already. -/
theorem isLinked_and_makes_below_inner_family :
    let t := ((∅ : Tree).create ["Sales", "North"]).1.modify 1 fun f =>
      { f with aliasName := some "S" }
    (t.Reachable ∧ 1 < t.size) ∧
      t.IsLinked ∧ (t.createBelow 1 ["North", "Shops", "Open"]).1.IsLinked ∧
      t.Makes 1 ["North", "Shops", "Open"] (t.createBelow 1 ["North", "Shops", "Open"]).1
        (t.createBelow 1 ["North", "Shops", "Open"]).2 := by
  intro t
  have h : t.Reachable := .change 1 _ (.create _ .empty (by decide))
  have hid : 1 < t.size := by decide
  exact ⟨⟨h, hid⟩, isLinked_and_makes_createBelow h hid _⟩

end Catalog.Tree
