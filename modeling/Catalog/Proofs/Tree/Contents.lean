import Catalog.Proofs.Tree.Preorder

/-!
# What a tree holds

The items of a tree are those of its families together. Making paths adds no items, and putting
other items into one family changes what the tree holds by these.

* `Tree.allItems` lists the items of all families, and `perm_allItems_modify` says what changing one
  family does;
* `Tree.IsBare` holds of a family with neither sub-families nor items, and `Tree.IsFull` of a tree
  without such families;
* `WellFormed.eq_end_of_isBare` says that a path that is made leaves no bare family but its end.
-/

namespace Catalog

/-- What one place holds is exchanged for something else. -/
theorem perm_flatMap_exchange {α : Type} {f g : Nat → List α} {ids : List Nat} {id : Nat}
    (hnodup : ids.Nodup) (hid : id ∈ ids) (hrest : ∀ other, other ≠ id → g other = f other) :
    (ids.flatMap g ++ f id).Perm (ids.flatMap f ++ g id) := by
  have hsplit := List.perm_cons_erase hid
  have hothers : (ids.erase id).flatMap g = (ids.erase id).flatMap f := by
    rw [List.flatMap_def, List.flatMap_def, List.map_congr_left fun other hmem => ?_]
    exact hrest other ((hnodup.mem_erase_iff.mp hmem).1)
  have hf : (ids.flatMap f).Perm ((ids.erase id).flatMap f ++ f id) :=
    (hsplit.flatMap_right f).trans List.perm_append_comm
  have hg : (ids.flatMap g).Perm ((ids.erase id).flatMap f ++ g id) := by
    rw [← hothers]
    exact (hsplit.flatMap_right g).trans List.perm_append_comm
  calc
    (ids.flatMap g ++ f id).Perm ((ids.erase id).flatMap f ++ g id ++ f id) := hg.append_right _
    List.Perm _ ((ids.erase id).flatMap f ++ f id ++ g id) := by
      rw [List.append_assoc, List.append_assoc]
      exact List.perm_append_comm.append_left _
    List.Perm _ (ids.flatMap f ++ g id) := hf.symm.append_right _

namespace Tree

variable {t u : Tree}

/-- The items of all families. -/
def allItems (t : Tree) : List Item := (List.range t.size).flatMap t.items

theorem perm_allItems_modify {id : Nat} (hid : id < t.size) (f : Family → Family) :
    ((t.modify id f).allItems ++ t.items id).Perm (t.allItems ++ (f (t.family id)).items) := by
  have hself : (t.modify id f).items id = (f (t.family id)).items := by
    rw [items, family_modify_self hid]
  rw [allItems, size_modify, ← hself]
  refine perm_flatMap_exchange List.nodup_range (List.mem_range.mpr hid) fun other hne => ?_
  rw [items, family_modify_of_ne hne]
  rfl

theorem perm_allItems_addItem {id : Nat} (hid : id < t.size) (item : Item) :
    (t.addItem id item).allItems.Perm (item :: t.allItems) := by
  have hmodify := perm_allItems_modify hid fun f => { f with items := f.items ++ [item] }
  have hmove : (t.allItems ++ (t.items id ++ [item])).Perm (item :: t.allItems ++ t.items id) := by
    rw [← List.append_assoc]
    exact List.perm_append_singleton _ _
  exact (List.perm_append_right_iff _).mp (hmodify.trans hmove)

/-- New families are without items. -/
theorem Extends.allItems_eq (h : Extends t u) : u.allItems = t.allItems := by
  have hitems : u.items = t.items := funext fun id => by rw [items, h.family, items]
  obtain ⟨more, hmore⟩ := Nat.exists_eq_add_of_le h.size_le
  have hnew : ((List.range more).map fun i => t.size + i).flatMap t.items = [] := by
    refine List.flatMap_eq_nil_iff.mpr fun id hmem => ?_
    obtain ⟨i, _, rfl⟩ := List.mem_map.mp hmem
    rw [items, family_of_size_le (Nat.le_add_right _ _)]
  rw [allItems, hitems, hmore, List.range_add, List.flatMap_append, hnew, List.append_nil]
  rfl

theorem SameLinks.allItems_eq (h : SameLinks t u) (hitems : ∀ id, u.items id = t.items id) :
    u.allItems = t.allItems := by
  rw [allItems, allItems, h.size, funext hitems]

/-! ### Bare families -/

/-- The family has neither sub-families nor items. -/
def IsBare (t : Tree) (id : Nat) : Prop := t.sons id = [] ∧ t.items id = []

/-- Every family has sub-families or items. -/
def IsFull (t : Tree) : Prop := ∀ id < t.size, ¬ t.IsBare id

theorem not_isBare_of_son? {id son : Nat} {name : String} (hs : t.son? id name = some son) :
    ¬ t.IsBare id := by
  intro hbare
  have hson := WellFormed.mem_sons_iff.mpr ⟨name, hs⟩
  rw [hbare.1] at hson
  cases hson

/-- A son that is made may be bare, and the family that gets it is not. -/
theorem isBare_addSon {id other : Nat} {name : String} (hid : id < t.size)
    (hother : other < (t.addSon id name).1.size) (hbare : (t.addSon id name).1.IsBare other) :
    other = t.size ∨ (other < t.size ∧ other ≠ id ∧ t.IsBare other) := by
  rw [size_addSon] at hother
  rcases Nat.lt_succ_iff_lt_or_eq.mp hother with hlt | heq
  · have hne : other ≠ id := by
      rintro rfl
      have hson : (t.addSon other name).1.son? other name = some t.size := by
        rw [son?_addSon hid, if_pos ⟨rfl, rfl⟩]
      exact not_isBare_of_son? hson hbare
    refine Or.inr ⟨hlt, hne, ?_, ?_⟩
    · have hsons := hbare.1
      rw [sons, node_addSon hlt, if_neg hne] at hsons
      exact hsons
    · have hitems := hbare.2
      rw [items, family_addSon] at hitems
      exact hitems
  · exact Or.inl heq

/-- Making a path from the only bare family, if there is any, leaves no bare family but the end. -/
theorem WellFormed.eq_end_of_isBare (h : t.WellFormed) {id : Nat} (hid : id < t.size)
    {path : List String} (hbare : ∀ k < t.size, t.IsBare k → k = id) {k : Nat}
    (hk : k < (t.createBelow id path).1.size) (hkbare : (t.createBelow id path).1.IsBare k) :
    k = (t.createBelow id path).2 := by
  induction path generalizing t id with
  | nil => exact hbare k hk hkbare
  | cons name rest ih =>
    rw [Tree.createBelow] at hk hkbare ⊢
    cases hs : t.son? id name with
    | some son =>
      simp only [hs] at hk hkbare ⊢
      refine ih h (h.down id name son hs).1 (fun other hother hb => ?_) hk hkbare
      exact absurd (hbare other hother hb ▸ hb) (not_isBare_of_son? hs)
    | none =>
      simp only [hs] at hk hkbare ⊢
      have hend : (t.addSon id name).2 < (t.addSon id name).1.size := by
        rw [size_addSon]
        exact Nat.lt_succ_self t.size
      refine ih (h.addSon hid hs) hend (fun other hother hb => ?_) hk hkbare
      refine (isBare_addSon hid hother hb).resolve_right fun hold => ?_
      exact hold.2.1 (hbare other hold.1 hold.2.2)

end Tree

end Catalog
