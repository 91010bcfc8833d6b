import Catalog.Proofs.Normal.Ordering

/-!
# Items in order

Ordering a tree puts the items of every family in the order of their ranks, as far as these have
one, and numbers them in that order. Visits to other families change ranks of families only, so one
visit settles the items of a family.

* `Family.filter_rank_sortItems` says that sorting is stable;
* `Item.PutInOrder` collects what is true of the items afterwards, and
  `Tree.WellFormed.putInOrder_orderAll` says that it is true of every family.
-/

namespace Catalog

open Std

/-- The second list of items is the first, numbered from one, in the order of the ranks if they are
of one kind and as it was otherwise. Nothing but the numbers of the items is new. -/
structure Item.PutInOrder (before after : List Item) : Prop where
  perm : (after.map unnumbered).Perm (before.map unnumbered)
  numbered : after.map number = (List.range' 1 before.length).map some
  /-- Ranks of one kind do not decrease. -/
  sorted : Rank.HaveOneKind (before.map rank) →
    after.Pairwise fun a b => (Rank.compareOptional a.rank b.rank).isLE = true
  /-- Items of equal rank stay in order. -/
  stable : ∀ r, (after.filter fun item => item.rank = r).map unnumbered =
    (before.filter fun item => item.rank = r).map unnumbered
  /-- Ranks of several kinds leave the items where they are. -/
  kept : ¬ Rank.HaveOneKind (before.map rank) → after.map unnumbered = before.map unnumbered

namespace Family

/-- Which items have a rank can be told without their numbers. -/
theorem filter_rank_unnumbered (items : List Item) (r : Option Rank) :
    (items.filter fun item => item.rank = r).map Item.unnumbered =
      (items.map Item.unnumbered).filter fun item => item.rank = r := by
  rw [List.filter_map]
  rfl

/-- Items of equal rank come out of sorting in the order in which they went in. -/
theorem filter_rank_sortItems (items : List Item) (r : Option Rank) :
    (sortItems items).filter (fun item => item.rank = r) = items.filter fun item =>
      item.rank = r := by
  have hsorted : (items.filter fun item => item.rank = r).Pairwise fun a b =>
      (Rank.compareOptional a.rank b.rank).isLE = true := by
    refine List.pairwise_of_forall_mem_list fun a ha b hb => ?_
    have ha' : a.rank = r := of_decide_eq_true (List.mem_filter.mp ha).2
    have hb' : b.rank = r := of_decide_eq_true (List.mem_filter.mp hb).2
    rw [ha', hb']
    exact ReflCmp.isLE_rfl
  -- what is in order already is a part of the sorted list, and there are no other items of the rank
  have hpart : (items.filter fun item => item.rank = r).Sublist (sortItems items) :=
    List.sublist_mergeSort (fun _ _ _ => TransCmp.isLE_trans)
      (fun a b => isLE_total Rank.compareOptional a.rank b.rank) hsorted List.filter_sublist
  have hpart' := hpart.filter fun item => item.rank = r
  rw [List.filter_filter] at hpart'
  simp only [Bool.and_self] at hpart'
  exact (hpart'.eq_of_length ((perm_sortItems items).filter _).length_eq.symm).symm

/-- Ordering the items of a family puts them in order. -/
theorem putInOrder_orderItems (f : Family) : Item.PutInOrder f.items f.orderItems where
  perm := perm_unnumbered_orderItems f
  numbered := by
    have h := (isOrdered_of_items (f := { f with items := f.orderItems }) rfl).numbered
    rw [length_orderItems] at h
    exact h
  sorted hkind := by
    have h : ({ f with items := f.orderItems } : Family).IsOrdered := isOrdered_of_items rfl
    apply h.sorted
    rw [hasUniformItems, Rank.areUniform_of_perm (perm_map_rank_orderItems f)]
    exact Rank.areUniform_iff.mpr hkind
  stable r := by
    rw [filter_rank_unnumbered, orderItems, unnumbered_numberItems, ← filter_rank_unnumbered]
    split
    · rw [filter_rank_sortItems]
    · rfl
  kept hmixed := by
    rw [orderItems, unnumbered_numberItems, hasUniformItems,
      if_neg (mt Rank.areUniform_iff.mp hmixed)]

end Family

namespace Tree

variable {t : Tree}

/-- Ordering a tree puts the items of every family in order: the items of one family are not touched
by what is done to the ranks of others. -/
theorem WellFormed.putInOrder_orderAll (h : t.WellFormed) (id : Nat) :
    Item.PutInOrder (t.items id) (t.orderAll.value.items id) := by
  by_cases hid : id < t.size
  · have hitems : t.orderAll.value.items id = (t.family id).orderItems := by
      rw [items, h.family_orderAll hid]
    rw [hitems]
    exact Family.putInOrder_orderItems (t.family id)
  · have hsize := h.sameLinks_orderAll.size
    rw [items, items, family_of_size_le (by omega), family_of_size_le (by omega)]
    exact ⟨List.Perm.refl _, rfl, fun _ => List.Pairwise.nil, fun _ => rfl, fun _ => rfl⟩

/-- Ranks of one kind with a tie in one family, and of two kinds in the family below it. -/
theorem putInOrder_of_tie_and_mixed_kinds :
    let a : Item := { title := "a", rank := some (.int 2), number := some 9 }
    let b : Item := { title := "b", rank := some (.int 2) }
    let c : Item := { title := "c", rank := some (.int 10) }
    let ties := ((∅ : Tree).create ["Sales", "North"]).1.modify 1 fun f =>
      { f with items := [c, b, a] }
    let t := ties.modify 2 fun f =>
      { f with items := [{ title := "b", rank := some (.int 1) }, { title := "a" }] }
    t.WellFormed ∧ (∀ id, Item.PutInOrder (t.items id) (t.orderAll.value.items id)) ∧
      t.orderAll.value.items 1 =
        [{ b with number := some 1 }, { a with number := some 2 }, { c with number := some 3 }] ∧
      (t.orderAll.value.items 2).map (fun item => (item.title, item.number)) =
        [("b", some 1), ("a", some 2)] := by
  intro a b c ties t
  have hreachable : t.Reachable := .change 2 _ (.change 1 _ (.create _ .empty (by decide)))
  have h : t.WellFormed := hreachable.wellFormed
  have hsort : Family.sortItems [c, b, a] = [b, a, c] := by
    have hcb : (Rank.compareOptional c.rank b.rank).isLE = false := by decide
    have hca : (Rank.compareOptional c.rank a.rank).isLE = false := by decide
    have hba : (Rank.compareOptional b.rank a.rank).isLE = true := by decide
    simp [Family.sortItems, List.mergeSort, hcb, hca, hba]
  have hties : t.orderAll.value.items 1 = Family.numberItems (Family.sortItems [c, b, a]) := by
    rw [items, h.family_orderAll (by decide +kernel)]
    rfl
  rw [hsort] at hties
  exact ⟨h, h.putInOrder_orderAll, hties, by decide +kernel⟩

end Tree

end Catalog
