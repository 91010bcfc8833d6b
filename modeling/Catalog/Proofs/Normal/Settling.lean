import Catalog.Normal.Settling
import Catalog.Proofs.Normal.Ordering
import Catalog.Proofs.Normal.Spreading

/-!
# What stays settled and filled in

Settling leaves nothing pending and filling in leaves no rank or alias out. Spreading labels and
ordering undo neither, since they keep what is pending and only replace ranks by ranks.

* `Family.IsSettled` and `Family.IsFilled` say so of one family and its items;
* `Tree.settle_of_isSettled` and `Tree.fillDefaults_of_isFilled` say that nothing is left to do
  then.
-/

namespace Catalog

theorem Item.settle_of_pending {item : Item} (h : item.pending = {}) :
    item.settle.value = item := by
  obtain ⟨_, _, _, _, _, _, _, _, _, _, _, _, pending⟩ := item
  cases h
  rfl

namespace Family

variable {f : Family}

/-- Nothing is pending in the family or its items. -/
structure IsSettled (f : Family) : Prop where
  pending : f.pending = {}
  items : ∀ item ∈ f.items, item.pending = {}

/-- The family has an alias and a rank, and its items have ranks. -/
structure IsFilled (f : Family) : Prop where
  aliasName : f.aliasName.isSome = true
  rank : f.rank.isSome = true
  items : ∀ item ∈ f.items, item.rank.isSome = true

theorem isSettled_settle (f : Family) : f.settle.value.IsSettled where
  pending := rfl
  items item hmem := by
    have hmap : item ∈ f.items.map fun a => a.settle.value := by
      rw [← Logged.value_mapList]
      exact hmem
    obtain ⟨before, _, rfl⟩ := List.mem_map.mp hmap
    rfl

theorem length_items_settle (f : Family) : f.settle.value.items.length = f.items.length := by
  have hitems : f.settle.value.items = (Logged.mapList Item.settle f.items).value := rfl
  rw [hitems, Logged.value_mapList, List.length_map]

theorem settle_of_isSettled (h : f.IsSettled) : f.settle.value = f := by
  have hitems : (Logged.mapList Item.settle f.items).value = f.items := by
    rw [Logged.value_mapList, List.map_congr_left fun item hmem =>
      Item.settle_of_pending (h.items item hmem)]
    exact List.map_id' f.items
  have hpending := h.pending
  obtain ⟨_, _, _, _, _, _, pending⟩ := f
  cases hpending
  simp only [settle, settledLabels, Logged.value_bind, Logged.value_pure, hitems]
  rfl

theorem isFilled_fillDefaults (f : Family) (name : String) : (f.fillDefaults name).IsFilled where
  aliasName := rfl
  rank := rfl
  items item hmem := by
    obtain ⟨before, _, rfl⟩ := List.mem_map.mp hmem
    rfl

theorem fillDefaults_of_isFilled (h : f.IsFilled) (name : String) : f.fillDefaults name = f := by
  obtain ⟨shown, hshown⟩ := Option.isSome_iff_exists.mp h.aliasName
  obtain ⟨rank, hrank⟩ := Option.isSome_iff_exists.mp h.rank
  have hitems : f.items.map Item.fillRank = f.items := by
    rw [List.map_congr_left (g := id) fun item hmem => ?_, List.map_id]
    obtain ⟨r, hr⟩ := Option.isSome_iff_exists.mp (h.items item hmem)
    rw [Item.fillRank, hr, Option.getD_some, ← hr]
    rfl
  rw [fillDefaults, hitems, hshown, hrank, Option.getD_some, Option.getD_some, ← hshown, ← hrank]

theorem IsSettled.fillDefaults (h : f.IsSettled) (name : String) :
    (f.fillDefaults name).IsSettled where
  pending := h.pending
  items item hmem := by
    obtain ⟨before, hbefore, rfl⟩ := List.mem_map.mp hmem
    exact h.items before hbefore

theorem IsSettled.receive (h : f.IsSettled) (own labels : SortedSet Label) :
    (f.receive own labels).IsSettled where
  pending := h.pending
  items item hmem := by
    obtain ⟨before, hbefore, rfl⟩ := List.mem_map.mp hmem
    exact h.items before hbefore

theorem IsFilled.receive (h : f.IsFilled) (own labels : SortedSet Label) :
    (f.receive own labels).IsFilled where
  aliasName := h.aliasName
  rank := h.rank
  items item hmem := by
    obtain ⟨before, hbefore, rfl⟩ := List.mem_map.mp hmem
    exact h.items before hbefore

theorem isSettled_orderItems (h : f.IsSettled) {item : Item} (hmem : item ∈ f.orderItems) :
    item.pending = {} := by
  obtain ⟨before, hbefore, heq⟩ := unnumbered_mem_of_mem_orderItems hmem
  have hpending : item.unnumbered.pending = before.unnumbered.pending := by rw [heq]
  exact hpending.trans (h.items before hbefore)

theorem isFilled_orderItems (h : f.IsFilled) {item : Item} (hmem : item ∈ f.orderItems) :
    item.rank.isSome = true := by
  obtain ⟨before, hbefore, heq⟩ := unnumbered_mem_of_mem_orderItems hmem
  have hrank : item.unnumbered.rank = before.unnumbered.rank := by rw [heq]
  exact (congrArg Option.isSome hrank).trans (h.items before hbefore)

end Family

namespace Tree

variable {t : Tree}

theorem sameLinks_fillDefaults (t : Tree) : SameLinks t t.fillDefaults := sameLinks_mapFamilies t _

theorem family_fillDefaults {id : Nat} (hid : id < t.size) :
    t.fillDefaults.family id = (t.family id).fillDefaults ((t.node id).name?.getD "") :=
  family_mapFamilies t _ hid

/-! ### Settled trees -/

/-- Nothing is pending anywhere. -/
def IsSettled (t : Tree) : Prop := ∀ id < t.size, (t.family id).IsSettled

theorem sameLinks_settle (t : Tree) : SameLinks t t.settle.value := sameLinks_mapFamilies t _

theorem family_settle {id : Nat} (hid : id < t.size) :
    t.settle.value.family id = (t.family id).settle.value :=
  family_mapFamilies t _ hid

theorem isSettled_settle (t : Tree) : t.settle.value.IsSettled := by
  intro id hid
  rw [(sameLinks_settle t).size] at hid
  rw [family_settle hid]
  exact Family.isSettled_settle _

theorem settle_of_isSettled (h : t.IsSettled) : t.settle.value = t := by
  refine (sameLinks_settle t).eq_of_family fun id hid => ?_
  rw [family_settle hid]
  exact Family.settle_of_isSettled (h id hid)

theorem IsSettled.fillDefaults (h : t.IsSettled) : t.fillDefaults.IsSettled := by
  intro id hid
  rw [(sameLinks_fillDefaults t).size] at hid
  rw [family_fillDefaults hid]
  exact (h id hid).fillDefaults _

theorem IsSettled.spreadLabels (h : t.IsSettled) (hwf : t.WellFormed) :
    t.spreadLabels.IsSettled := by
  intro id hid
  rw [hwf.sameLinks_spreadLabels.size] at hid
  have hreceived := (h id hid).receive (t.ownLabels id) (t.inheritedLabels id)
  rw [hwf.family_spreadLabels hid]
  exact ⟨hreceived.pending, hreceived.items⟩

theorem IsSettled.orderAll (h : t.IsSettled) (hwf : t.WellFormed) : t.orderAll.value.IsSettled := by
  intro id hid
  rw [hwf.sameLinks_orderAll.size] at hid
  rw [hwf.family_orderAll hid]
  exact ⟨(h id hid).pending, fun _ hmem => Family.isSettled_orderItems (h id hid) hmem⟩

/-! ### Filled trees -/

/-- All families have aliases and ranks and all items have ranks. -/
def IsFilled (t : Tree) : Prop := ∀ id < t.size, (t.family id).IsFilled

theorem isFilled_fillDefaults (t : Tree) : t.fillDefaults.IsFilled := by
  intro id hid
  rw [(sameLinks_fillDefaults t).size] at hid
  rw [family_fillDefaults hid]
  exact Family.isFilled_fillDefaults _ _

theorem fillDefaults_of_isFilled (h : t.IsFilled) : t.fillDefaults = t := by
  refine (sameLinks_fillDefaults t).eq_of_family fun id hid => ?_
  rw [family_fillDefaults hid]
  exact Family.fillDefaults_of_isFilled (h id hid) _

theorem IsFilled.spreadLabels (h : t.IsFilled) (hwf : t.WellFormed) : t.spreadLabels.IsFilled := by
  intro id hid
  rw [hwf.sameLinks_spreadLabels.size] at hid
  have hreceived := (h id hid).receive (t.ownLabels id) (t.inheritedLabels id)
  rw [hwf.family_spreadLabels hid]
  exact ⟨hreceived.aliasName, hreceived.rank, hreceived.items⟩

theorem isSome_siblingRank {id : Nat} (h : (t.family id).rank.isSome = true) :
    (t.siblingRank id).isSome = true := by
  unfold siblingRank
  split
  · split
    · exact h
    · rw [Option.isSome_map]
      exact h
  · exact h

theorem IsFilled.orderAll (h : t.IsFilled) (hwf : t.WellFormed) : t.orderAll.value.IsFilled := by
  intro id hid
  rw [hwf.sameLinks_orderAll.size] at hid
  have hfilled := h id hid
  rw [hwf.family_orderAll hid]
  exact ⟨hfilled.aliasName, isSome_siblingRank hfilled.rank, fun _ hmem =>
    Family.isFilled_orderItems hfilled hmem⟩

end Tree

end Catalog
