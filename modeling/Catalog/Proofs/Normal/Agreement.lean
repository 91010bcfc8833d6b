import Catalog.Normal.Basic
import Catalog.Proofs.Normal.Ordering
import Catalog.Proofs.Normal.Retention
import Catalog.Proofs.Normal.Settling

/-!
# Trees that show the same

Items go to their places, values are settled and defaults are filled in before labels spread. What
this does to a family depends on the family, its name and the items that end there. The last two
steps of making a tree normal spread labels and put everything in order. Two trees with the same
items come out alike exactly if what they start with comes out alike.

* `Tree.Agrees` says that two trees show the same of their families and items;
* `Tree.finish` takes the last two steps, and `SameItems.agrees_finish_iff` says when the outcomes
  agree;
* `Tree.prepare` takes the first steps, and `normalize_eq_finish` says that the other two are left;
* `WellFormed.family_prepare` says what becomes of a family;
* `SameItems.prepare` says that trees with the same items still have the same items.
-/

namespace Catalog

namespace Tree

variable {t u : Tree}

/-! ### Ranks and order -/

theorem WellFormed.siblingRank_congr (ht : t.WellFormed) (h : SameLinks t u)
    (hrank : ∀ id < t.size, (u.family id).rank = (t.family id).rank) {id : Nat}
    (hid : id < t.size) :
    u.siblingRank id = t.siblingRank id := by
  rw [siblingRank, siblingRank, h.parent, hrank id hid]
  cases (t.node id).parent with
  | none => rfl
  | some parent =>
    have huniform : u.hasUniformSons parent = t.hasUniformSons parent :=
      hasUniformSons_congr h fun son hson => hrank son (ht.of_mem_sons hson).2.1
    simp only [huniform]

end Tree

/-- The labels and the keywords of an item. -/
def Item.marks (item : Item) : SortedSet Label × SortedSet String := (item.labels, item.index)

/-- An item gets the same labels and keywords exactly if it gets the same labels. -/
theorem Item.marks_inherit_eq_iff {item : Item} {labels others : SortedSet Label} :
    (item.inherit labels).marks = (item.inherit others).marks ↔
      item.labels ∪ labels = item.labels ∪ others := by
  constructor
  · intro h
    exact congrArg Prod.fst h
  · intro h
    simp only [marks, inherit, h]

namespace Family

/-- The items in the order in which they are numbered. -/
def inOrder (f : Family) : List Item := if f.hasUniformItems then sortItems f.items else f.items

theorem mem_inOrder {f : Family} {item : Item} : item ∈ f.inOrder ↔ item ∈ f.items := by
  rw [inOrder]
  split
  · exact (perm_sortItems f.items).mem_iff
  · exact Iff.rfl

theorem orderItems_eq (f : Family) : f.orderItems = numberItems f.inOrder := rfl

theorem inOrder_congr {f g : Family} (h : f.items = g.items) : f.inOrder = g.inOrder := by
  rw [inOrder, inOrder, hasUniformItems, hasUniformItems, h]

theorem orderItems_congr {f g : Family} (h : f.items = g.items) : f.orderItems = g.orderItems := by
  rw [orderItems_eq, orderItems_eq, inOrder_congr h]

theorem inOrder_inherit {f g : Family} {labels : SortedSet Label}
    (h : f.items = g.items.map (Item.inherit labels)) :
    f.inOrder = g.inOrder.map (Item.inherit labels) := by
  have huniform : f.hasUniformItems = g.hasUniformItems := by
    rw [hasUniformItems, h, List.map_map]
    rfl
  have hsort : sortItems f.items = (sortItems g.items).map (Item.inherit labels) := by
    rw [h, sortItems, sortItems]
    exact (List.map_mergeSort (f := Item.inherit labels) fun _ _ _ _ => rfl).symm
  rw [inOrder, inOrder, huniform]
  split
  · exact hsort
  · exact h

/-- Labels that items inherit have no part in their order and their numbers. -/
theorem orderItems_inherit {f g : Family} {labels : SortedSet Label}
    (h : f.items = g.items.map (Item.inherit labels)) :
    f.orderItems = g.orderItems.map (Item.inherit labels) := by
  have hnumber : ∀ items : List Item,
      numberItems (items.map (Item.inherit labels)) =
      (numberItems items).map (Item.inherit labels) :=
    fun items => List.ext_getElem (by simp [numberItems])
      fun i _ _ => by simp [numberItems, Item.inherit]
  rw [orderItems_eq, inOrder_inherit h, hnumber, orderItems_eq]

theorem marks_orderItems {f g : Family} {labels : SortedSet Label}
    (h : f.items = g.items.map (Item.inherit labels)) :
    f.orderItems.map Item.marks = g.inOrder.map fun item => (item.inherit labels).marks := by
  have hnumber : ∀ items : List Item, (numberItems items).map Item.marks = items.map Item.marks :=
    fun items => List.ext_getElem (by simp [numberItems])
      fun i _ _ => by simp [numberItems, Item.marks]
  rw [orderItems_eq, hnumber, inOrder_inherit h, List.map_map]
  rfl

end Family

namespace Tree

variable {t u : Tree}

/-- The second tree shows the same as the first: families have the same texts, aliases, ranks and
labels, and items the same labels and keywords. -/
structure Agrees (t u : Tree) : Prop where
  links : SameLinks t u
  text : ∀ id < t.size, (u.family id).text = (t.family id).text
  aliasName : ∀ id < t.size, (u.family id).aliasName = (t.family id).aliasName
  rank : ∀ id < t.size, (u.family id).rank = (t.family id).rank
  labels : ∀ id < t.size, (u.family id).labels = (t.family id).labels
  marks : ∀ id < t.size, (u.items id).map Item.marks = (t.items id).map Item.marks

/-- The tree with labels spread and everything in order. -/
def finish (t : Tree) : Tree := t.spreadLabels.orderAll.value

section Finish

variable (h : t.WellFormed) {id : Nat} (hid : id < t.size)

include h

theorem WellFormed.sameLinks_finish : SameLinks t t.finish :=
  h.sameLinks_spreadLabels.trans (h.sameLinks_spreadLabels.wellFormed h).sameLinks_orderAll

include hid

theorem WellFormed.family_finish :
    t.finish.family id =
      { t.spreadLabels.family id with
        items := (t.spreadLabels.family id).orderItems, rank := t.siblingRank id } := by
  have hlinks := h.sameLinks_spreadLabels
  have hid' : id < t.spreadLabels.size := by
    rw [hlinks.size]
    exact hid
  have hrank : t.spreadLabels.siblingRank id = t.siblingRank id :=
    h.siblingRank_congr hlinks (fun other hother => by rw [h.family_spreadLabels hother]; rfl) hid
  rw [finish, (hlinks.wellFormed h).family_orderAll hid', hrank]

theorem WellFormed.items_finish :
    t.finish.items id = (t.family id).orderItems.map (Item.inherit (t.inheritedLabels id)) := by
  rw [items, h.family_finish hid]
  exact Family.orderItems_inherit (h.items_spreadLabels hid)

theorem WellFormed.text_finish : (t.finish.family id).text = (t.family id).text := by
  rw [h.family_finish hid, h.family_spreadLabels hid]
  rfl

theorem WellFormed.aliasName_finish : (t.finish.family id).aliasName = (t.family id).aliasName := by
  rw [h.family_finish hid, h.family_spreadLabels hid]
  rfl

theorem WellFormed.rank_finish : (t.finish.family id).rank = t.siblingRank id := by
  rw [h.family_finish hid]

theorem WellFormed.labels_finish :
    (t.finish.family id).labels = (t.spreadLabels.family id).labels := by
  rw [h.family_finish hid]

theorem WellFormed.marks_finish :
    (t.finish.items id).map Item.marks =
      (t.family id).inOrder.map fun item => (item.inherit (t.inheritedLabels id)).marks := by
  rw [items, h.family_finish hid]
  exact Family.marks_orderItems (h.items_spreadLabels hid)

end Finish

namespace SameItems

theorem marks_finish_iff (h : SameItems t u) (ht : t.WellFormed) {id : Nat} (hid : id < t.size) :
    (u.finish.items id).map Item.marks = (t.finish.items id).map Item.marks ↔
      ∀ item ∈ t.items id, item.labels ∪ u.inheritedLabels id =
        item.labels ∪ t.inheritedLabels id := by
  have horder : (u.family id).inOrder = (t.family id).inOrder := Family.inOrder_congr (h.items id)
  rw [(h.toSameLinks.wellFormed ht).marks_finish (h.lt_size hid), ht.marks_finish hid, horder,
    List.map_inj_left]
  simp only [Item.marks_inherit_eq_iff, Family.mem_inOrder]
  exact Iff.rfl

/-- Two trees with the same items, whose ranks follow from their aliases, end up alike exactly if
texts, aliases and the labels after spreading are the same. -/
theorem agrees_finish_iff (h : SameItems t u) (ht : t.WellFormed)
    (hrank : (∀ id < t.size, (u.family id).aliasName = (t.family id).aliasName) →
      ∀ id < t.size, (u.family id).rank = (t.family id).rank) :
    Agrees t.finish u.finish ↔
      (∀ id < t.size, (u.family id).text = (t.family id).text) ∧
        (∀ id < t.size, (u.family id).aliasName = (t.family id).aliasName) ∧ SameSpread t u := by
  have hlinks := h.toSameLinks
  have hu : u.WellFormed := hlinks.wellFormed ht
  have hsize : t.finish.size = t.size := ht.sameLinks_finish.size
  constructor
  · intro hex
    obtain ⟨-, htext, halias, -, hlabels, hmarks⟩ := hex
    rw [hsize] at htext halias hlabels hmarks
    refine ⟨fun id hid => ?_, fun id hid => ?_, fun id hid => ?_, fun id hid => ?_⟩
    · rw [← hu.text_finish (h.lt_size hid), ← ht.text_finish hid]
      exact htext id hid
    · rw [← hu.aliasName_finish (h.lt_size hid), ← ht.aliasName_finish hid]
      exact halias id hid
    · rw [← hu.labels_finish (h.lt_size hid), ← ht.labels_finish hid]
      exact hlabels id hid
    · exact (h.marks_finish_iff ht hid).mp (hmarks id hid)
  · intro hex
    obtain ⟨htext, halias, hspread⟩ := hex
    refine ⟨ht.sameLinks_finish.symm.trans (hlinks.trans hu.sameLinks_finish),
      ?_, ?_, ?_, ?_, ?_⟩ <;>
      rw [hsize] <;> intro id hid
    · rw [hu.text_finish (h.lt_size hid), ht.text_finish hid]
      exact htext id hid
    · rw [hu.aliasName_finish (h.lt_size hid), ht.aliasName_finish hid]
      exact halias id hid
    · rw [hu.rank_finish (h.lt_size hid), ht.rank_finish hid]
      exact ht.siblingRank_congr hlinks (hrank halias) hid
    · rw [hu.labels_finish (h.lt_size hid), ht.labels_finish hid]
      exact hspread.labels id hid
    · exact (h.marks_finish_iff ht hid).mpr (hspread.borne id hid)

end SameItems

end Tree

/-! ### The first steps of making a tree normal -/

theorem Family.rank_prepared (f : Family) (name : String) :
    (f.settle.value.fillDefaults name).rank =
      some (f.rank.getD
        (.text (Text.lower ((f.settle.value.fillDefaults name).aliasName.getD "")))) := rfl

namespace Tree

variable {t u : Tree}

/-- The tree with its items in their places, values settled and defaults filled in. -/
def prepare (t : Tree) : Tree := t.relocateItems.value.settle.value.fillDefaults

theorem normalize_eq_finish (t : Tree) : t.normalize.value = t.prepare.finish := rfl

theorem sameLinks_prepare (t : Tree) : SameLinks t.relocateItems.value t.prepare :=
  (sameLinks_settle _).trans (sameLinks_fillDefaults _)

section Prepare

variable (h : t.WellFormed)

include h

theorem WellFormed.prepare : t.prepare.WellFormed :=
  (sameLinks_prepare t).wellFormed h.relocateItems

theorem WellFormed.size_le_prepare : t.size ≤ t.prepare.size := by
  rw [(sameLinks_prepare t).size]
  exact h.relocatedUpTo_all.size_le

theorem WellFormed.path_prepare {id : Nat} (hid : id < t.size) :
    (t.prepare.node id).path = (t.node id).path := by
  rw [(sameLinks_prepare t).path]
  exact h.relocatedUpTo_all.path id hid

theorem WellFormed.family_prepare {id : Nat} (hid : id < t.prepare.size) :
    t.prepare.family id =
      ({ t.family id with items := t.relocateItems.value.items id }
        : Family).settle.value.fillDefaults ((t.prepare.node id).name?.getD "") := by
  have hsettle := sameLinks_settle t.relocateItems.value
  have hfill := sameLinks_fillDefaults t.relocateItems.value.settle.value
  have hid' : id < t.relocateItems.value.settle.value.size := by
    rw [← hfill.size]
    exact hid
  have hname : (t.prepare.node id).name? = (t.relocateItems.value.settle.value.node id).name? := by
    rw [Node.name?, Node.name?]
    exact congrArg List.getLast? (hfill.path id)
  rw [hname, Tree.prepare, family_fillDefaults hid',
    family_settle (by rw [← hsettle.size]; exact hid'), h.relocatedUpTo_all.frame id]

theorem WellFormed.items_prepare (id : Nat) :
    t.prepare.items id = (t.relocateItems.value.items id).map fun item =>
      item.settle.value.fillRank := by
  by_cases hid : id < t.prepare.size
  · rw [items, h.family_prepare hid]
    show (Logged.mapList Item.settle (t.relocateItems.value.items id)).value.map Item.fillRank = _
    rw [Logged.value_mapList, List.map_map]
    rfl
  · have hsize := (sameLinks_prepare t).size
    rw [items, family_of_size_le (by omega), items, family_of_size_le (by omega)]
    rfl

theorem SameItems.prepare (hu : SameItems t u) : SameItems t.prepare u.prepare where
  toSameLinks := (sameLinks_prepare t).symm.trans
    ((hu.relocateItems h).toSameLinks.trans (sameLinks_prepare u))
  items id := by
    rw [h.items_prepare, (hu.toSameLinks.wellFormed h).items_prepare, (hu.relocateItems h).items]

end Prepare

theorem WellFormed.rank_prepare (h : t.WellFormed) {id : Nat} (hid : id < t.prepare.size) :
    (t.prepare.family id).rank =
      some ((t.family id).rank.getD
        (.text (Text.lower ((t.prepare.family id).aliasName.getD "")))) := by
  rw [h.family_prepare hid, Family.rank_prepared]

end Tree

end Catalog
