import Catalog.Proofs.Matching
import Catalog.Proofs.Normal.Agreement
import Catalog.Proofs.Normal.NormalForm
import Catalog.Proofs.Tree.Contents
import Catalog.Proofs.Tree.WellFormed

/-!
# What stays of items

Making a tree normal moves items, settles their values, gives them ranks and labels, and puts them
in order. No item is dropped or doubled on the way, and what needs no settling stays as it is.

* `Item.Keeps` relates an item to what becomes of it, and `Item.AllKept` a list of items to what
  becomes of all of them, in any order;
* `WellFormed.relocate_conserves` is the step of moving items, and
  `WellFormed.relocateItems_conserves` the run: the items stay the same, no family is left bare and
  no name gets a `/`;
* `WellFormed.allKept_normalize`, `WellFormed.isFull_normalize` and `WellFormed.isPlain_normalize`
  say the same of all five steps, and `WellFormed.matches_placed_normalize` says what becomes of
  every item, and where.
-/

namespace Catalog

/-! ### Items -/

namespace Item

variable {a b c : Item} {xs ys zs : List Item}

/-- The second item has the locators, the flag and the remark of the first, and its rank if there is
one. -/
structure Keeps (before after : Item) : Prop where
  name : after.name = before.name
  file : after.file = before.file
  exportFile : after.exportFile = before.exportFile
  showTitle : after.showTitle = before.showTitle
  other : after.other = before.other
  rank : ∀ r, before.rank = some r → after.rank = some r

theorem Keeps.refl (item : Item) : Keeps item item := ⟨rfl, rfl, rfl, rfl, rfl, fun _ h => h⟩

theorem Keeps.trans (h : Keeps a b) (h' : Keeps b c) : Keeps a c where
  name := h'.name.trans h.name
  file := h'.file.trans h.file
  exportFile := h'.exportFile.trans h.exportFile
  showTitle := h'.showTitle.trans h.showTitle
  other := h'.other.trans h.other
  rank r hr := h'.rank r (h.rank r hr)

theorem keeps_settle (item : Item) : Keeps item item.settle.value :=
  ⟨rfl, rfl, rfl, rfl, rfl, fun _ h => h⟩

theorem keeps_fillRank (item : Item) : Keeps item item.fillRank where
  name := rfl
  file := rfl
  exportFile := rfl
  showTitle := rfl
  other := rfl
  rank r hr := by rw [fillRank, hr, Option.getD_some]

theorem keeps_inherit (labels : SortedSet Label) (item : Item) : Keeps item (item.inherit labels) :=
  ⟨rfl, rfl, rfl, rfl, rfl, fun _ h => h⟩

theorem keeps_unnumbered (item : Item) : Keeps item item.unnumbered :=
  ⟨rfl, rfl, rfl, rfl, rfl, fun _ h => h⟩

theorem unnumbered_keeps (item : Item) : Keeps item.unnumbered item :=
  ⟨rfl, rfl, rfl, rfl, rfl, fun _ h => h⟩

/-- Every one of the first items is kept as one of the second, and there are no others. -/
def AllKept (before after : List Item) : Prop :=
  ∃ items, List.Forall₂ Keeps before items ∧ items.Perm after

theorem allKept_of_perm (h : xs.Perm ys) : AllKept xs ys :=
  ⟨xs, List.forall₂_same.mpr fun item _ => Keeps.refl item, h⟩

theorem allKept_map {f : Item → Item} (h : ∀ item, Keeps item (f item)) (items : List Item) :
    AllKept items (items.map f) :=
  matches_map fun item _ => h item

theorem allKept_of_map {f : Item → Item} (h : ∀ item, Keeps (f item) item) (items : List Item) :
    AllKept (items.map f) items :=
  matches_of_map fun item _ => h item

theorem AllKept.trans (h : AllKept xs ys) (h' : AllKept ys zs) : AllKept xs zs :=
  Matches.comp h h' fun _ _ _ => Keeps.trans

end Item

theorem Family.allKept_orderItems (f : Family) : Item.AllKept f.items f.orderItems :=
  (Item.allKept_map Item.keeps_unnumbered f.items).trans
    ((Item.allKept_of_perm (perm_unnumbered_orderItems f).symm).trans
      (Item.allKept_of_map Item.unnumbered_keeps f.orderItems))

namespace Tree

variable {t u : Tree}

/-! ### Moving items -/

/-- The second tree has the items of the first. It has no bare families, and no names with `/`,
unless the first has. -/
structure Conserves (t u : Tree) : Prop where
  items : u.allItems.Perm t.allItems
  full : t.IsFull → u.IsFull
  plain : t.IsPlain → u.IsPlain

theorem Conserves.refl (t : Tree) : Conserves t t := ⟨List.Perm.refl _, id, id⟩

theorem Conserves.trans {v : Tree} (h : Conserves t u) (h' : Conserves u v) : Conserves t v where
  items := h'.items.trans h.items
  full hfull := h'.full (h.full hfull)
  plain hplain := h'.plain (h.plain hplain)

theorem WellFormed.perm_allItems_moveToSink (h : t.WellFormed) {id : Nat} (hid : id < t.size) :
    (t.moveToSink id).allItems.Perm t.allItems := by
  let made := (t.createBelow id [sinkName]).1
  let emptied := made.modify id fun f => { f with items := [] }
  have hgrown := h.extends_createBelow hid [sinkName]
  have hid' : id < made.size := Nat.lt_of_lt_of_le hid hgrown.size_le
  have hsink : t.sink id < emptied.size := by
    rw [size_modify]
    exact h.end_createBelow_lt hid [sinkName]
  have hheld : made.items id = t.items id := by rw [items, hgrown.family, items]
  have htake : (emptied.allItems ++ t.items id).Perm t.allItems := by
    have hmodify := perm_allItems_modify hid' fun f => { f with items := [] }
    rwa [hheld, hgrown.allItems_eq, List.append_nil] at hmodify
  have hmoved : t.moveToSink id =
      emptied.modify (t.sink id) fun f => { f with items := f.items ++ t.items id } := rfl
  have hgive : ((t.moveToSink id).allItems ++ emptied.items (t.sink id)).Perm
      (emptied.allItems ++ t.items id ++ emptied.items (t.sink id)) := by
    have hmodify := perm_allItems_modify hsink fun f => { f with items := f.items ++ t.items id }
    rw [hmoved, List.append_assoc]
    exact hmodify.trans (List.perm_append_comm.append_left _)
  exact ((List.perm_append_right_iff _).mp hgive).trans htake

/-- The family that gives its items away has the sub-family that takes them, which is not bare
then. -/
theorem WellFormed.isFull_moveToSink (h : t.WellFormed) {id : Nat} (hid : id < t.size)
    (hfull : t.IsFull) (hitems : t.items id ≠ []) : (t.moveToSink id).IsFull := by
  intro other hother hbare
  have hlinks := sameLinks_moveToSink t id
  have hne : other ≠ id := by
    rintro rfl
    exact not_isBare_of_son? (h.son?_moveToSink_self hid) hbare
  have hsink : other ≠ t.sink id := by
    rintro rfl
    have hnil := hbare.2
    rw [h.items_moveToSink hid, if_neg hne, if_pos rfl] at hnil
    exact hitems (List.append_eq_nil_iff.mp hnil).2
  rw [hlinks.size] at hother
  have hold : other < t.size := (lt_or_eq_sink hother).resolve_right hsink
  refine hfull other hold ⟨?_, ?_⟩
  · have hsons := hbare.1
    rwa [hlinks.sons, sons, nodeSons_createBelow_sink hne] at hsons
  · have hnil := hbare.2
    rwa [h.items_moveToSink hid, if_neg hne, if_neg hsink] at hnil

theorem WellFormed.isPlain_moveToSink (h : t.WellFormed) {id : Nat} (hid : id < t.size)
    (hplain : t.IsPlain) : (t.moveToSink id).IsPlain := by
  refine (sameLinks_moveToSink t id).isPlain (hplain.createBelow h hid fun name hname => ?_)
  rw [List.mem_singleton.mp hname]
  decide

theorem WellFormed.relocate_conserves (h : t.WellFormed) {id : Nat} (hid : id < t.size) :
    Conserves t (t.relocate id).value := by
  rw [Tree.relocate]
  split
  · next hmixed =>
    have hitems : t.items id ≠ [] := by
      rw [isMixed, Bool.and_eq_true] at hmixed
      simpa using hmixed.2
    exact ⟨h.perm_allItems_moveToSink hid, fun hfull => h.isFull_moveToSink hid hfull hitems,
      h.isPlain_moveToSink hid⟩
  · exact Conserves.refl t

/-- Moving items drops and doubles none and leaves no family bare. -/
theorem WellFormed.relocateItems_conserves (h : t.WellFormed) :
    Conserves t t.relocateItems.value := by
  rw [Tree.relocateItems, Logged.value_foldList]
  have hrun := List.foldlRecOn (motive := fun u =>
    u.WellFormed ∧ t.size ≤ u.size ∧ Conserves t u) t.all
    (fun u id => (u.relocate id).value) ⟨h, Nat.le_refl _, Conserves.refl t⟩ fun u hu id hmem => by
      obtain ⟨hwf, hsize, hconserves⟩ := hu
      have hid : id < u.size := Nat.lt_of_lt_of_le (h.mem_all_iff.mp hmem) hsize
      obtain ⟨hwf', hle⟩ := hwf.relocate hid
      exact ⟨hwf', Nat.le_trans hsize hle, hconserves.trans (hwf.relocate_conserves hid)⟩
  exact hrun.2.2

/-! ### All steps -/

theorem WellFormed.allKept_items_normalize (h : t.WellFormed) {id : Nat}
    (hid : id < t.prepare.size) :
    Item.AllKept (t.relocateItems.value.items id) (t.normalize.value.items id) := by
  have hsettled : Item.AllKept (t.relocateItems.value.items id) (t.prepare.items id) := by
    rw [h.items_prepare]
    exact Item.allKept_map (fun item => item.keeps_settle.trans item.settle.value.keeps_fillRank) _
  rw [normalize_eq_finish, h.prepare.items_finish hid]
  exact (hsettled.trans (Family.allKept_orderItems _)).trans
    (Item.allKept_map (Item.keeps_inherit _) _)

theorem WellFormed.sameLinks_normalize (h : t.WellFormed) :
    SameLinks t.relocateItems.value t.normalize.value := by
  rw [normalize_eq_finish]
  exact (sameLinks_prepare t).trans h.prepare.sameLinks_finish

/-- Making a tree normal drops and doubles no item and keeps what needs no settling. -/
theorem WellFormed.allKept_normalize (h : t.WellFormed) :
    Item.AllKept t.allItems t.normalize.value.allItems := by
  refine (Item.allKept_of_perm h.relocateItems_conserves.items.symm).trans ?_
  rw [allItems, allItems, h.sameLinks_normalize.size]
  refine matches_flatMap fun id hmem => h.allKept_items_normalize ?_
  rw [(sameLinks_prepare t).size]
  exact List.mem_range.mp hmem

/-- Making a tree normal leaves no family bare. -/
theorem WellFormed.isFull_normalize (h : t.WellFormed) (hfull : t.IsFull) :
    t.normalize.value.IsFull := by
  have hlinks := h.sameLinks_normalize
  intro id hid hbare
  have hid' : id < t.relocateItems.value.size := by
    rw [← hlinks.size]
    exact hid
  refine h.relocateItems_conserves.full hfull id hid' ⟨?_, ?_⟩
  · rw [← hlinks.sons]
    exact hbare.1
  · obtain ⟨items, hkept, hperm⟩ :=
      h.allKept_items_normalize (by rw [(sameLinks_prepare t).size]; exact hid')
    rw [hbare.2] at hperm
    rw [hperm.eq_nil] at hkept
    exact List.forall₂_nil_right_iff.mp hkept

/-- Making a tree normal brings no `/` into the names of families. -/
theorem WellFormed.isPlain_normalize (h : t.WellFormed) (hplain : t.IsPlain) :
    t.normalize.value.IsPlain :=
  h.sameLinks_normalize.isPlain (h.relocateItems_conserves.plain hplain)

/-! ### Items and their places -/

/-- The items of all families, each with the place of its family. -/
def placed (t : Tree) : List (Nat × Item) :=
  (List.range t.size).flatMap fun id => (t.items id).map fun item => (id, item)

theorem map_snd_placed (t : Tree) : t.placed.map Prod.snd = t.allItems := by
  have hsnd : ∀ id, ((t.items id).map fun item => (id, item)).map Prod.snd = t.items id := by
    intro id
    rw [List.map_map]
    exact List.map_id' _
  rw [placed, List.map_flatMap, allItems, funext hsnd]

theorem mem_placed_iff {p : Nat × Item} : p ∈ t.placed ↔ p.1 < t.size ∧ p.2 ∈ t.items p.1 := by
  obtain ⟨id, item⟩ := p
  simp only [placed, List.mem_flatMap, List.mem_range, List.mem_map, Prod.mk.injEq]
  constructor
  · rintro ⟨_, hid, _, hitem, rfl, rfl⟩
    exact ⟨hid, hitem⟩
  · intro hex
    exact ⟨id, hex.1, item, hex.2, rfl, rfl⟩

/-- What becomes of an item that ends in a family, up to its number. -/
def becomes (t : Tree) (id : Nat) (item : Item) : Item :=
  item.settle.value.fillRank.inherit (t.prepare.inheritedLabels id)

theorem keeps_of_becomes {id : Nat} {before after : Item}
    (h : (t.becomes id before).unnumbered = after.unnumbered) : Item.Keeps before after := by
  have hbecomes : Item.Keeps before (t.becomes id before) :=
    before.keeps_settle.trans (before.settle.value.keeps_fillRank.trans (Item.keeps_inherit _ _))
  have hnumbered := (t.becomes id before).keeps_unnumbered
  rw [h] at hnumbered
  exact hbecomes.trans (hnumbered.trans after.unnumbered_keeps)

theorem WellFormed.perm_items_normalize (h : t.WellFormed) {id : Nat} (hid : id < t.prepare.size) :
    ((t.relocateItems.value.items id).map fun item => (t.becomes id item).unnumbered).Perm
      ((t.normalize.value.items id).map Item.unnumbered) := by
  have hinherit : ∀ items : List Item,
      (items.map (Item.inherit (t.prepare.inheritedLabels id))).map Item.unnumbered =
      (items.map Item.unnumbered).map (Item.inherit (t.prepare.inheritedLabels id)) := by
    intro items
    rw [List.map_map, List.map_map]
    rfl
  have hprepared :
      (t.relocateItems.value.items id).map (fun item => (t.becomes id item).unnumbered) =
        ((t.prepare.items id).map (Item.inherit (t.prepare.inheritedLabels id))).map
          Item.unnumbered := by
    rw [h.items_prepare, List.map_map, List.map_map]
    rfl
  rw [hprepared, normalize_eq_finish, h.prepare.items_finish hid, hinherit, hinherit]
  exact ((Family.perm_unnumbered_orderItems _).map _).symm

/-- Every item of a tree becomes one item of the normal tree: it is settled, gets a rank, and
inherits the labels of the family in which it ends. -/
theorem WellFormed.matches_placed_normalize (h : t.WellFormed) :
    Matches (fun item p => (t.becomes p.1 item).unnumbered = p.2.unnumbered)
      t.allItems t.normalize.value.placed := by
  have hmoved : Matches (fun item p => p.2 = item) t.allItems t.relocateItems.value.placed := by
    have hperm : Matches Eq t.allItems (t.relocateItems.value.placed.map Prod.snd) := by
      rw [map_snd_placed]
      exact matches_of_perm h.relocateItems_conserves.items.symm
    exact hperm.comp (matches_of_map (R := fun item p => p.2 = item) fun _ _ => rfl)
      fun _ _ _ hx hy => hy.trans hx.symm
  have hshown : Matches (fun p q : Nat × Item => (t.becomes q.1 p.2).unnumbered = q.2.unnumbered)
      t.relocateItems.value.placed t.normalize.value.placed := by
    rw [placed, placed, h.sameLinks_normalize.size]
    refine matches_flatMap fun id hmem => ?_
    have hid : id < t.prepare.size := by
      rw [(sameLinks_prepare t).size]
      exact List.mem_range.mp hmem
    exact (matches_of_perm_map (h.perm_items_normalize hid)).map fun before after hafter => hafter
  exact hmoved.comp hshown fun item p q hp hq => by rw [← hp]; exact hq

end Tree

end Catalog
