import Catalog.Proofs.Tree.Creation
import Catalog.Proofs.Tree.Preorder

/-!
# Families by their paths

Two trees may keep the same family in different places. What does not depend on the places is said
by paths.

* `Tree.has` tells whether there is a family with a path, and `Tree.familyAt` and `Tree.itemsAt` say
  what is known about it;
* `SameLinks.has_eq` and `Extends.familyAt_eq` say what stays when families are changed in their
  places and when new ones are added, and `WellFormed.familyAt_modify` what does not;
* `WellFormed.son?_eq_find?` and `WellFormed.sons_ne_nil_iff` say that sons are found by longer
  paths.
-/

namespace Catalog.Tree

variable {t u : Tree}

/-- Whether there is a family with a path. -/
def has (t : Tree) (path : List String) : Bool := (t.find? path).isSome

/-- What is known about the family with a path. Nothing is known about one that is not there. -/
def familyAt (t : Tree) (path : List String) : Family := ((t.find? path).map t.family).getD {}

/-- The items of the family with a path. -/
def itemsAt (t : Tree) (path : List String) : List Item := (t.familyAt path).items

theorem familyAt_of_find? {path : List String} {id : Nat} (h : t.find? path = some id) :
    t.familyAt path = t.family id := by
  rw [familyAt, h]
  rfl

theorem has_eq_false_iff {path : List String} : t.has path = false ↔ t.find? path = none := by
  rw [has, Option.isSome_eq_false_iff, Option.isNone_iff_eq_none]

theorem familyAt_of_not_has {path : List String} (h : t.has path = false) :
    t.familyAt path = {} := by
  rw [familyAt, has_eq_false_iff.mp h]
  rfl

theorem itemsAt_of_find? {path : List String} {id : Nat} (h : t.find? path = some id) :
    t.itemsAt path = t.items id := by
  rw [itemsAt, familyAt_of_find? h]
  rfl

theorem has_of_itemsAt_ne_nil {path : List String} (h : t.itemsAt path ≠ []) :
    t.has path = true := by
  cases hhas : t.has path with
  | true => rfl
  | false =>
    rw [itemsAt, familyAt_of_not_has hhas] at h
    exact absurd rfl h

namespace WellFormed

theorem has_iff (h : t.WellFormed) {path : List String} :
    t.has path = true ↔ ∃ id < t.size, (t.node id).path = path := by
  rw [has, Option.isSome_iff_exists]
  exact exists_congr fun id => h.find?_eq_some_iff

theorem has_path (h : t.WellFormed) {id : Nat} (hid : id < t.size) :
    t.has (t.node id).path = true :=
  h.has_iff.mpr ⟨id, hid, rfl⟩

theorem familyAt_path (h : t.WellFormed) {id : Nat} (hid : id < t.size) :
    t.familyAt (t.node id).path = t.family id :=
  familyAt_of_find? (h.find?_path hid)

theorem itemsAt_path (h : t.WellFormed) {id : Nat} (hid : id < t.size) :
    t.itemsAt (t.node id).path = t.items id :=
  itemsAt_of_find? (h.find?_path hid)

/-- A son is found by the path of its parent and its name. -/
theorem son?_eq_find? (h : t.WellFormed) {id : Nat} (hid : id < t.size) (name : String) :
    t.son? id name = t.find? ((t.node id).path ++ [name]) := by
  have hparent : t.findBelow? root (t.node id).path = some id := h.find?_path hid
  rw [find?, findBelow?_append, hparent, Option.bind_some, findBelow?]
  cases t.son? id name <;> rfl

theorem sons_ne_nil_iff (h : t.WellFormed) {id : Nat} (hid : id < t.size) :
    t.sons id ≠ [] ↔ ∃ name, t.has ((t.node id).path ++ [name]) = true := by
  simp only [has, ← h.son?_eq_find? hid, Option.isSome_iff_exists]
  constructor
  · intro hne
    obtain ⟨son, hson⟩ := List.exists_mem_of_ne_nil _ hne
    obtain ⟨name, hs⟩ := mem_sons_iff.mp hson
    exact ⟨name, son, hs⟩
  · rintro ⟨name, son, hs⟩
    exact List.ne_nil_of_mem (mem_sons_iff.mpr ⟨name, hs⟩)

end WellFormed

/-! ### Trees that change -/

theorem SameLinks.has_eq (h : SameLinks t u) (path : List String) : u.has path = t.has path := by
  rw [has, h.find?, has]

/-- About new families nothing is known, which is what is known about a path without a family. -/
theorem Extends.familyAt_eq (hgrown : Extends t u) (h : t.WellFormed) (hu : u.WellFormed)
    (path : List String) : u.familyAt path = t.familyAt path := by
  cases hfind : t.find? path with
  | some id =>
    have hfind' : u.find? path = some id := hgrown.findBelow? hfind
    rw [familyAt_of_find? hfind', familyAt_of_find? hfind, hgrown.family]
  | none =>
    rw [familyAt_of_not_has (has_eq_false_iff.mpr hfind)]
    cases hfind' : u.find? path with
    | some id =>
      have hnew : t.size ≤ id := Nat.not_lt.mp fun hold => by
        obtain ⟨_, hpath⟩ := hu.find?_eq_some_iff.mp hfind'
        rw [hgrown.path id hold] at hpath
        rw [← hpath, h.find?_path hold] at hfind
        cases hfind
      rw [familyAt_of_find? hfind', hgrown.family, family_of_size_le hnew]
    | none => rw [familyAt_of_not_has (has_eq_false_iff.mpr hfind')]

/-- Changing one family changes what is known about its path. -/
theorem WellFormed.familyAt_modify (h : t.WellFormed) {id : Nat} (hid : id < t.size)
    (f : Family → Family) (path : List String) :
    (t.modify id f).familyAt path =
      if path = (t.node id).path then f (t.familyAt path) else t.familyAt path := by
  have hlinks := sameLinks_modify t id f
  split
  · next e =>
    have hfind := h.find?_path hid
    rw [e, familyAt_of_find? hfind, familyAt_of_find? ((hlinks.find? _).trans hfind),
      family_modify_self hid]
  · next hne =>
    cases hfind : t.find? path with
    | some other =>
      have hother : other ≠ id := by
        rintro rfl
        exact hne (h.find?_eq_some_iff.mp hfind).2.symm
      rw [familyAt_of_find? hfind, familyAt_of_find? ((hlinks.find? _).trans hfind),
        family_modify_of_ne hother]
    | none =>
      have hhas := has_eq_false_iff.mpr hfind
      rw [familyAt_of_not_has hhas, familyAt_of_not_has ((hlinks.has_eq path).trans hhas)]

end Catalog.Tree
