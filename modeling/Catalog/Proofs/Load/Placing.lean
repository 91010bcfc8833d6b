import Catalog.Proofs.Load.Contents
import Catalog.Proofs.Tree.Correspondence
import Catalog.Proofs.Tree.Paths
import Mathlib.Data.List.Induction

/-!
# Trees of items with paths

A loader puts one item after the other into the family with a path of its own. The families of the
tree are then the prefixes of these paths, and each of them has the items with its path, in the
order in which they came. In another order the items make the same families. A families document
finds families by their paths, so what it says goes to the same ones.

* `WellFormed.has_place_iff` and `WellFormed.familyAt_place` say what one item does to a tree;
* `Tree.ofItems` puts all items of a list into a tree, and `Tree.has_ofItems_iff` and
  `Tree.familyAt_ofItems` say what is in it;
* `Tree.value_ofRecordFiles` and `Tree.ofImages_eq` say that both loaders do this;
* `Tree.corresponds_ofItems` says that the trees of a list of items and of a permutation of it
  correspond;
* `Corresponds.applyFamily` is the step of applying a document, `Corresponds.applyFamilies` the run,
  and `Corresponds.describe` the run over several documents.
-/

namespace Catalog

namespace Tree

variable {t : Tree}

/-! ### One item -/

/-- Making the path of an item makes the families on the way to it. -/
theorem WellFormed.makes_create (h : t.WellFormed) (path : List String) :
    t.Makes root path (t.create path).1 (t.create path).2 := h.makes_createBelow h.root_lt path

/-- The families are the old ones and those on the way to the item. -/
theorem WellFormed.has_place_iff (h : t.WellFormed) {path p : List String} {item : Item} :
    (t.place path item).has p = true ↔ t.has p = true ∨ p <+: path := by
  have hmakes := h.makes_create path
  have hmade : (t.create path).1.WellFormed := h.createBelow h.root_lt path
  have hnew := hmakes.made p
  rw [h.path_root] at hnew
  simp only [List.nil_append, exists_eq_right] at hnew
  rw [(sameLinks_place t path item).has_eq, hmade.has_iff]
  constructor
  · intro hex
    obtain ⟨id, hid, hpath⟩ := hex
    rcases Nat.lt_or_ge id t.size with hold | hge
    · rw [hmakes.kept.path id hold] at hpath
      exact Or.inl (h.has_iff.mpr ⟨id, hold, hpath⟩)
    · exact Or.inr (hnew.mp ⟨id, hge, hid, hpath⟩).1
  · intro hor
    cases hhas : t.has p with
    | true =>
      obtain ⟨id, hid, hpath⟩ := h.has_iff.mp hhas
      exact ⟨id, Nat.lt_of_lt_of_le hid hmakes.kept.size_le, (hmakes.kept.path id hid).trans hpath⟩
    | false =>
      rw [hhas] at hor
      obtain ⟨id, _, hid, hpath⟩ :=
        hnew.mpr ⟨hor.resolve_left (by decide), has_eq_false_iff.mp hhas⟩
      exact ⟨id, hid, hpath⟩

/-- One family gets one more item, and of new families nothing else is known. -/
theorem WellFormed.familyAt_place (h : t.WellFormed) (path : List String) (item : Item)
    (p : List String) : (t.place path item).familyAt p =
      { t.familyAt p with items := t.itemsAt p ++ if path = p then [item] else [] } := by
  have hmakes := h.makes_create path
  have hmade : (t.create path).1.WellFormed := h.createBelow h.root_lt path
  have hlast : ((t.create path).1.node (t.create path).2).path = path := by
    have hpath := hmakes.path_last
    rwa [h.path_root, List.nil_append] at hpath
  rw [place, addItem, hmade.familyAt_modify hmakes.last_lt, hlast, hmakes.kept.familyAt_eq h hmade]
  by_cases e : p = path
  · rw [if_pos e, if_pos e.symm]
    rfl
  · rw [if_neg e, if_neg (Ne.symm e), List.append_nil]
    rfl

/-! ### All items -/

/-- The tree with every item in the family with the path beside it. -/
def ofItems (records : List (List String × Item)) : Tree :=
  records.foldl (fun t r => t.place r.1 r.2) ∅

theorem ofItems_concat (records : List (List String × Item)) (r : List String × Item) :
    ofItems (records ++ [r]) = (ofItems records).place r.1 r.2 := by
  rw [ofItems, List.foldl_append]
  rfl

theorem wellFormed_ofItems (records : List (List String × Item)) : (ofItems records).WellFormed :=
  List.foldlRecOn records _ wellFormed_empty fun _ ht r _ => wellFormed_place ht r.1 r.2

/-- The families are those on the way to some item, and the root. -/
theorem has_ofItems_iff {records : List (List String × Item)} {p : List String} :
    (ofItems records).has p = true ↔ p = [] ∨ ∃ r ∈ records, p <+: r.1 := by
  induction records using List.reverseRecOn with
  | nil =>
    cases p with
    | nil => simp [ofItems, has]
    | cons name rest =>
      have hnone : (∅ : Tree).find? (name :: rest) = none := rfl
      simp [ofItems, has, hnone]
  | append_singleton before r ih =>
    rw [ofItems_concat, (wellFormed_ofItems before).has_place_iff, ih, or_assoc]
    refine or_congr_right ?_
    simp only [List.mem_append, List.mem_singleton, or_and_right, exists_or, exists_eq_left]

/-- A family has the items with its path, and nothing else is known about it. -/
theorem familyAt_ofItems (records : List (List String × Item)) (p : List String) :
    (ofItems records).familyAt p = { items := (records.filter fun r => r.1 = p).map Prod.snd } := by
  induction records using List.reverseRecOn with
  | nil =>
    cases p with
    | nil => rfl
    | cons name rest => rfl
  | append_singleton before r ih =>
    have hlast : ([r].filter fun r => r.1 = p).map Prod.snd = if r.1 = p then [r.2] else [] := by
      by_cases e : r.1 = p <;> simp [e]
    rw [ofItems_concat, (wellFormed_ofItems before).familyAt_place, itemsAt, ih, List.filter_append,
      List.map_append, hlast]

/-! ### Loaders -/

/-- The path and the item of a record in a file. A record without path belongs to the root. -/
def placedRecord (root : String) (record : String × Entries) : List String × Item :=
  ((Record.takeFamily record.2).value.1.getD [], recordItem root record)

/-- Records that can be read are put into the tree one after the other. -/
theorem value_ofRecordFiles (fs : FileSystem) (root : String) (files : List String) :
    (ofRecordFiles fs root files).value = ofItems ((fs.records files).map (placedRecord root)) := by
  rw [value_ofRecordFiles_eq_foldl, ofItems, List.foldl_map]
  rfl

theorem ofImages_eq (root : String) (files : List String) :
    ofImages root files =
      ofItems (files.zipIdx.map fun file => ([groupName file.2], imageItem root file.1)) := by
  rw [ofImages, ofItems, List.foldl_map]

end Tree

/-! ### Items in another order -/

/-- The order of items with paths has no part in which families there are and which items they
have. -/
theorem Tree.corresponds_ofItems {records shuffled : List (List String × Item)}
    (h : records.Perm shuffled) : Corresponds (ofItems records) (ofItems shuffled) where
  left := wellFormed_ofItems records
  right := wellFormed_ofItems shuffled
  has_eq path := by
    rw [Bool.eq_iff_iff, has_ofItems_iff, has_ofItems_iff]
    simp only [h.mem_iff]
  alike path := by
    rw [familyAt_ofItems, familyAt_ofItems]
    exact ⟨rfl, (h.filter _).map Prod.snd⟩

/-! ### Documents -/

namespace Family

variable {f g : Family}

/-- Items have no part in what a record says about their family. -/
theorem value_foldEntry_items (f : Family) (items : List Item) (entry : Value × Value) :
    (Record.foldEntry setField ({ f with items := items } : Family) entry).value =
      { (Record.foldEntry setField f entry).value with items := items } := by
  unfold Record.foldEntry
  split
  · unfold setField
    split <;> rfl
  · rfl

theorem value_merge_items (f : Family) (items : List Item) (record : Entries) :
    (({ f with items := items } : Family).merge record).value =
      { (f.merge record).value with items := items } := by
  simp only [merge, Record.foldEntries, Logged.value_foldList]
  induction record generalizing f with
  | nil => rfl
  | cons entry rest ih =>
    rw [List.foldl_cons, value_foldEntry_items]
    exact ih _

theorem Alike.merge (h : Alike f g) (record : Entries) :
    Alike (f.merge record).value (g.merge record).value where
  frame := by rw [h.frame, value_merge_items, value_merge_items]
  items := by
    rw [items_merge, items_merge]
    exact h.items

end Family

namespace Tree.Corresponds

variable {t u : Tree}

theorem applyFamily (h : Corresponds t u) (n m : Nat) (entry : Value) :
    Corresponds (Tree.applyFamily (t, n) entry).value.1
      (Tree.applyFamily (u, m) entry).value.1 := by
  unfold Tree.applyFamily
  split
  · split
    · exact h
    · next family fields _ =>
      simp only [Logged.value_bind]
      rcases h.find?_cases (Record.familyPath family).value with ⟨hi, hj⟩ | ⟨i, j, hi, hj, hij⟩
      · simp only [hi, hj]
        exact h
      · simp only [hi, hj]
        exact h.modify hij ((h.family_alike hij).merge fields)
  · exact h

theorem applyFamilies (h : Corresponds t u) (document : Value) :
    Corresponds (t.applyFamilies document).value.1 (u.applyFamilies document).value.1 := by
  unfold Tree.applyFamilies
  split
  · next entries =>
    rw [Logged.value_foldList, Logged.value_foldList]
    exact List.foldl_rel (r := fun (p q : Tree × Nat) => Corresponds p.1 q.1) h
      fun entry _ p q hpq => hpq.applyFamily p.2 q.2 entry
  · exact h

theorem describe (h : Corresponds t u) (documents : List Value) :
    Corresponds (t.describe documents) (u.describe documents) :=
  List.foldl_rel (r := Corresponds) h fun document _ _ _ hpq => hpq.applyFamilies document

end Tree.Corresponds

end Catalog
