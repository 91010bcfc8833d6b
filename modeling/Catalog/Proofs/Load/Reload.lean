import Catalog.Proofs.Load.Contents
import Catalog.Proofs.Load.RoundTrip
import Catalog.Proofs.Record.Labels

/-!
# Normal trees exported and loaded again

The export of a normal tree shows the labels that its families bear, and not only those that were
given to them. The root bears all labels of the tree, so loading the export into a fresh tree of the
same records gives all of them to all items.

* `Tree.hasKeyword_normalize` says that the labels of a normal tree are read back as they are;
* `Tree.inheritedLabels_reload` says that all labels come down to every family of the reloaded tree,
  and `Tree.items_reload_normalize` what becomes of the items;
* `Tree.SameMarks` says that items keep their labels and keywords, and `sameMarks_reload_iff` that
  this is so exactly if every item bears all labels of the tree from the start;
* `not_sameMarks_of_two_families` is a tree in which a label of one family gets into another one.
-/

namespace Catalog

/-- An item that takes labels twice bears those that it takes the second time, if these are more. -/
theorem Item.inherit_inherit {labels more : SortedSet Label} (h : ∀ l ∈ labels, l ∈ more)
    (item : Item) : (item.inherit labels).inherit more = item.inherit more := by
  have hlabels : (item.labels ∪ labels) ∪ more = item.labels ∪ more := by
    refine SortedSet.ext_mem fun l => ?_
    simp only [SortedSet.mem_union]
    constructor
    · rintro ((hl | hl) | hl)
      · exact Or.inl hl
      · exact Or.inr (h l hl)
      · exact Or.inr hl
    · rintro (hl | hl)
      · exact Or.inl (Or.inl hl)
      · exact Or.inr hl
  have hindex : (item.index.insertAll ((item.labels ∪ labels).toList.map Label.name)).insertAll
      ((item.labels ∪ more).toList.map Label.name) =
        item.index.insertAll ((item.labels ∪ more).toList.map Label.name) := by
    refine SortedSet.ext_mem fun k => ?_
    simp only [SortedSet.mem_insertAll, List.mem_map, SortedSet.mem_toList, SortedSet.mem_union]
    constructor
    · rintro ((hk | ⟨l, hl | hl, rfl⟩) | hk)
      · exact Or.inl hk
      · exact Or.inr ⟨l, Or.inl hl, rfl⟩
      · exact Or.inr ⟨l, Or.inr (h l hl), rfl⟩
      · exact Or.inr hk
    · rintro (hk | hk)
      · exact Or.inl (Or.inl hk)
      · exact Or.inr hk
  simp only [inherit, hlabels, hindex]

namespace Tree

variable {fresh t : Tree}

theorem items_eq_nil_of_size_le {id : Nat} (h : t.size ≤ id) : t.items id = [] := by
  rw [items, family_of_size_le h]

/-! ### Labels of normal trees -/

section Labels

variable (h : t.WellFormed) (ht : t.IsDescribed) (hbare : ∀ item ∈ t.allItems, item.labels = ∅)

include h hbare

theorem WellFormed.hasKeyword_items_prepare {id : Nat} {item : Item}
    (hitem : item ∈ t.prepare.items id) {l : Label} (hl : l ∈ item.labels) : l.HasKeyword := by
  rw [h.items_prepare, List.mem_map] at hitem
  obtain ⟨before, hmem, rfl⟩ := hitem
  have hid : id < t.relocateItems.value.size := by
    by_contra hge
    rw [items, family_of_size_le (by omega)] at hmem
    cases hmem
  have hall : before ∈ t.relocateItems.value.allItems :=
    List.mem_flatMap.mpr ⟨id, List.mem_range.mpr hid, hmem⟩
  have hnone := hbare before (h.relocateItems_conserves.items.mem_iff.mp hall)
  have hl : l ∈ ((before.pending.labels.map Value.toLabels).getD (pure before.labels)).value := hl
  cases hv : before.pending.labels with
  | none =>
    rw [hv, hnone] at hl
    cases hl
  | some v =>
    rw [hv] at hl
    exact Value.hasKeyword_of_mem_toLabels hl

include ht

/-- Labels come from records, so their names are keywords. -/
theorem WellFormed.hasKeyword_normalize {id : Nat} (hid : id < t.prepare.size) {l : Label}
    (hl : l ∈ (t.normalize.value.family id).labels) : l.HasKeyword := by
  have hprepare := h.prepare
  have hgiven : ∀ m < t.prepare.size, ∀ l ∈ t.prepare.ownLabels m, l.HasKeyword := by
    intro m hm l hl
    rw [ht.ownLabels_prepare h hm] at hl
    exact Family.hasKeyword_of_mem_givenLabels hl
  rw [normalize_eq_finish, hprepare.labels_finish hid, hprepare.mem_labels_spreadLabels hid] at hl
  rcases hl with ⟨m, hm, hown⟩ | ⟨m, hm, hborne⟩
  · exact hgiven m (hm.elim (fun hc => hc.1) fun hc => hc.2.1) l hown
  · obtain ⟨item, hitem, hl⟩ := (hprepare.mem_item_spreadLabels hm.2.1).mp hborne
    rcases SortedSet.mem_union.mp hl with hl | hl
    · exact h.hasKeyword_items_prepare hbare hitem hl
    · obtain ⟨k, hk, hown⟩ := (hprepare.mem_inheritedLabels hm.2.1).mp hl
      exact hgiven k hk.1 l hown

end Labels

/-! ### Reloading -/

theorem Describes.overlies_normalize (ht : Describes fresh t) (hfresh : fresh.IsFresh) :
    Overlies fresh t.normalize.value where
  wellFormed := (ht.overlies hfresh).wellFormed.isNormal_normalize.wellFormed
  plain := (ht.overlies hfresh).wellFormed.isPlain_normalize (ht.overlies hfresh).plain
  size_le := by
    have h := (ht.overlies hfresh).wellFormed
    rw [normalize_eq_finish, h.prepare.sameLinks_finish.size, ← ht.links.size]
    exact h.size_le_prepare
  path id hid := by
    have h := (ht.overlies hfresh).wellFormed
    have hid' : id < t.size := by
      rw [ht.links.size]
      exact hid
    rw [normalize_eq_finish, h.prepare.sameLinks_finish.path, h.path_prepare hid', ht.links.path]

section Reload

variable (hfresh : fresh.IsFresh) (ht : Describes fresh t)
  (hbare : ∀ item ∈ t.allItems, item.labels = ∅)

include hfresh ht

theorem Describes.isDescribed_reload : (fresh.reload t.normalize.value).IsDescribed := by
  have hover := ht.overlies_normalize hfresh
  intro id
  by_cases hid : id < fresh.size
  · rw [hover.family_reload hfresh hid]
    exact Family.isDescribed_reread _ _
  · rw [family_of_size_le (by rw [(hover.sameLinks_reload hfresh).size]; omega)]
    exact Family.isDescribed_bare []

theorem Describes.sameItems_reload : SameItems t (fresh.reload t.normalize.value) where
  toSameLinks := ht.links.symm.trans ((ht.overlies_normalize hfresh).sameLinks_reload hfresh)
  items id := by
    have hover := ht.overlies_normalize hfresh
    have hlinks := hover.sameLinks_reload hfresh
    show ((fresh.reload t.normalize.value).family id).items = t.items id
    rw [ht.items]
    by_cases hid : id < fresh.size
    · rw [hover.family_reload hfresh hid]
      rfl
    · have hge : fresh.size ≤ id := Nat.not_lt.mp hid
      rw [family_of_size_le (by rw [hlinks.size]; exact hge), Tree.items, family_of_size_le hge]

theorem Describes.sameLinks_reload_normalize :
    SameLinks t.normalize.value (fresh.reload t.normalize.value).normalize.value := by
  have h := (ht.overlies hfresh).wellFormed
  have hsame := (ht.sameItems_reload hfresh).prepare h
  exact h.prepare.sameLinks_finish.symm.trans
    (hsame.toSameLinks.trans (hsame.toSameLinks.wellFormed h.prepare).sameLinks_finish)

include hbare

/-- The labels that the families of the normal tree bear are given to those of the reloaded tree.
The families that took items when the tree was made normal are not there yet, and no labels are
given to them. -/
theorem Describes.ownLabels_reload {id : Nat} (hid : id < t.prepare.size) :
    (fresh.reload t.normalize.value).prepare.ownLabels id =
      if id < fresh.size then (t.normalize.value.family id).labels else ∅ := by
  have h := (ht.overlies hfresh).wellFormed
  have hover := ht.overlies_normalize hfresh
  have hlinks := hover.sameLinks_reload hfresh
  have hid' := ((ht.sameItems_reload hfresh).prepare h).lt_size hid
  rw [(ht.isDescribed_reload hfresh).ownLabels_prepare (hlinks.wellFormed hfresh.wellFormed) hid']
  split
  · next hold =>
    have hnormal := h.isNormal_normalize
    have hsettled := hnormal.settled id (Nat.lt_of_lt_of_le hold hover.size_le)
    rw [hover.family_reload hfresh hold]
    exact Family.givenLabels_reread (congrArg PendingFamily.labels hsettled.pending)
      (fun l hl => h.hasKeyword_normalize ht.described hbare hid hl) _
  · next hnew =>
    rw [family_of_size_le (by rw [hlinks.size]; omega)]
    rfl

/-- All labels of the tree come down to every family of the reloaded tree. -/
theorem Describes.inheritedLabels_reload {id : Nat} (hid : id < t.prepare.size) :
    (fresh.reload t.normalize.value).prepare.inheritedLabels id =
      (t.normalize.value.family root).labels := by
  have h := (ht.overlies hfresh).wellFormed
  have hprepare := h.prepare
  have hsame := (ht.sameItems_reload hfresh).prepare h
  have hu := hsame.toSameLinks.wellFormed hprepare
  have hroot : root < t.prepare.size := hprepare.root_lt
  refine SortedSet.ext_mem fun l => ?_
  rw [hu.mem_inheritedLabels (hsame.lt_size hid)]
  constructor
  · rintro ⟨m, hm, hl⟩
    have hm := hsame.toSameLinks.covers_iff.mp hm
    rw [ht.ownLabels_reload hfresh hbare hm.1] at hl
    split at hl
    · rw [normalize_eq_finish, hprepare.labels_finish hm.1] at hl
      rw [normalize_eq_finish, hprepare.labels_finish hroot]
      exact hprepare.labels_spreadLabels_of_covers (hprepare.covers_root hm.1) hl
    · cases hl
  · intro hl
    refine ⟨root, hsame.toSameLinks.covers_iff.mpr (hprepare.covers_root hid), ?_⟩
    rw [ht.ownLabels_reload hfresh hbare hroot, if_pos hfresh.wellFormed.root_lt]
    exact hl

/-- Reloading the export of a normal tree gives all labels of the tree to all items, and changes
nothing else about them. -/
theorem Describes.items_reload_normalize (id : Nat) :
    (fresh.reload t.normalize.value).normalize.value.items id =
      (t.normalize.value.items id).map (Item.inherit (t.normalize.value.family root).labels) := by
  have h := (ht.overlies hfresh).wellFormed
  have hprepare := h.prepare
  have hsame := (ht.sameItems_reload hfresh).prepare h
  have hu := hsame.toSameLinks.wellFormed hprepare
  rcases Nat.lt_or_ge id t.prepare.size with hid | hge
  · have hshown : t.normalize.value.items id =
        (t.prepare.family id).orderItems.map (Item.inherit (t.prepare.inheritedLabels id)) :=
      hprepare.items_finish hid
    have hagain : (fresh.reload t.normalize.value).normalize.value.items id =
        (t.prepare.family id).orderItems.map
          (Item.inherit (t.normalize.value.family root).labels) := by
      rw [normalize_eq_finish (fresh.reload t.normalize.value), hu.items_finish (hsame.lt_size hid),
        ht.inheritedLabels_reload hfresh hbare hid, Family.orderItems_congr (hsame.items id)]
    -- what came down to the family is among the labels of the root
    have hmore : ∀ l ∈ t.prepare.inheritedLabels id,
        l ∈ (t.normalize.value.family root).labels := by
      intro l hl
      rw [normalize_eq_finish, hprepare.labels_finish hprepare.root_lt]
      refine hprepare.labels_spreadLabels_of_covers (hprepare.covers_root hid) ?_
      obtain ⟨m, hm, hown⟩ := (hprepare.mem_inheritedLabels hid).mp hl
      exact (hprepare.mem_labels_spreadLabels hid).mpr (Or.inl ⟨m, Or.inl hm, hown⟩)
    rw [hagain, hshown, List.map_map]
    exact List.map_congr_left fun item _ => (Item.inherit_inherit hmore item).symm
  · have hsize : t.normalize.value.size ≤ id := by
      rw [normalize_eq_finish, hprepare.sameLinks_finish.size]
      exact hge
    rw [items_eq_nil_of_size_le hsize, items_eq_nil_of_size_le (by
      rw [(ht.sameLinks_reload_normalize hfresh).size]
      exact hsize)]
    rfl

end Reload

/-- The second tree has the families of the first, and its items have the labels and the keywords of
those of the first. -/
structure SameMarks (t u : Tree) : Prop where
  links : SameLinks t u
  marks : ∀ id, (u.items id).map Item.marks = (t.items id).map Item.marks

/-- Items keep their marks where they take labels exactly if they bear these labels already. -/
theorem map_marks_inherit_iff {items : List Item} {labels : SortedSet Label}
    (hindex : ∀ item ∈ items, ∀ l ∈ item.labels, l.name ∈ item.index) :
    (items.map (Item.inherit labels)).map Item.marks = items.map Item.marks ↔
      ∀ item ∈ items, ∀ l ∈ labels, l ∈ item.labels := by
  rw [List.map_map, List.map_inj_left]
  refine forall_congr' fun item => forall_congr' fun hmem => ?_
  constructor
  · intro hmarks l hl
    have hlabels : (item.inherit labels).labels = item.labels := congrArg Prod.fst hmarks
    rw [← hlabels]
    exact Item.mem_labels_inherit.mpr (Or.inr hl)
  · intro hborne
    exact congrArg Item.marks (Item.inherit_of_borne hborne (hindex item hmem))

/-- The items of a tree that is loaded have no labels of their own yet. -/
theorem labels_of_mem_buildTree (fs : FileSystem) (dir : String) :
    ∀ item ∈ (fs.buildTree dir .records).value.allItems, item.labels = ∅ := by
  unfold FileSystem.buildTree
  split
  · exact forall_allItems_ofRecordFiles (fun record file =>
      (Item.marks_ofRecord record file dir).2) fs _
  · intro item hmem
    cases hmem

theorem labels_of_mem_describe (fs : FileSystem) (dir : String) (documents : List Value) :
    ∀ item ∈ ((fs.buildTree dir .records).value.describe documents).allItems, item.labels = ∅ := by
  have ht := (fs.isFresh_buildTree dir).describes_describe documents
  rw [ht.links.allItems_eq ht.items]
  exact labels_of_mem_buildTree fs dir

theorem items_reload_of_records (fs : FileSystem) (dir : String) (documents : List Value)
    (id : Nat) :
    let fresh := (fs.buildTree dir .records).value
    let shown := (fresh.describe documents).normalize.value
    (fresh.reload shown).normalize.value.items id =
      (shown.items id).map (Item.inherit (shown.family root).labels) := by
  have hfresh := fs.isFresh_buildTree dir
  exact (hfresh.describes_describe documents).items_reload_normalize hfresh
    (labels_of_mem_describe fs dir documents) id

/-- Take the tree of any records, describe its families by any documents and make it normal. Its
export, applied to a new tree of the same records that is made normal then, leaves all items their
labels and keywords exactly if every item bore all labels of the tree already. -/
theorem sameMarks_reload_iff (fs : FileSystem) (dir : String) (documents : List Value) :
    let fresh := (fs.buildTree dir .records).value
    let shown := (fresh.describe documents).normalize.value
    SameMarks shown (fresh.reload shown).normalize.value ↔
      ∀ id, ∀ item ∈ shown.items id, ∀ l ∈ (shown.family root).labels, l ∈ item.labels := by
  intro fresh shown
  have hfresh : fresh.IsFresh := fs.isFresh_buildTree dir
  have ht : Describes fresh (fresh.describe documents) := hfresh.describes_describe documents
  have hnormal := (ht.overlies hfresh).wellFormed.isNormal_normalize
  have hmarks : ∀ id, ((fresh.reload shown).normalize.value.items id).map Item.marks =
      (shown.items id).map Item.marks ↔
        ∀ item ∈ shown.items id, ∀ l ∈ (shown.family root).labels, l ∈ item.labels := by
    intro id
    rw [items_reload_of_records]
    refine map_marks_inherit_iff fun item hmem => ?_
    rcases Nat.lt_or_ge id shown.size with hid | hge
    · exact hnormal.spread.keywords id hid item hmem
    · rw [items_eq_nil_of_size_le hge] at hmem
      cases hmem
  constructor
  · intro hsame id
    exact (hmarks id).mp (hsame.marks id)
  · intro hall
    exact ⟨ht.sameLinks_reload_normalize hfresh, fun id => (hmarks id).mpr (hall id)⟩

end Tree

/-! ### A label that gets into another family -/

/-- A data root with two records, each of which names a family. -/
def pairFiles : FileSystem :=
  (({} : FileSystem).put ["data", "a.txt"] (.file (some "family: A\n"))).put ["data", "b.txt"]
    (.file (some "family: B\n"))

theorem locate_firstOfPair :
    pairFiles.locate "data/a.txt" = .present ["data", "a.txt"] (.file (some "family: A\n")) :=
  FileSystem.locate_file (by decide) (by decide) (by decide) (by decide +kernel) (by decide +kernel)
    (by decide +kernel) (by decide +kernel)

theorem locate_secondOfPair :
    pairFiles.locate "data/b.txt" = .present ["data", "b.txt"] (.file (some "family: B\n")) :=
  FileSystem.locate_file (by decide) (by decide) (by decide) (by decide +kernel) (by decide +kernel)
    (by decide +kernel) (by decide +kernel)

/-- The tree of the two records. -/
def pairTree : Tree :=
  (((∅ : Tree).addRecord [(.text "family", .text "A")] "data/a.txt" "data").value.addRecord
    [(.text "family", .text "B")] "data/b.txt" "data").value

theorem buildTree_pairFiles : (pairFiles.buildTree "data" .records).value = pairTree := by
  have hroot : pairFiles.locate "data" = .present ["data"] .directory :=
    FileSystem.locate_directory (by decide) (by decide +kernel) (by decide +kernel)
      (by decide +kernel)
  have hnames : pairFiles.namesIn ["data"] = ["a.txt", "b.txt"] := by decide +kernel
  have hpathA : Path.join "data" "a.txt" = "data/a.txt" := by decide +kernel
  have hpathB : Path.join "data" "b.txt" = "data/b.txt" := by decide +kernel
  have hflat : ∀ name ∈ pairFiles.namesIn ["data"], FileSystem.isHidden name = false ∧
      ∃ names text, pairFiles.locate (Path.join "data" name) = .present names (.file text) := by
    rw [hnames]
    intro name hname
    rcases List.mem_pair.mp hname with rfl | rfl
    · exact ⟨by decide +kernel, _, _, hpathA ▸ locate_firstOfPair⟩
    · exact ⟨by decide +kernel, _, _, hpathB ▸ locate_secondOfPair⟩
  have hfiles : ["data/a.txt", "data/b.txt"].filter (Path.hasExtension Path.recordExtensions) =
      ["data/a.txt", "data/b.txt"] := by decide +kernel
  have hrecordA : pairFiles.readRecord "data/a.txt" = .ok [(.text "family", .text "A")] :=
    FileSystem.readRecord_of_read locate_firstOfPair
      (read_family (by decide +kernel) ⟨rfl, rfl⟩)
  have hrecordB : pairFiles.readRecord "data/b.txt" = .ok [(.text "family", .text "B")] :=
    FileSystem.readRecord_of_read locate_secondOfPair
      (read_family (by decide +kernel) ⟨rfl, rfl⟩)
  rw [FileSystem.value_buildTree_directory hroot hflat, hnames, List.map_cons, List.map_singleton,
    hpathA, hpathB, hfiles]
  show (Tree.addRecordFile pairFiles "data"
    (Tree.addRecordFile pairFiles "data" ∅ "data/a.txt").value "data/b.txt").value = _
  simp only [Tree.addRecordFile, hrecordA, hrecordB]
  rfl

/-- A label for the first of the two families. -/
def pairLabels : List Value :=
  [.list [.map [(.text "family", .text "A"), (.text "labels", .text "x")]]]

/-- A label is given to one of two families. Once the normal tree has been exported and loaded
again, the item of the other family bears it too. -/
theorem not_sameMarks_of_two_families :
    let fresh := (pairFiles.buildTree "data" .records).value
    let shown := (fresh.describe pairLabels).normalize.value
    ¬ Tree.SameMarks shown (fresh.reload shown).normalize.value := by
  intro fresh shown hsame
  have hshown : shown = (pairTree.describe pairLabels).normalize.value := by
    rw [← buildTree_pairFiles]
  -- the reloaded tree is known from the exported one, so only that one is evaluated
  have hmarks : ((shown.items 2).map (Item.inherit (shown.family Tree.root).labels)).map
      Item.marks = (shown.items 2).map Item.marks := by
    rw [← hsame.marks 2, Tree.items_reload_of_records]
  rw [hshown] at hmarks
  exact absurd hmarks (by decide +kernel)

end Catalog
