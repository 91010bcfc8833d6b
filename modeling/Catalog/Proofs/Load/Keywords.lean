import Catalog.Proofs.Load.Reload
import Catalog.Proofs.Load.Sources

/-!
# Keywords of loaded trees

The values of a record may have any shape, and labels come to an item from the families around it as
well as from its own record. Whatever way a keyword takes, it passes through the one function that
makes texts keywords, so in the end every item is found by keywords only, and by the names of all
its labels.

* `Keyword.IsProper` holds of the texts that start with `#` and have no space, as keywords read from
  values do: `Value.isProper_of_mem_toKeywords`;
* `Tree.ofFiles` is the tree of some files in either mode, and `isUnmarked_ofFiles` says that its
  items have neither keywords nor labels before values are settled;
* `Tree.IsMarkedProperly` says that nothing is pending in a tree and that all its keywords are
  proper, and `isMarkedProperly_normalize_ofFiles` that this holds of every tree that is loaded,
  described and made normal.
-/

namespace Catalog

/-! ### Proper keywords -/

/-- The text starts with `#` and has no space. -/
structure Keyword.IsProper (s : String) : Prop where
  hash : Text.startsWith '#' s = true
  space : ' ' ∉ s.toList

theorem Label.HasKeyword.isProper {l : Label} (h : l.HasKeyword) : Keyword.IsProper l.name :=
  ⟨h.hash, h.space⟩

theorem Value.isProper_of_mem_toKeywords {v : Value} {keyword : String}
    (h : keyword ∈ v.toKeywords.value) : Keyword.IsProper keyword := by
  rw [toKeywords, Logged.value_map, SortedSet.mem_ofList, Logged.value_mapList, List.mem_map] at h
  obtain ⟨w, _, rfl⟩ := h
  exact ⟨Keyword.startsWith_ofText _, Keyword.not_space_mem_ofText _⟩

namespace Item

/-- The item has no keywords and no labels but those that are pending. -/
structure IsUnmarked (item : Item) : Prop where
  index : item.index = ∅
  labels : item.labels = ∅

theorem IsUnmarked.isProper_of_mem_settle {item : Item} (h : item.IsUnmarked) {keyword : String}
    (hmem : keyword ∈ item.settle.value.index) : Keyword.IsProper keyword := by
  have hmem : keyword ∈ ((item.pending.index.map Value.toKeywords).getD (pure item.index)).value :=
    hmem
  cases hv : item.pending.index with
  | none =>
    rw [hv, h.index] at hmem
    cases hmem
  | some v =>
    rw [hv] at hmem
    exact Value.isProper_of_mem_toKeywords hmem

end Item

namespace Tree

variable {t : Tree}

/-! ### Loaded trees -/

/-- The tree of some files: of images, or of files with records. -/
def ofFiles (fs : FileSystem) (root : String) (mode : LoadMode) (files : List String) : Tree :=
  match mode with
  | .images => ofImages root files
  | .records => (ofRecordFiles fs root files).value

theorem isFresh_ofFiles (fs : FileSystem) (root : String) (mode : LoadMode) (files : List String) :
    (ofFiles fs root mode files).IsFresh := by
  cases mode with
  | images => exact (isFresh_ofImages root files).1
  | records => exact isFresh_ofRecordFiles fs root files

theorem isUnmarked_ofFiles (fs : FileSystem) (root : String) (mode : LoadMode)
    (files : List String) : ∀ item ∈ (ofFiles fs root mode files).allItems, item.IsUnmarked := by
  cases mode with
  | images =>
    intro item hmem
    obtain ⟨file, _, rfl⟩ := List.mem_map.mp ((isFresh_ofImages root files).2.mem_iff.mp hmem)
    exact ⟨rfl, rfl⟩
  | records =>
    exact forall_allItems_ofRecordFiles
      (fun record file => ⟨(Item.marks_ofRecord record file root).1,
        (Item.marks_ofRecord record file root).2⟩) fs files

/-! ### Normal trees -/

/-- Nothing is pending in the tree, all its keywords and all names of its labels are proper, and the
items have the names of their labels as keywords. -/
structure IsMarkedProperly (t : Tree) : Prop where
  pending : ∀ id < t.size, (t.family id).pending = {} ∧ ∀ item ∈ t.items id, item.pending = {}
  index : ∀ id < t.size, ∀ item ∈ t.items id, ∀ keyword ∈ item.index, Keyword.IsProper keyword
  itemLabels : ∀ id < t.size, ∀ item ∈ t.items id, ∀ l ∈ item.labels, Keyword.IsProper l.name ∧
    l.name ∈ item.index
  familyLabels : ∀ id < t.size, ∀ l ∈ (t.family id).labels, Keyword.IsProper l.name

section Normal

variable (h : t.WellFormed) (hbare : ∀ item ∈ t.allItems, item.IsUnmarked)

include h

/-- An item of the normal tree was an item of the tree before. -/
theorem WellFormed.exists_of_mem_normalize {id : Nat} (hid : id < t.prepare.size) {item : Item}
    (hitem : item ∈ t.normalize.value.items id) :
    ∃ before ∈ t.allItems, (t.becomes id before).unnumbered = item.unnumbered := by
  have hmap := (h.perm_items_normalize hid).mem_iff.mpr (List.mem_map_of_mem hitem)
  obtain ⟨before, hbefore, heq⟩ := List.mem_map.mp hmap
  have hmoved : before ∈ t.relocateItems.value.allItems :=
    List.mem_flatMap.mpr ⟨id, List.mem_range.mpr (lt_size_of_mem_items hbefore), hbefore⟩
  exact ⟨before, h.relocateItems_conserves.items.mem_iff.mp hmoved, heq⟩

include hbare

/-- A keyword of an item was read from a value, or it is the name of a label that the item bears. -/
theorem WellFormed.isProper_or_of_mem_index {id : Nat} (hid : id < t.prepare.size) {item : Item}
    (hitem : item ∈ t.normalize.value.items id) {keyword : String}
    (hkeyword : keyword ∈ item.index) :
    Keyword.IsProper keyword ∨ ∃ l ∈ item.labels, l.name = keyword := by
  obtain ⟨before, hbefore, heq⟩ := h.exists_of_mem_normalize hid hitem
  have hindex : item.index = (t.becomes id before).index := (congrArg Item.index heq).symm
  have hlabels : item.labels = (t.becomes id before).labels := (congrArg Item.labels heq).symm
  rw [hindex, becomes, Item.mem_index_inherit] at hkeyword
  rw [hlabels]
  exact hkeyword.imp_left fun hsettled => (hbare before hbefore).isProper_of_mem_settle hsettled

/-- A tree about whose families only records have told, and whose items have nothing but pending
marks, has proper keywords once it is normal. -/
theorem WellFormed.isMarkedProperly_normalize (ht : t.IsDescribed) :
    t.normalize.value.IsMarkedProperly := by
  have hnormal := h.isNormal_normalize
  have hsize : t.normalize.value.size = t.prepare.size := h.prepare.sameLinks_finish.size
  have hfamily : ∀ id < t.normalize.value.size, ∀ l ∈ (t.normalize.value.family id).labels,
      Keyword.IsProper l.name := by
    intro id hid l hl
    rw [hsize] at hid
    exact (h.hasKeyword_normalize ht (fun item hmem => (hbare item hmem).labels) hid hl).isProper
  have hitem : ∀ id < t.normalize.value.size, ∀ item ∈ t.normalize.value.items id,
      ∀ l ∈ item.labels, Keyword.IsProper l.name := by
    -- a family bears the labels of its items
    intro id hid item hitem l hl
    exact hfamily id hid l
      ((hnormal.spread.labels id hid l).mpr (Or.inr ⟨id, covers_self hid, item, hitem, hl⟩))
  refine ⟨fun id hid => ?_,
    fun id hid item hmem keyword hkeyword => ?_, fun id hid item hmem l hl => ?_, hfamily⟩
  · exact ⟨(hnormal.settled id hid).pending, (hnormal.settled id hid).items⟩
  · rcases h.isProper_or_of_mem_index hbare (hsize ▸ hid) hmem hkeyword with hproper | ⟨l, hl, rfl⟩
    · exact hproper
    · exact hitem id hid item hmem l hl
  · exact ⟨hitem id hid item hmem l hl, hnormal.spread.keywords id hid item hmem l hl⟩

end Normal

/-- A fresh tree whose items have nothing but pending marks has proper keywords once it is described
and made normal. -/
theorem IsFresh.isMarkedProperly_normalize_describe (h : t.IsFresh)
    (hbare : ∀ item ∈ t.allItems, item.IsUnmarked) (documents : List Value) :
    (t.describe documents).normalize.value.IsMarkedProperly := by
  have ht := h.describes_describe documents
  refine (ht.links.wellFormed h.wellFormed).isMarkedProperly_normalize ?_ ht.described
  rw [ht.links.allItems_eq ht.items]
  exact hbare

/-- The items of a loaded tree have nothing but pending marks. -/
theorem isUnmarked_load (fs : FileSystem) (dir : String) (mode : LoadMode) :
    ∀ item ∈ (fs.buildTree dir mode).value.allItems, item.IsUnmarked := by
  intro item hmem
  obtain ⟨source, hsource, rfl⟩ :=
    List.mem_map.mp ((fs.perm_allItems_load dir mode).mem_iff.mp hmem)
  obtain ⟨⟨hindex, hlabels⟩, _⟩ := Source.marks_item (FileSystem.isKeyed_of_mem_sources hsource) dir
  exact ⟨hindex, hlabels⟩

/-- Take the tree of any files, in either mode, describe its families by any documents and make it
normal. Nothing is pending in it, all keywords and all names of labels start with `#` and have no
space, and every item has the names of its labels as keywords. -/
theorem isMarkedProperly_normalize_ofFiles (fs : FileSystem) (root : String) (mode : LoadMode)
    (files : List String) (documents : List Value) :
    ((ofFiles fs root mode files).describe documents).normalize.value.IsMarkedProperly :=
  (isFresh_ofFiles fs root mode files).isMarkedProperly_normalize_describe
    (isUnmarked_ofFiles fs root mode files)
    documents

end Tree

end Catalog
