import Catalog.Proofs.Load.Contents
import Catalog.Proofs.Text.Padded

/-!
# Where items come from

Every item of a loaded tree comes from a file of its own: an image, or a record in a file. A record
declares keywords and labels, which stay pending until values are settled.

* `Source` is what is behind an item, and `Source.item` the item that is made of it;
* `Item.IsOf` says that an item shows what is behind it, `Record.DeclaresKeyword` and
  `Record.DeclaresLabelName` what keywords and names of labels a record declares;
* `Source.mem_index_settle_iff` and `Source.exists_mem_labels_settle_iff` say that the item gets the
  keywords and the labels of the record and no others, and `Source.isOf_of_becomes` that it shows
  the source in the end;
* `FileSystem.sources` lists what is behind the items of either mode, and
  `FileSystem.perm_allItems_load` says that the items of the tree are made of it;
* `FileSystem.isFresh_load` says that trees of images are fresh too.
-/

namespace Catalog

/-! ### What is behind an item -/

/-- What is behind an item: an image, or the record in a file. -/
inductive Source where
  | image (file : String)
  | record (file : String) (entries : Entries)

namespace Source

/-- The entries of the record; there are none behind an image. -/
def entries : Source → Entries
  | .image _ => []
  | .record _ entries => entries

/-- The item that is made of it. -/
def item (root : String) : Source → Item
  | .image file => Tree.imageItem root file
  | .record file entries => Tree.recordItem root (file, entries)

end Source

namespace Record

/-- One of the keywords that a record declares for its item. -/
def DeclaresKeyword (record : Entries) (keyword : String) : Prop :=
  ∃ v, (Value.text "index", v) ∈ record ∧ v.GivesKeyword keyword

/-- The name of one of the labels that a record declares for its item. -/
def DeclaresLabelName (record : Entries) (keyword : String) : Prop :=
  ∃ v, (Value.text "labels", v) ∈ record ∧ v.GivesLabelName keyword

theorem declaresKeyword_iff {record : Entries} (h : Value.IsKeyed record) {keyword : String} :
    DeclaresKeyword record keyword ↔
      ∃ v, entry? record "index" = some v ∧ keyword ∈ v.toKeywords.value := by
  simp only [DeclaresKeyword, entry?_eq_some_iff h, Value.mem_toKeywords_iff]

theorem declaresLabelName_iff {record : Entries} (h : Value.IsKeyed record) {keyword : String} :
    DeclaresLabelName record keyword ↔
      ∃ v, entry? record "labels" = some v ∧ ∃ l ∈ v.toLabels.value, l.name = keyword := by
  simp only [DeclaresLabelName, entry?_eq_some_iff h, Value.exists_mem_toLabels_iff]

end Record

/-- The item shows what is behind it. The item of an image has its path from the root as its name
and the name of the file as its title. The item of a record carries the record and has its title and
its texts. -/
def Item.IsOf (root : String) : Source → Item → Prop
  | .image file, item => item.name = some (Path.relativeTo file root) ∧
    item.title = (Path.fileName? file).getD "No *title* provided"
  | .record file entries, item => item.Carries entries file root ∧
    Record.GivesText entries "title" "No *title* provided" item.title ∧
    Record.GivesText entries "pretext" "" item.pretext ∧
    Record.GivesText entries "text" "" item.text

namespace Source

variable {source : Source} {root : String}

/-- The item of a record before its values are settled. -/
theorem item_record {entries : Entries} (h : Value.IsKeyed entries) (root file : String) :
    (record file entries).item root =
      Item.mapLocators (Item.rebaseLocator file root) (Item.ofFields (Record.entry? entries)) :=
  Item.value_ofRecord_takeFamily h file root

/-- An item has no marks but those that its record declares, which are pending. -/
theorem marks_item (h : Value.IsKeyed source.entries) (root : String) :
    ((source.item root).index = ∅ ∧ (source.item root).labels = ∅) ∧
      (source.item root).pending.index = Record.entry? source.entries "index" ∧
      (source.item root).pending.labels = Record.entry? source.entries "labels" := by
  cases source with
  | image file => exact ⟨⟨rfl, rfl⟩, rfl, rfl⟩
  | record file entries =>
    have hkeyed : Value.IsKeyed entries := h
    rw [item_record hkeyed]
    exact ⟨⟨rfl, rfl⟩, rfl, rfl⟩

/-- Once the item is settled, its keywords are those that the record declares. -/
theorem mem_index_settle_iff (h : Value.IsKeyed source.entries) {keyword : String} :
    keyword ∈ (source.item root).settle.value.index ↔
      Record.DeclaresKeyword source.entries keyword := by
  obtain ⟨⟨hnone, _⟩, hpending, _⟩ := marks_item h root
  show keyword ∈ (((source.item root).pending.index.map Value.toKeywords).getD
    (pure (source.item root).index)).value ↔ _
  rw [hpending, hnone, Record.declaresKeyword_iff h]
  cases Record.entry? source.entries "index" <;> simp

/-- The names of its labels are those of the labels that the record declares. -/
theorem exists_mem_labels_settle_iff (h : Value.IsKeyed source.entries) {keyword : String} :
    (∃ l ∈ (source.item root).settle.value.labels, l.name = keyword) ↔
      Record.DeclaresLabelName source.entries keyword := by
  obtain ⟨⟨_, hnone⟩, _, hpending⟩ := marks_item h root
  show (∃ l ∈ (((source.item root).pending.labels.map Value.toLabels).getD
    (pure (source.item root).labels)).value, l.name = keyword) ↔ _
  rw [hpending, hnone, Record.declaresLabelName_iff h]
  cases Record.entry? source.entries "labels" <;> simp

/-- What becomes of the item in the end still shows what is behind it. -/
theorem isOf_of_becomes (h : Value.IsKeyed source.entries) {t : Tree} {id : Nat} {item : Item}
    (hitem : (t.becomes id (source.item root)).unnumbered = item.unnumbered) :
    item.IsOf root source := by
  have hkeeps : Item.Keeps (source.item root) item := Tree.keeps_of_becomes hitem
  have htexts : item.title = (source.item root).settle.value.title ∧
      item.pretext = (source.item root).settle.value.pretext ∧
      item.text = (source.item root).settle.value.text :=
    ⟨(congrArg Item.title hitem).symm, (congrArg Item.pretext hitem).symm,
      (congrArg Item.text hitem).symm⟩
  cases source with
  | image file =>
    refine ⟨hkeeps.name, htexts.1.trans ?_⟩
    show (((Path.fileName? file).map Value.text).map Value.toText).getD "No *title* provided" = _
    cases Path.fileName? file <;> rfl
  | record file entries =>
    have hkeyed : Value.IsKeyed entries := h
    have hcarries : ((record file entries).item root).Carries entries file root :=
      Item.carries_ofRecord hkeyed file root
    rw [item_record hkeyed] at htexts
    refine ⟨hcarries.keeps hkeeps, ?_, ?_, ?_⟩
    · rw [htexts.1]
      exact Record.givesText_entry? hkeyed "title" _
    · rw [htexts.2.1]
      exact Record.givesText_entry? hkeyed "pretext" _
    · rw [htexts.2.2]
      exact Record.givesText_entry? hkeyed "text" _

end Source

/-! ### Trees of images -/

namespace Tree

variable {t : Tree}

/-- The name of a group of images is free of `/`. -/
theorem not_slash_mem_groupName (position : Nat) : '/' ∉ (groupName position).toList := by
  have hpad : ∀ n : Nat, '/' ∉ (Text.padLeft 6 (toString n)).toList := by
    intro n hmem
    rcases Text.eq_blank_or_isDigit_of_mem hmem with hblank | hdigit
    · exact absurd hblank (by decide)
    · cases hdigit
  simp only [groupName, String.toList_append, List.mem_append, not_or]
  exact ⟨⟨⟨by decide, hpad _⟩, by decide⟩, hpad _⟩

/-- Images make fresh trees, which hold one item for each. -/
theorem isFresh_ofImages (root : String) (files : List String) :
    (ofImages root files).IsFresh ∧
      (ofImages root files).allItems.Perm (files.map (imageItem root)) := by
  have hrun : ∀ numbered : List (String × Nat),
      let t : Tree := numbered.foldl (fun t file =>
        t.place [groupName file.2] (imageItem root file.1)) ∅
      t.IsFresh ∧ t.allItems.Perm (numbered.map fun file => imageItem root file.1) := by
    intro numbered
    induction numbered using List.reverseRecOn with
    | nil => exact ⟨isFresh_empty, List.Perm.refl _⟩
    | append_singleton before file ih =>
      obtain ⟨hfresh, hperm⟩ := ih
      have hplain : ∀ name ∈ [groupName file.2], '/' ∉ name.toList := by
        intro name hname
        rw [List.mem_singleton.mp hname]
        exact not_slash_mem_groupName _
      rw [List.foldl_append, List.map_append]
      refine ⟨hfresh.place hplain _, ?_⟩
      exact (hfresh.wellFormed.perm_allItems_place _ _).trans
        ((hperm.cons _).trans (List.perm_append_singleton _ _).symm)
  have hitems : files.zipIdx.map (fun file => imageItem root file.1) =
      files.map (imageItem root) := by
    have hfiles : (files.zipIdx.map Prod.fst).map (imageItem root) =
        files.map (imageItem root) := by
      rw [List.zipIdx_map_fst]
    rw [← hfiles, List.map_map]
    rfl
  rw [← hitems]
  exact hrun files.zipIdx

end Tree

/-! ### Both modes -/

namespace FileSystem

/-- What is behind the items of a loaded tree, one source for each. -/
def sources (fs : FileSystem) (dir : String) (mode : LoadMode) : List Source :=
  if fs.isDirectory dir then
    match mode with
    | .images => (fs.files LoadMode.images.extensions dir).value.map .image
    | .records =>
      (fs.records (fs.files LoadMode.records.extensions dir).value).map fun r => .record r.1 r.2
  else []

/-- Both loaders make fresh trees. -/
theorem isFresh_load (fs : FileSystem) (dir : String) (mode : LoadMode) :
    (fs.buildTree dir mode).value.IsFresh := by
  cases mode with
  | images =>
    unfold buildTree
    split
    · exact (Tree.isFresh_ofImages dir _).1
    · exact Tree.isFresh_empty
  | records => exact fs.isFresh_buildTree dir

theorem isKeyed_of_mem_records {fs : FileSystem} {files : List String} {record : String × Entries}
    (h : record ∈ fs.records files) : Value.IsKeyed record.2 := by
  obtain ⟨file, _, hread⟩ := List.mem_filterMap.mp h
  cases hfile : fs.readRecord file with
  | error failure =>
    rw [hfile] at hread
    cases hread
  | ok entries =>
    rw [hfile] at hread
    cases hread
    exact isKeyed_of_readRecord hfile

/-- No record behind an item has a key twice. -/
theorem isKeyed_of_mem_sources {fs : FileSystem} {dir : String} {mode : LoadMode} {source : Source}
    (h : source ∈ fs.sources dir mode) : Value.IsKeyed source.entries := by
  unfold sources at h
  split at h
  · cases mode with
    | images =>
      obtain ⟨file, _, rfl⟩ := List.mem_map.mp h
      exact List.nodup_nil
    | records =>
      obtain ⟨record, hmem, rfl⟩ := List.mem_map.mp h
      exact isKeyed_of_mem_records hmem
  · cases h

/-- The items of a loaded tree are those that are made of the sources. -/
theorem perm_allItems_load (fs : FileSystem) (dir : String) (mode : LoadMode) :
    (fs.buildTree dir mode).value.allItems.Perm ((fs.sources dir mode).map (Source.item dir)) := by
  unfold sources buildTree
  split
  · cases mode with
    | images =>
      rw [List.map_map]
      exact (Tree.isFresh_ofImages dir (fs.files LoadMode.images.extensions dir).value).2
    | records =>
      rw [List.map_map]
      exact Tree.perm_allItems_ofRecordFiles fs dir (fs.files LoadMode.records.extensions dir).value
  · exact List.Perm.refl _

end FileSystem

/-! ### The shelf -/

theorem isDirectory_shelf : shelfFiles.isDirectory "data" = true := by
  rw [FileSystem.isDirectory, locate_shelf]

theorem sources_shelf : shelfFiles.sources "data" .records =
    [.record "data/a.txt" northRecord, .record "data/b.txt" southRecord] := by
  rw [FileSystem.sources, if_pos isDirectory_shelf]
  show (shelfFiles.records (shelfFiles.files Path.recordExtensions "data").value).map _ = _
  rw [files_shelf, records_shelf]
  rfl

/-- The tree of the two records on the shelf. -/
def shelfTree : Tree :=
  (((∅ : Tree).addRecord northRecord "data/a.txt" "data").value.addRecord southRecord "data/b.txt"
    "data").value

theorem buildTree_shelf : (shelfFiles.buildTree "data" .records).value = shelfTree := by
  rw [FileSystem.buildTree, if_pos isDirectory_shelf, Logged.value_bind, LoadMode.extensions,
    files_shelf]
  show (Tree.ofRecordFiles shelfFiles "data" _).value = shelfTree
  rw [Tree.value_ofRecordFiles_eq_foldl, records_shelf]
  rfl

end Catalog
