import Catalog.Proofs.Load.Directory
import Catalog.Proofs.Load.Families
import Catalog.Proofs.Record.Item
import Mathlib.Data.List.Induction

/-!
# What becomes of records

Every record that can be read becomes one item of the tree, and nothing else does. The family of the
item is the end of a path that was made for it, so no family is left bare. Families documents and
the steps of making a tree normal keep this up.

* `FileSystem.records` lists the records that can be read among some files;
* `Tree.MadeOf` says that a tree is made of records: `MadeOf.addRecord` is the step and
  `madeOf_ofRecordFiles` the run of loading;
* `Tree.Shows` says what a tree shows of records, and `shows_normalize` that every tree that is
  loaded, described and made normal shows all of them; by `IsFresh.isPlain_normalize_describe`,
  paths of its families can be joined by `/`.
-/

namespace Catalog

/-- The records that can be read among some files, each with its file. -/
def FileSystem.records (fs : FileSystem) (files : List String) : List (String × Entries) :=
  files.filterMap fun file => (fs.readRecord file).toOption.map fun record => (file, record)

theorem FileSystem.records_of_ok {fs : FileSystem} {file : String} {record : Entries}
    (h : fs.readRecord file = .ok record) : fs.records [file] = [(file, record)] := by
  simp [records, h, Except.toOption]

theorem FileSystem.records_of_error {fs : FileSystem} {file : String} {failure : Failure}
    (h : fs.readRecord file = .error failure) : fs.records [file] = [] := by
  simp [records, h, Except.toOption]

theorem records_shelf : shelfFiles.records ["data/a.txt", "data/b.txt", "data/c.txt"] =
    [("data/a.txt", northRecord), ("data/b.txt", southRecord)] := by
  obtain ⟨hnorth, hsouth, _, hquote⟩ := readRecord_shelf
  simp [FileSystem.records, hnorth, hsouth, hquote, Except.toOption]

theorem isKeyed_shelf : Value.IsKeyed northRecord ∧ Value.IsKeyed southRecord :=
  ⟨FileSystem.isKeyed_of_readRecord readRecord_shelf.1,
    FileSystem.isKeyed_of_readRecord readRecord_shelf.2.1⟩

namespace Tree

variable {t u : Tree} {fs : FileSystem} {root : String} {records : List (String × Entries)}

/-! ### Placing items -/

theorem sameLinks_place (t : Tree) (path : List String) (item : Item) :
    SameLinks (t.create path).1 (t.place path item) := by
  unfold place addItem
  exact sameLinks_modify _ _ _

theorem wellFormed_place (h : t.WellFormed) (path : List String) (item : Item) :
    (t.place path item).WellFormed :=
  (sameLinks_place t path item).wellFormed (h.createBelow h.root_lt path)

theorem WellFormed.perm_allItems_place (h : t.WellFormed) (path : List String) (item : Item) :
    (t.place path item).allItems.Perm (item :: t.allItems) := by
  have hend := h.end_createBelow_lt h.root_lt path
  rw [← (h.extends_createBelow h.root_lt path).allItems_eq]
  exact perm_allItems_addItem hend item

/-- Where only the root may be bare, placing an item leaves no family bare. -/
theorem WellFormed.isFull_place (h : t.WellFormed)
    (hbare : ∀ id < t.size, t.IsBare id → id = Tree.root) (path : List String) (item : Item) :
    (t.place path item).IsFull := by
  have hend : (t.create path).2 < (t.create path).1.size := h.end_createBelow_lt h.root_lt path
  have hlinks := sameLinks_place t path item
  intro id hid hbareid
  rw [hlinks.size] at hid
  by_cases e : id = (t.create path).2
  · subst e
    have hitems := hbareid.2
    rw [place, addItem, items, family_modify_self hend] at hitems
    exact List.append_ne_nil_of_right_ne_nil _ (List.cons_ne_nil item []) hitems
  · refine e (h.eq_end_of_isBare h.root_lt hbare hid ⟨?_, ?_⟩)
    · have hsons := hbareid.1
      rwa [hlinks.sons] at hsons
    · have hitems := hbareid.2
      rwa [place, addItem, items, family_modify_of_ne e] at hitems

/-! ### Loading -/

/-- The item that a record in a file describes. -/
def recordItem (root : String) (record : String × Entries) : Item :=
  (Item.ofRecord (Record.takeFamily record.2).value.2 record.1 root).value

theorem value_addRecord (t : Tree) (record : Entries) (file root : String) :
    (t.addRecord record file root).value =
      t.place ((Record.takeFamily record).value.1.getD []) (recordItem root (file, record)) := rfl

theorem WellFormed.perm_allItems_addRecordFile (h : t.WellFormed) (fs : FileSystem)
    (root file : String) :
    (addRecordFile fs root t file).value.allItems.Perm
      (t.allItems ++ (fs.records [file]).map (recordItem root)) := by
  unfold Tree.addRecordFile
  split
  · next record hread =>
    rw [FileSystem.records_of_ok hread, value_addRecord]
    exact (h.perm_allItems_place _ _).trans (List.perm_append_singleton _ _).symm
  · next failure hread =>
    rw [FileSystem.records_of_error hread, List.map_nil, List.append_nil]
    exact List.Perm.refl _

/-- A tree of records holds the items of the records that can be read. -/
theorem perm_allItems_ofRecordFiles (fs : FileSystem) (root : String) (files : List String) :
    (ofRecordFiles fs root files).value.allItems.Perm
      ((fs.records files).map (recordItem root)) := by
  induction files using List.reverseRecOn with
  | nil => exact List.Perm.refl _
  | append_singleton before file ih =>
    have hstep : (ofRecordFiles fs root (before ++ [file])).value =
        (addRecordFile fs root (ofRecordFiles fs root before).value file).value := by
      rw [ofRecordFiles, Logged.value_foldList, List.foldl_append, ofRecordFiles,
        Logged.value_foldList]
      rfl
    have hwf := (isFresh_ofRecordFiles fs root before).wellFormed
    rw [hstep, FileSystem.records, List.filterMap_append, List.map_append]
    exact (hwf.perm_allItems_addRecordFile fs root file).trans (ih.append_right _)

/-- A tree of records is made of the records that can be read, one after the other. -/
theorem value_ofRecordFiles_eq_foldl (fs : FileSystem) (root : String) (files : List String) :
    (ofRecordFiles fs root files).value =
      (fs.records files).foldl (fun t record => (t.addRecord record.2 record.1 root).value) ∅ := by
  rw [ofRecordFiles, Logged.value_foldList]
  induction files using List.reverseRecOn with
  | nil => rfl
  | append_singleton before file ih =>
    have hrecords : fs.records (before ++ [file]) = fs.records before ++ fs.records [file] :=
      List.filterMap_append
    rw [List.foldl_append, ih, hrecords, List.foldl_append, List.foldl_cons, List.foldl_nil]
    unfold Tree.addRecordFile
    split
    · next record hread =>
      rw [FileSystem.records_of_ok hread]
      rfl
    · next failure hread =>
      rw [FileSystem.records_of_error hread]
      rfl

/-- What holds of the item of every record holds of all items of a tree of records. -/
theorem forall_allItems_ofRecordFiles {P : Item → Prop}
    (hP : ∀ record file, P (Item.ofRecord record file root).value) (fs : FileSystem)
    (files : List String) : ∀ item ∈ (ofRecordFiles fs root files).value.allItems, P item := by
  intro item hmem
  obtain ⟨record, _, rfl⟩ :=
    List.mem_map.mp ((perm_allItems_ofRecordFiles fs root files).mem_iff.mp hmem)
  exact hP _ _

/-- Each of the records is carried by one of the items, and there are no others. -/
def AllCarried (root : String) (records : List (String × Entries)) (held : List Item) : Prop :=
  ∃ items, List.Forall₂ (fun record item => Item.Carries record.2 record.1 root item)
    records items ∧ items.Perm held

theorem AllCarried.of_allKept {xs ys : List Item} (h : AllCarried root records xs)
    (hkept : Item.AllKept xs ys) : AllCarried root records ys :=
  Matches.comp h hkept fun _ _ _ => Item.Carries.keeps

/-- The tree is made of records: it holds their items and no bare family, unless there is no record
at all. -/
structure MadeOf (root : String) (records : List (String × Entries)) (t : Tree) : Prop where
  wellFormed : t.WellFormed
  items : AllCarried root records t.allItems
  full : records ≠ [] → t.IsFull
  lone : records = [] → t.size = 1

theorem madeOf_empty (root : String) : MadeOf root [] ∅ where
  wellFormed := wellFormed_empty
  items := ⟨[], .nil, List.Perm.refl _⟩
  full h := absurd rfl h
  lone _ := rfl

/-- Only the root of a tree that is made of records may be bare. -/
theorem MadeOf.eq_root_of_isBare (h : MadeOf root records t) {id : Nat} (hid : id < t.size)
    (hbare : t.IsBare id) : id = Tree.root := by
  by_cases hrecords : records = []
  · rw [h.lone hrecords] at hid
    exact Nat.lt_one_iff.mp hid
  · exact absurd hbare (h.full hrecords id hid)

theorem MadeOf.addRecord (h : MadeOf root records t) {record : Entries}
    (hkeyed : Value.IsKeyed record) (file : String) :
    MadeOf root (records ++ [(file, record)]) (t.addRecord record file root).value where
  wellFormed := wellFormed_place h.wellFormed _ _
  items := by
    obtain ⟨items, hcarries, hperm⟩ := h.items
    refine ⟨items ++ [(Item.ofRecord (Record.takeFamily record).value.2 file root).value], ?_, ?_⟩
    · exact List.rel_append hcarries (.cons (Item.carries_ofRecord hkeyed file root) .nil)
    · refine ((List.perm_append_singleton _ _).trans (hperm.cons _)).trans ?_
      exact (h.wellFormed.perm_allItems_place _ _).symm
  full _ := h.wellFormed.isFull_place (fun _ hid hbare => h.eq_root_of_isBare hid hbare) _ _
  lone hnil := absurd hnil (List.append_ne_nil_of_right_ne_nil _ (List.cons_ne_nil _ _))

theorem MadeOf.addRecordFile (h : MadeOf root records t) (fs : FileSystem) (file : String) :
    MadeOf root (records ++ fs.records [file]) (Tree.addRecordFile fs root t file).value := by
  unfold Tree.addRecordFile
  split
  · next record hread =>
    rw [FileSystem.records_of_ok hread]
    exact h.addRecord (FileSystem.isKeyed_of_readRecord hread) file
  · next failure hread =>
    rw [FileSystem.records_of_error hread, List.append_nil]
    exact h

/-- Loading makes a tree of the records that can be read. -/
theorem madeOf_ofRecordFiles (fs : FileSystem) (root : String) (files : List String) :
    MadeOf root (fs.records files) (ofRecordFiles fs root files).value := by
  rw [ofRecordFiles, Logged.value_foldList]
  induction files using List.reverseRecOn with
  | nil => exact madeOf_empty root
  | append_singleton before file ih =>
    rw [List.foldl_append, FileSystem.records, List.filterMap_append]
    exact ih.addRecordFile fs file

/-! ### Describing and making normal -/

theorem MadeOf.of_describes (h : MadeOf root records t) (hu : Describes t u) :
    MadeOf root records u where
  wellFormed := hu.links.wellFormed h.wellFormed
  items := by
    rw [hu.links.allItems_eq hu.items]
    exact h.items
  full hrecords id hid hbare := by
    rw [hu.links.size] at hid
    refine h.full hrecords id hid ⟨?_, ?_⟩
    · rw [← hu.links.sons]
      exact hbare.1
    · rw [← hu.items]
      exact hbare.2
  lone hrecords := hu.links.size.trans (h.lone hrecords)

/-- The tree shows records: it holds one item for each and no others, and every family has either
sub-families or items. Without records there is the root alone. -/
structure Shows (root : String) (records : List (String × Entries)) (t : Tree) : Prop where
  items : AllCarried root records t.allItems
  families : records ≠ [] → ∀ id < t.size,
    (t.sons id ≠ [] ∧ t.items id = []) ∨ (t.sons id = [] ∧ t.items id ≠ [])
  lone : records = [] → t.size = 1

theorem WellFormed.sons_eq_nil_of_size_one (h : t.WellFormed) (hsize : t.size = 1) (id : Nat) :
    t.sons id = [] := by
  refine List.eq_nil_iff_forall_not_mem.mpr fun son hson => ?_
  obtain ⟨hlt, hson, _⟩ := h.of_mem_sons hson
  omega

theorem MadeOf.shows (h : MadeOf root records t) : Shows root records t.normalize.value := by
  have hnormal := h.wellFormed.isNormal_normalize
  refine ⟨h.items.of_allKept h.wellFormed.allKept_normalize,
    fun hrecords id hid => ?_, fun hrecords => ?_⟩
  · have hfull := h.wellFormed.isFull_normalize (h.full hrecords) id hid
    have hexclusive := hnormal.exclusive id
    by_cases hsons : t.normalize.value.sons id = []
    · exact Or.inr ⟨hsons, fun hitems => hfull ⟨hsons, hitems⟩⟩
    · refine Or.inl ⟨hsons, ?_⟩
      rw [isMixed, WellFormed.hasSons_iff.mpr hsons, Bool.true_and] at hexclusive
      simpa using hexclusive
  · have hexclusive : t.IsExclusive := by
      intro id
      have hsons := h.wellFormed.sons_eq_nil_of_size_one (h.lone hrecords) id
      rw [isMixed, Bool.eq_false_iff.mpr (mt WellFormed.hasSons_iff.mp (not_not.mpr hsons)),
        Bool.false_and]
    rw [h.wellFormed.sameLinks_normalize.size, relocateItems_of_isExclusive hexclusive]
    exact h.lone hrecords

/-- The tree of record files, described by families documents and made normal, shows exactly the
records that can be read. -/
theorem shows_normalize (fs : FileSystem) (root : String) (files : List String)
    (documents : List Value) :
    Shows root (fs.records files)
      ((ofRecordFiles fs root files).value.describe documents).normalize.value :=
  ((madeOf_ofRecordFiles fs root files).of_describes
    ((isFresh_ofRecordFiles fs root files).describes_describe documents)).shows

/-- An item of the first record on the shelf, seen from the directory above it. -/
theorem eq_of_carries_north {item : Item} (h : item.Carries northRecord "data/a.txt" ".") :
    item.name = some "data/north.png" ∧ item.file = some "raw.csv" ∧ item.exportFile = some "" ∧
      item.showTitle = true ∧ item.other = some (.text "by hand") ∧ item.rank = some (.int 2) := by
  have hkeyed := isKeyed_shelf.1
  refine ⟨?_, ?_, ?_, ?_, ?_, ?_⟩
  · rw [← (Record.givesLocator_iff hkeyed).mp h.name]
    decide +kernel
  · rw [← (Record.givesLocator_iff hkeyed).mp h.file]
    decide +kernel
  · rw [← (Record.givesLocator_iff hkeyed).mp h.exportFile]
    decide +kernel
  · exact h.showTitle.mpr ⟨.bool true, (Record.entry?_eq_some_iff hkeyed).mp rfl, nofun⟩
  · exact (h.other _).mpr ⟨(Record.entry?_eq_some_iff hkeyed).mp rfl, nofun⟩
  · exact h.rank (.int 2) _ ((Record.entry?_eq_some_iff hkeyed).mp rfl) (.int (by decide))

/-- An item of the second record, which says less. -/
theorem eq_of_carries_south {item : Item} (h : item.Carries southRecord "data/b.txt" ".") :
    item.name = some "data/sub/south.png" ∧ item.file = none ∧ item.exportFile = none ∧
      item.showTitle = false ∧ item.other = none := by
  have hkeyed := isKeyed_shelf.2
  refine ⟨?_, ?_, ?_, ?_, ?_⟩
  · rw [← (Record.givesLocator_iff hkeyed).mp h.name]
    decide +kernel
  · rw [← (Record.givesLocator_iff hkeyed).mp h.file]
    decide +kernel
  · rw [← (Record.givesLocator_iff hkeyed).mp h.exportFile]
    decide +kernel
  · refine Bool.eq_false_iff.mpr fun hshown => ?_
    obtain ⟨v, hv, hno⟩ := h.showTitle.mp hshown
    have hentry : some (Value.bool false) = some v := (Record.entry?_eq_some_iff hkeyed).mpr hv
    cases hentry
    exact hno .no
  · refine Option.eq_none_iff_forall_ne_some.mpr fun v hother => ?_
    have hentry : none = some v :=
      (Record.entry?_eq_some_iff hkeyed).mpr ((h.other v).mp hother).1
    cases hentry

/-- A shelf with two records and a file without is seen from the directory above it. The first
record fills an item with its locators, its flag, its remark and its rank, which the rank of its
family does not change. The second one has no family and leaves most of its item open. -/
theorem shows_normalize_of_shelf :
    let loaded := (ofRecordFiles shelfFiles "." ["data/a.txt", "data/b.txt", "data/c.txt"]).value
    let t := (loaded.describe
      [.list [.map [(.text "family", .text "Ops"), (.text "rank", .int 1)]]]).normalize.value
    (∃ north south : Item, t.allItems.Perm [north, south] ∧
      (north.name = some "data/north.png" ∧ north.file = some "raw.csv" ∧
        north.exportFile = some "" ∧
        north.showTitle = true ∧ north.other = some (.text "by hand") ∧
        north.rank = some (.int 2)) ∧
      (south.name = some "data/sub/south.png" ∧ south.file = none ∧ south.exportFile = none ∧
        south.showTitle = false ∧ south.other = none)) ∧
    ∀ id < t.size, (t.sons id ≠ [] ∧ t.items id = []) ∨ (t.sons id = [] ∧ t.items id ≠ []) := by
  intro loaded t
  obtain ⟨⟨items, hcarries, hperm⟩, hfamilies, _⟩ :=
    shows_normalize shelfFiles "." ["data/a.txt", "data/b.txt", "data/c.txt"]
      [.list [.map [(.text "family", .text "Ops"), (.text "rank", .int 1)]]]
  rw [records_shelf] at hcarries hfamilies
  refine ⟨?_, hfamilies (List.cons_ne_nil _ _)⟩
  cases hcarries with
  | @cons _ north _ _ hfirst hrest =>
    cases hrest with
    | @cons _ south _ _ hsecond hrest =>
      cases hrest
      exact ⟨north, south, hperm.symm, eq_of_carries_north hfirst, eq_of_carries_south hsecond⟩

/-- No name of a family holds `/` in a loaded tree that is described and made normal. -/
theorem IsFresh.isPlain_normalize_describe {fresh : Tree} (h : fresh.IsFresh)
    (documents : List Value) : (fresh.describe documents).normalize.value.IsPlain := by
  have hover := (h.describes_describe documents).overlies h
  exact hover.wellFormed.isPlain_normalize hover.plain

end Tree

end Catalog
