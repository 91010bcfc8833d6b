import Catalog.Proofs.Load.Overwriting
import Catalog.Proofs.Load.RoundTrip
import Catalog.Proofs.Load.Sources
import Catalog.Proofs.Search.Shown

/-!
# Finding by keywords

An item is found by its own keywords, by the names of its own labels, and by the names of the labels
given to the families at and above its own. Labels that other items or families have brought to a
family on the way up are not among them.

* `Query.ofKeyword` is the query for one keyword;
* `Tree.IsNameOf` says what the names of an item are, and `IsDescribed.mem_index_iff_isNameOf` that
  these are its keywords in the end;
* `Tree.matches_placed_load` pairs the items of a loaded tree with what is behind them;
* `Tree.finds_keyword_iff` says of every loaded tree that items are found by their names and by
  nothing else.
-/

namespace Catalog

/-! ### One keyword -/

/-- The query for a keyword, whatever the case of its letters. -/
def Query.ofKeyword (keyword : String) : Query :=
  { keywords := { wanted := (∅ : SortedSet String).insert (Text.lower keyword) } }

theorem Query.fits_ofKeyword_iff {keyword : String} {e : ItemTexts} :
    (ofKeyword keyword).fits e = true ↔ Text.lower keyword ∈ e.keywords := by
  rw [fits_iff]
  simp [ofKeyword]

theorem Item.mem_searchKeywords_iff {item : Item} {word : String} :
    word ∈ item.searchKeywords ↔
      ∃ keyword ∈ item.index, word = Text.lower (Keyword.bare keyword) := by
  simp only [searchKeywords, SortedSet.mem_ofList, List.mem_map, SortedSet.mem_toList, eq_comm]

namespace Tree

variable {t : Tree}

/-! ### The names of an item -/

/-- The names of an item in the place `id` of the normal form of a tree: the keywords and the names
of labels that the record behind it declares, and the names of the labels given to the families at
and above that place. -/
def IsNameOf (t : Tree) (source : Source) (id : Nat) (name : String) : Prop :=
  Record.DeclaresKeyword source.entries name ∨ Record.DeclaresLabelName source.entries name ∨
    ∃ m v, t.normalize.value.Covers m id ∧ (t.family m).pending.labels = some v ∧
      v.GivesLabelName name

theorem IsNameOf.startsWith {source : Source} {id : Nat} {name : String}
    (h : t.IsNameOf source id name) : Text.startsWith '#' name = true := by
  rcases h with ⟨_, _, _, _, _, _, hfor⟩ | ⟨_, _, _, _, _, _, hfor⟩ | ⟨_, _, _, _, _, _, _, _, hfor⟩
  all_goals exact hfor.startsWith

section Described

variable (h : t.WellFormed) (ht : t.IsDescribed)

include h ht

/-- The labels that come down to a family are those given to the families at and above it. -/
theorem IsDescribed.mem_inheritedLabels_iff {id : Nat} (hid : id < t.normalize.value.size)
    {l : Label} :
    l ∈ t.prepare.inheritedLabels id ↔
      ∃ m, t.normalize.value.Covers m id ∧ l ∈ (t.family m).givenLabels := by
  have hlinks : SameLinks t.prepare t.normalize.value := h.prepare.sameLinks_finish
  rw [hlinks.size] at hid
  rw [h.prepare.mem_inheritedLabels hid]
  refine exists_congr fun m => ?_
  rw [hlinks.covers_iff]
  refine and_congr_right fun hm => ?_
  rw [ht.ownLabels_prepare h hm.1]

theorem IsDescribed.exists_mem_inheritedLabels_iff {id : Nat} (hid : id < t.normalize.value.size)
    {name : String} :
    (∃ l ∈ t.prepare.inheritedLabels id, l.name = name) ↔ ∃ m v, t.normalize.value.Covers m id ∧
      (t.family m).pending.labels = some v ∧ v.GivesLabelName name := by
  constructor
  · rintro ⟨l, hl, rfl⟩
    obtain ⟨m, hm, hgiven⟩ := (ht.mem_inheritedLabels_iff h hid).mp hl
    obtain ⟨v, hv, hmem⟩ := Family.mem_givenLabels.mp hgiven
    exact ⟨m, v, hm, hv, Value.exists_mem_toLabels_iff.mp ⟨l, hmem, rfl⟩⟩
  · rintro ⟨m, v, hm, hv, hgives⟩
    obtain ⟨l, hmem, rfl⟩ := Value.exists_mem_toLabels_iff.mpr hgives
    exact ⟨l, (ht.mem_inheritedLabels_iff h hid).mpr ⟨m, hm,
      Family.mem_givenLabels.mpr ⟨v, hv, hmem⟩⟩, rfl⟩

/-- The names of an item are its keywords in the end. -/
theorem IsDescribed.mem_index_iff_isNameOf {source : Source} {dir : String}
    (hkeyed : Value.IsKeyed source.entries) {p : Nat × Item} (hid : p.1 < t.normalize.value.size)
    (hp : (t.becomes p.1 (source.item dir)).unnumbered = p.2.unnumbered) {name : String} :
    name ∈ p.2.index ↔ t.IsNameOf source p.1 name := by
  have hindex : p.2.index =
      ((source.item dir).settle.value.fillRank.inherit (t.prepare.inheritedLabels p.1)).index :=
    (congrArg Item.index hp).symm
  rw [hindex, Item.mem_index_inherit, IsNameOf, ← Source.mem_index_settle_iff hkeyed,
    ← Source.exists_mem_labels_settle_iff hkeyed, ← ht.exists_mem_inheritedLabels_iff h hid]
  refine or_congr Iff.rfl ?_
  simp only [Item.mem_labels_inherit, or_and_right, exists_or]
  exact Iff.rfl

end Described

/-! ### Loaded trees -/

/-- Every source of a loaded tree becomes an item of the normal tree. -/
theorem matches_placed_load (fs : FileSystem) (dir : String) (mode : LoadMode)
    (documents : List Value) :
    let t := (fs.buildTree dir mode).value.describe documents
    Matches (fun source p => source ∈ fs.sources dir mode ∧ p ∈ t.normalize.value.placed ∧
        (t.becomes p.1 (source.item dir)).unnumbered = p.2.unnumbered)
      (fs.sources dir mode) t.normalize.value.placed := by
  intro t
  have hfresh := fs.isFresh_load dir mode
  have ht : Describes (fs.buildTree dir mode).value t := hfresh.describes_describe documents
  have h : t.WellFormed := ht.links.wellFormed hfresh.wellFormed
  have hsources : Matches (fun source item => source ∈ fs.sources dir mode ∧ source.item dir = item)
      (fs.sources dir mode) t.allItems := by
    rw [ht.links.allItems_eq ht.items]
    have hmap : Matches (fun source item => source ∈ fs.sources dir mode ∧ source.item dir = item)
        (fs.sources dir mode) ((fs.sources dir mode).map (Source.item dir)) :=
      matches_map fun source hmem => ⟨hmem, rfl⟩
    exact hmap.trans_perm (fs.perm_allItems_load dir mode).symm
  refine hsources.comp h.matches_placed_normalize.mem_right fun source before p hbefore hp => ?_
  obtain ⟨hmem, rfl⟩ := hbefore
  exact ⟨hmem, hp⟩

/-- Take the tree of any data root, in either mode, describe its families by any documents and make
it normal. Its items are those of the images or the records behind them, one for each, and show what
is behind them. A keyword finds an item exactly if it is one of the names of that item without the
`#`, whatever the case of the letters. The families of the tree keep their places, and where no
document has a key twice, the labels given to a family are those of the last entry about it that
mentions labels. -/
theorem finds_keyword_iff (fs : FileSystem) (dir : String) (mode : LoadMode)
    (documents : List Value) :
    let loaded := (fs.buildTree dir mode).value
    let t := loaded.describe documents
    let shown := t.normalize.value
    Matches (fun source p => p.2.IsOf dir source ∧ ∀ keyword,
          shown.Finds (Query.ofKeyword keyword) p.1 p.2 ↔
            ∃ name, t.IsNameOf source p.1 ("#" ++ name) ∧ Text.lower keyword = Text.lower name)
        (fs.sources dir mode) shown.placed ∧
      (∀ id < t.size, (shown.node id).path = (t.node id).path) ∧
      ((∀ document ∈ documents, Value.AreKeyed document.listed) → ∀ id,
        (t.family id).pending.labels =
          loaded.lastGiven (documents.flatMap Value.listed) id "labels") := by
  intro loaded t shown
  have hfresh : loaded.IsFresh := fs.isFresh_load dir mode
  have ht := hfresh.describes_describe documents
  have h : t.WellFormed := ht.links.wellFormed hfresh.wellFormed
  have hdescribed : t.IsDescribed := ht.described
  refine ⟨?_, fun id hid => ?_, fun hkeyed id => ?_⟩
  · refine (matches_placed_load fs dir mode documents).imp fun source p hp => ?_
    obtain ⟨hmem, hplaced, hbecomes⟩ := hp
    have hkeyed := FileSystem.isKeyed_of_mem_sources hmem
    refine ⟨Source.isOf_of_becomes hkeyed hbecomes, fun keyword => ?_⟩
    obtain ⟨hid, hitem⟩ := mem_placed_iff.mp hplaced
    have hplain : shown.IsPlain := hfresh.isPlain_normalize_describe documents
    rw [h.isNormal_normalize.finds_iff hplain hid hitem, Query.fits_ofKeyword_iff]
    show Text.lower keyword ∈ p.2.searchKeywords ↔ _
    rw [Item.mem_searchKeywords_iff]
    have hnames : ∀ name, name ∈ p.2.index ↔ t.IsNameOf source p.1 name := fun name =>
      hdescribed.mem_index_iff_isNameOf h hkeyed hid hbecomes
    constructor
    · rintro ⟨name, hname, hlower⟩
      have hof := (hnames name).mp hname
      rw [Keyword.eq_hash_append hof.startsWith] at hof
      exact ⟨Keyword.bare name, hof, hlower⟩
    · rintro ⟨name, hof, hlower⟩
      refine ⟨"#" ++ name, (hnames _).mpr hof, ?_⟩
      rw [Keyword.bare_hash, hlower]
  · have hlinks : SameLinks t.prepare shown := h.prepare.sameLinks_finish
    rw [hlinks.path, h.path_prepare hid]
  · have hpending : (loaded.family id).pending.labels = none := by
      rw [hfresh.bare]
    rw [(hfresh.wellFormed.family_describe hkeyed).2, Family.overwrite, hpending, Option.or_none]

/-! ### The shelf -/

/-- Two entries about a family and one about the root. -/
def shelfLabels : List Value :=
  [.list [.map [(.text "family", .text "Ops"), (.text "labels", .text "Old Team")],
      .map [(.text "family", .list []), (.text "labels", .text "All")]],
    .list [.map [(.text "labels", .text "Sales Team"), (.text "family", .text "Ops")]]]

theorem areKeyed_shelfLabels : ∀ document ∈ shelfLabels, Value.AreKeyed document.listed := by
  simp only [shelfLabels, List.forall_mem_cons, Value.listed, Value.areKeyed_map_cons]
  exact ⟨⟨by decide, by decide, Value.areKeyed_nil⟩, ⟨by decide, Value.areKeyed_nil⟩,
    List.forall_mem_nil _⟩

/-- The first record stays in its family, and the second one moves into a new family beside it. -/
theorem places_shelf :
    let shown := (shelfTree.describe shelfLabels).normalize.value
    shown.size = 3 ∧ (∀ p ∈ shown.placed, (p.2.name = some "north.png" → p.1 = 1) ∧
      (p.2.name = some "sub/south.png" → p.1 = 2)) ∧
    ∀ m < 3, ∀ n < 3, ((shown.node m).path <+: (shown.node n).path ↔ m = 0 ∨ m = n) := by
  decide +kernel

theorem exists_mem_lower_eq_iff {names lowered : List String} (h : names.map Text.lower = lowered)
    {keyword : String} :
    (∃ name, name ∈ names ∧ Text.lower keyword = Text.lower name) ↔
      Text.lower keyword ∈ lowered := by
  simp only [← h, List.mem_map, eq_comm]

theorem declares_north {name : String} :
    (Record.DeclaresKeyword northRecord ("#" ++ name) ↔ name = "Cash_Flow") ∧
      (Record.DeclaresLabelName northRecord ("#" ++ name) ↔ name = "new") := by
  constructor
  · rw [← Keyword.isFor_hash_append_iff (s := "Cash Flow") (by decide +kernel),
      ← Value.givesKeyword_text_iff]
    simp [Record.DeclaresKeyword, northRecord, northLines, Yaml.FlatEntry.entry]
  · rw [← Keyword.isFor_hash_append_iff (s := "new") (by decide +kernel),
      ← Value.givesLabelName_text_iff]
    simp [Record.DeclaresLabelName, northRecord, northLines, Yaml.FlatEntry.entry]

theorem not_declares_south {name : String} :
    ¬ Record.DeclaresKeyword southRecord name ∧ ¬ Record.DeclaresLabelName southRecord name := by
  simp [Record.DeclaresKeyword, Record.DeclaresLabelName, southRecord, southLines,
    Yaml.FlatEntry.entry]

section Shelf

variable {name : String}
  (hlabels : ∀ m, ((shelfTree.describe shelfLabels).family m).pending.labels =
    shelfTree.lastGiven (shelfLabels.flatMap Value.listed) m "labels")

include hlabels

/-- The names of an item on the shelf: what its record declares, the label of the root and, in the
family, its label. -/
theorem isNameOf_shelf_iff {source : Source} {id : Nat} (hid : id < 3) (hroot : id ≠ 0) :
    (shelfTree.describe shelfLabels).IsNameOf source id ("#" ++ name) ↔
      Record.DeclaresKeyword source.entries ("#" ++ name) ∨
        Record.DeclaresLabelName source.entries ("#" ++ name) ∨
        name = "All" ∨ id = 1 ∧ name = "Sales_Team" := by
  refine or_congr Iff.rfl (or_congr Iff.rfl ?_)
  simp only [hlabels]
  obtain ⟨hsize, _, hcovers⟩ := places_shelf
  have hgiven : shelfTree.lastGiven (shelfLabels.flatMap Value.listed) 0 "labels" =
      some (.text "All") ∧
      shelfTree.lastGiven (shelfLabels.flatMap Value.listed) 1 "labels" =
      some (.text "Sales Team") ∧
      shelfTree.lastGiven (shelfLabels.flatMap Value.listed) 2 "labels" = none := ⟨rfl, rfl, rfl⟩
  have hall : (Value.text "All").GivesLabelName ("#" ++ name) ↔ name = "All" := by
    rw [Value.givesLabelName_text_iff,
      Keyword.isFor_hash_append_iff (b := "All") (by decide +kernel)]
  have hteam : (Value.text "Sales Team").GivesLabelName ("#" ++ name) ↔ name = "Sales_Team" := by
    rw [Value.givesLabelName_text_iff,
      Keyword.isFor_hash_append_iff (b := "Sales_Team") (by decide +kernel)]
  obtain ⟨hfirst, hsecond, hthird⟩ := hgiven
  constructor
  · rintro ⟨m, v, ⟨hm, _, hpath⟩, hv, hgives⟩
    rw [hsize] at hm
    rcases (by omega : m = 0 ∨ m = 1 ∨ m = 2) with rfl | rfl | rfl
    · cases hfirst.symm.trans hv
      exact Or.inl (hall.mp hgives)
    · cases hsecond.symm.trans hv
      have hself := (hcovers 1 hm id hid).mp hpath
      exact Or.inr ⟨by omega, hteam.mp hgives⟩
    · cases hthird.symm.trans hv
  · have hlt : id < (shelfTree.describe shelfLabels).normalize.value.size := hsize ▸ hid
    rintro (rfl | ⟨rfl, rfl⟩)
    · exact ⟨0, _, ⟨by omega, hlt, (hcovers 0 (by omega) id hid).mpr (Or.inl rfl)⟩, hfirst,
        hall.mpr rfl⟩
    · exact ⟨1, _, ⟨by omega, hlt, (hcovers 1 (by omega) 1 hid).mpr (Or.inr rfl)⟩, hsecond,
        hteam.mpr rfl⟩

theorem isNameOf_north_iff :
    (shelfTree.describe shelfLabels).IsNameOf (.record "data/a.txt" northRecord) 1 ("#" ++ name) ↔
      name ∈ ["Cash_Flow", "new", "All", "Sales_Team"] := by
  obtain ⟨hkeyword, hlabel⟩ := @declares_north name
  rw [isNameOf_shelf_iff hlabels (by decide) (by decide), Source.entries, hkeyword, hlabel]
  simp

theorem isNameOf_south_iff :
    (shelfTree.describe shelfLabels).IsNameOf (.record "data/b.txt" southRecord) 2 ("#" ++ name) ↔
      name ∈ ["All"] := by
  rw [isNameOf_shelf_iff hlabels (by decide) (by decide)]
  simp [Source.entries, not_declares_south]

end Shelf

/-- Of two records on a shelf the first one has a keyword and a label of its own and belongs to a
family, whose labels the later of two entries gives. The second one leaves the root for a new
family. Both are below the root and found by the label of the root. -/
theorem finds_keyword_of_shelf :
    let t := (shelfFiles.buildTree "data" .records).value.describe shelfLabels
    let shown := t.normalize.value
    ∃ north south : Nat × Item, shown.placed.Perm [north, south] ∧
      (north.2.name = some "north.png" ∧
        ∀ keyword, shown.Finds (Query.ofKeyword keyword) north.1 north.2 ↔
          Text.lower keyword ∈ ["cash_flow", "new", "all", "sales_team"]) ∧
      (south.2.name = some "sub/south.png" ∧
        ∀ keyword, shown.Finds (Query.ofKeyword keyword) south.1 south.2 ↔
          Text.lower keyword ∈ ["all"]) := by
  have hall := finds_keyword_iff shelfFiles "data" .records shelfLabels
  rw [buildTree_shelf, sources_shelf] at hall
  rw [buildTree_shelf]
  intro t shown
  obtain ⟨⟨placed, hfound, hperm⟩, _, hgiven⟩ := hall
  have hlabels := hgiven areKeyed_shelfLabels
  obtain ⟨hnorth, hsouth⟩ := isKeyed_shelf
  obtain ⟨_, hplaces, _⟩ := places_shelf
  cases hfound with
  | @cons _ north _ _ hfirst hrest =>
    cases hrest with
    | @cons _ south _ _ hsecond hrest =>
      cases hrest
      obtain ⟨hfirst, hnorthFinds⟩ := hfirst
      obtain ⟨hsecond, hsouthFinds⟩ := hsecond
      have hnorthName : north.2.name = some "north.png" := by
        rw [← (Record.givesLocator_iff hnorth).mp hfirst.1.name]
        decide +kernel
      have hsouthName : south.2.name = some "sub/south.png" := by
        rw [← (Record.givesLocator_iff hsouth).mp hsecond.1.name]
        decide +kernel
      refine ⟨north, south, hperm.symm, ⟨hnorthName, fun keyword => ?_⟩, hsouthName,
        fun keyword => ?_⟩
      · rw [hnorthFinds, (hplaces north (hperm.mem_iff.mp (by simp))).1 hnorthName]
        refine (exists_congr fun name => and_congr_left' (isNameOf_north_iff hlabels)).trans ?_
        exact exists_mem_lower_eq_iff (by decide +kernel)
      · rw [hsouthFinds, (hplaces south (hperm.mem_iff.mp (by simp))).2 hsouthName]
        refine (exists_congr fun name => and_congr_left' (isNameOf_south_iff hlabels)).trans ?_
        exact exists_mem_lower_eq_iff (by decide +kernel)

end Tree

end Catalog
