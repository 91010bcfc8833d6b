import Catalog.Proofs.Load.Placing
import Catalog.Proofs.Normal.Correspondence

/-!
# Where the order of loading shows

Trees that correspond become the same families with the same items when they are made normal. The
order in which the items were loaded shows where items have equal ranks, or ranks that have no
order, and nowhere else.

* `Family.Alike.orderItems_eq` says that items whose ranks are of one kind and different come out in
  one order;
* `Corresponds.siblingRank_eq` says that families are ranked alike among their siblings;
* `Tree.SameUpToTies` states the outcome, and `Corresponds.normalize` says that it holds once trees
  are normal;
* `Tree.sameUpToTies_normalize` says so whatever the order of the items was, and
  `Tree.sameUpToTies_ofRecordFiles` whatever the order in which record files are found.
-/

namespace Catalog

open Std

namespace Family

variable {f g : Family}

/-- Items of different ranks are in order in one way only. -/
theorem sortItems_eq_of_perm {items others : List Item} (h : items.Perm others)
    (hranks : (items.map Item.rank).Nodup) : sortItems items = sortItems others := by
  have hperm : (sortItems items).Perm (sortItems others) :=
    (perm_sortItems items).trans (h.trans (perm_sortItems others).symm)
  refine List.Perm.eq_of_pairwise (fun a b ha hb hab hba => ?_) (pairwise_sortItems items)
    (pairwise_sortItems others)
    hperm
  have hrank : a.rank = b.rank := LawfulEqCmp.eq_of_compare (OrientedCmp.isLE_antisymm hab hba)
  have ha' : a ∈ items := (perm_sortItems items).mem_iff.mp ha
  have hb' : b ∈ items := (perm_sortItems items).mem_iff.mp (hperm.mem_iff.mpr hb)
  exact List.inj_on_of_nodup_map hranks ha' hb' hrank

/-- Items in order have ranks of one kind exactly if they had before. -/
theorem hasUniformItems_of_orderItems (h : f.items = g.orderItems) :
    f.hasUniformItems = g.hasUniformItems := by
  rw [hasUniformItems, h]
  exact Rank.areUniform_of_perm (perm_map_rank_orderItems g)

namespace Alike

theorem hasUniformItems_eq (h : Alike f g) : g.hasUniformItems = f.hasUniformItems :=
  (Rank.areUniform_of_perm (h.items.map Item.rank)).symm

theorem perm_unnumbered_orderItems (h : Alike f g) :
    (f.orderItems.map Item.unnumbered).Perm (g.orderItems.map Item.unnumbered) :=
  (Family.perm_unnumbered_orderItems f).trans
    ((h.items.map _).trans (Family.perm_unnumbered_orderItems g).symm)

/-- Where ranks are of one kind and different, they alone give the order and the numbers. -/
theorem orderItems_eq (h : Alike f g) (huniform : f.hasUniformItems = true)
    (hranks : (f.items.map Item.rank).Nodup) : g.orderItems = f.orderItems := by
  rw [orderItems, orderItems, h.hasUniformItems_eq, if_pos huniform, if_pos huniform,
    sortItems_eq_of_perm h.items hranks]

end Alike

end Family

namespace Tree

variable {t u : Tree} {i j : Nat}

/-! ### Ranks among siblings -/

namespace Corresponds

theorem paired_root (h : Corresponds t u) : Paired t u root root :=
  ⟨h.left.root_lt, h.right.root_lt, h.right.path_root.trans h.left.path_root.symm⟩

theorem mem_ranks_sons (h : Corresponds t u) (hij : Paired t u i j) {r : Option Rank}
    (hr : r ∈ (t.sons i).map fun son => (t.family son).rank) :
    r ∈ (u.sons j).map fun son => (u.family son).rank := by
  obtain ⟨son, hson, rfl⟩ := List.mem_map.mp hr
  obtain ⟨name, hname⟩ := WellFormed.mem_sons_iff.mp hson
  obtain ⟨hlt, _, hpath⟩ := h.left.down i name son hname
  obtain ⟨other, hpair⟩ := h.exists_paired hlt
  have hother : u.son? j name = some other := by
    rw [h.right.son?_eq_find? hij.right_lt, h.right.find?_eq_some_iff, hpair.path, hij.path]
    exact ⟨hpair.right_lt, hpath⟩
  refine List.mem_map.mpr ⟨other, WellFormed.mem_sons_iff.mpr ⟨name, hother⟩, ?_⟩
  exact (h.family_alike hpair).rank_eq

theorem hasUniformSons_eq (h : Corresponds t u) (hij : Paired t u i j) :
    u.hasUniformSons j = t.hasUniformSons i := by
  have hmem : ∀ r, (r ∈ (u.sons j).map fun son => (u.family son).rank) ↔
      r ∈ (t.sons i).map fun son => (t.family son).rank :=
    fun r => ⟨h.symm.mem_ranks_sons hij.symm, h.mem_ranks_sons hij⟩
  rw [Bool.eq_iff_iff, hasUniformSons, hasUniformSons, Rank.areUniform_iff, Rank.areUniform_iff]
  simp only [Rank.HaveOneKind, hmem]

theorem siblingRank_eq (h : Corresponds t u) (hij : Paired t u i j) :
    u.siblingRank j = t.siblingRank i := by
  have hrank := (h.family_alike hij).rank_eq
  by_cases e : i = root
  · have e' : j = root := (h.paired_iff h.paired_root hij).mp e
    subst e e'
    rw [siblingRank, siblingRank, h.left.parent_root, h.right.parent_root]
    exact hrank
  · have e' : j ≠ root := fun e' => e ((h.paired_iff h.paired_root hij).mpr e')
    obtain ⟨parent, name, hlt, hparent, hpath, _⟩ := h.left.exists_parent hij.left_lt e
    obtain ⟨other, name', hlt', hother, hpath', _⟩ := h.right.exists_parent hij.right_lt e'
    have hpaths := hij.path
    rw [hpath, hpath'] at hpaths
    have hpair : Paired t u parent other :=
      ⟨Nat.lt_trans hlt hij.left_lt, Nat.lt_trans hlt' hij.right_lt,
        (List.append_inj' hpaths rfl).1⟩
    simp only [siblingRank, hparent, hother, h.hasUniformSons_eq hpair, hrank]

end Corresponds

/-! ### The outcome -/

/-- The second tree shows the same as the first up to the order of items that nothing but loading
gives one. -/
structure SameUpToTies (t u : Tree) : Prop where
  has_eq : ∀ path, u.has path = t.has path
  /-- Texts, aliases, ranks, labels and notes of own labels are the same. -/
  known : ∀ path, u.familyAt path = { t.familyAt path with items := u.itemsAt path }
  /-- But for their numbers, families have the same items. -/
  items : ∀ path, ((t.itemsAt path).map Item.unnumbered).Perm ((u.itemsAt path).map Item.unnumbered)
  /-- Items whose ranks are of one kind and different are the same in the same order. -/
  ordered : ∀ path, (t.familyAt path).hasUniformItems = true →
    ((t.itemsAt path).map Item.rank).Nodup → u.itemsAt path = t.itemsAt path

namespace Corresponds

/-- A path has two alike families, put in order and given the same rank. Where it leads nowhere they
are bare. -/
theorem exists_alike_orderAll (h : Corresponds t u) (path : List String) :
    ∃ f g rank, Family.Alike f g ∧
      t.orderAll.value.familyAt path = { f with items := f.orderItems, rank := rank } ∧
      u.orderAll.value.familyAt path = { g with items := g.orderItems, rank := rank } := by
  have hlinks := h.left.sameLinks_orderAll
  have hlinks' := h.right.sameLinks_orderAll
  rcases h.find?_cases path with ⟨hi, hj⟩ | ⟨i, j, hi, hj, hij⟩
  · have hbare : ({} : Family).orderItems = [] :=
      Family.orderItems_of_isOrdered ⟨rfl, fun _ => List.Pairwise.nil⟩
    refine ⟨{}, {}, none, Family.Alike.refl _, ?_, ?_⟩
    · rw [familyAt_of_not_has (has_eq_false_iff.mpr ((hlinks.find? path).trans hi)), hbare]
    · rw [familyAt_of_not_has (has_eq_false_iff.mpr ((hlinks'.find? path).trans hj)), hbare]
  · refine ⟨t.family i, u.family j, t.siblingRank i, h.family_alike hij, ?_, ?_⟩
    · rw [familyAt_of_find? ((hlinks.find? path).trans hi), h.left.family_orderAll hij.left_lt]
    · rw [familyAt_of_find? ((hlinks'.find? path).trans hj), h.right.family_orderAll hij.right_lt,
        h.siblingRank_eq hij]

/-- Trees that correspond are the same up to ties once everything is in order. -/
theorem orderAll (h : Corresponds t u) : SameUpToTies t.orderAll.value u.orderAll.value where
  has_eq path := by rw [h.left.sameLinks_orderAll.has_eq, h.right.sameLinks_orderAll.has_eq,
    h.has_eq]
  known path := by
    obtain ⟨f, g, rank, halike, ht, hu⟩ := h.exists_alike_orderAll path
    rw [itemsAt, ht, hu, halike.frame]
  items path := by
    obtain ⟨f, g, rank, halike, ht, hu⟩ := h.exists_alike_orderAll path
    rw [itemsAt, itemsAt, ht, hu]
    exact halike.perm_unnumbered_orderItems
  ordered path huniform hranks := by
    obtain ⟨f, g, rank, halike, ht, hu⟩ := h.exists_alike_orderAll path
    -- ordering has kept the ranks, so what holds of them now held before
    rw [ht, Family.hasUniformItems_of_orderItems rfl] at huniform
    rw [itemsAt, ht, (Family.perm_map_rank_orderItems f).nodup_iff] at hranks
    rw [itemsAt, itemsAt, ht, hu]
    exact halike.orderItems_eq huniform hranks

theorem normalize (h : Corresponds t u) : SameUpToTies t.normalize.value u.normalize.value :=
  h.prepare.spreadLabels.orderAll

end Corresponds

/-- The order in which record files are found shows in ties only. -/
theorem sameUpToTies_ofRecordFiles (fs : FileSystem) (root : String) {files shuffled : List String}
    (h : files.Perm shuffled) (documents : List Value) :
    SameUpToTies ((ofRecordFiles fs root files).value.describe documents).normalize.value
      ((ofRecordFiles fs root shuffled).value.describe documents).normalize.value := by
  have hrecords : (fs.records files).Perm (fs.records shuffled) := h.filterMap _
  rw [value_ofRecordFiles, value_ofRecordFiles]
  exact ((corresponds_ofItems (hrecords.map (placedRecord root))).describe documents).normalize

/-- Whatever the order in which items are put into a tree, after the same documents it becomes the
same normal tree up to ties. -/
theorem sameUpToTies_normalize {records shuffled : List (List String × Item)}
    (h : records.Perm shuffled) (documents : List Value) :
    SameUpToTies ((ofItems records).describe documents).normalize.value
      ((ofItems shuffled).describe documents).normalize.value :=
  ((corresponds_ofItems h).describe documents).normalize

/-- Items whose ranks are of two kinds stay in the order in which they came, and everything else is
the same. -/
theorem sameUpToTies_normalize_of_mixed_ranks :
    let costs : List String × Item := (["Sales"], { title := "Costs", rank := some (.int 1) })
    let assets : List String × Item := (["Sales"], { title := "Assets" })
    let north : List String × Item := (["Sales", "North"], { title := "Shops" })
    let document : Value :=
      .list [.map [(.text "family", .text "Sales"), (.text "labels", .text "checked")]]
    let t := ((ofItems [costs, north, assets]).describe [document]).normalize.value
    let u := ((ofItems [assets, north, costs]).describe [document]).normalize.value
    [costs, north, assets].Perm [assets, north, costs] ∧ SameUpToTies t u ∧
      (t.itemsAt ["Sales", sinkName]).map Item.title = ["Costs", "Assets"] ∧
      (u.itemsAt ["Sales", sinkName]).map Item.title = ["Assets", "Costs"] := by
  intro costs assets north document t u
  have h : [costs, north, assets].Perm [assets, north, costs] := (List.reverse_perm _).symm
  exact ⟨h, sameUpToTies_normalize h [document], by decide +kernel, by decide +kernel⟩

end Tree

end Catalog
