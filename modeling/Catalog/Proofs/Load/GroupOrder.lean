import Catalog.Proofs.Load.Groups
import Catalog.Proofs.Load.RoundTrip
import Catalog.Proofs.Normal.Siblings
import Catalog.Proofs.Text.LowerCase
import Catalog.Proofs.Tree.Outline

/-!
# The order of groups of images

Groups of images are listed in the order of their names. The numbers in a name are filled up to six
places, so this is the order in which the images are found as long as six places are enough: for at
most a million images. Normal trees rank the groups by their names in lower case, which changes
nothing.

* `Tree.groupNames` lists the groups in the order in which they are found, and
  `Tree.increasing_groupNames_iff` says when this is the order of their names;
* `IsFresh.rank_normalize` says by what the families of a fresh tree are ranked in the end;
* `Tree.OrdersGroups` collects how the groups of some images are ordered and listed, and
  `Tree.ordersGroups_ofImages` says so of every list of images;
* `Tree.groups_out_of_order` are the groups at the end of the first million and after it.
-/

namespace Catalog.Tree

variable {t : Tree}

/-! ### Names -/

/-- The names of the groups of a number of images, in the order in which they are found. -/
def groupNames (count : Nat) : List String :=
  (List.range ((count + groupSize - 1) / groupSize)).map fun group => groupName (group * groupSize)

theorem group_mul_div (group : Nat) : group * groupSize / groupSize = group :=
  Nat.mul_div_cancel group (by decide)

theorem mem_groupNames_iff {count : Nat} {name : String} :
    name ∈ groupNames count ↔ ∃ k < count, name = groupName k := by
  rw [groupNames, List.mem_map]
  constructor
  · rintro ⟨group, hgroup, rfl⟩
    rw [List.mem_range, groupSize] at hgroup
    refine ⟨group * groupSize, ?_, rfl⟩
    rw [groupSize]
    omega
  · rintro ⟨k, hk, rfl⟩
    refine ⟨k / groupSize, List.mem_range.mpr ?_, ?_⟩
    · rw [groupSize]
      omega
    · rw [groupName_eq_iff, group_mul_div]

theorem nodup_groupNames (count : Nat) : (groupNames count).Nodup := by
  refine List.pairwise_map.mpr (List.nodup_range.imp fun {a b} hne heq => hne ?_)
  rw [groupName_eq_iff, group_mul_div, group_mul_div] at heq
  exact heq

/-- In the first million, every first number fits into six places. -/
theorem length_firstOfGroup_le {position : Nat} (h : position < 1000000) :
    (Nat.toDigits 10 (firstOfGroup position)).length ≤ 6 := by
  have hlt : firstOfGroup position < 10 ^ 6 := by
    rw [firstOfGroup, groupSize]
    omega
  exact (Nat.length_toDigits_le_iff (by decide) (by decide)).mpr hlt

/-- In the first million, groups are in the order of their names. -/
theorem compare_groupName_of_lt_million {i j : Nat} (h : i / groupSize < j / groupSize)
    (hj : j < 1000000) : compare (groupName i) (groupName j) = .lt := by
  have hfits : (Nat.toDigits 10 (firstOfGroup j)).length ≤
      max 6 (Nat.toDigits 10 (firstOfGroup i)).length :=
    Nat.le_trans (length_firstOfGroup_le hj) (Nat.le_max_left _ _)
  rw [compare_groupName h, Text.leadingDigits_of_fits hfits,
    if_pos (Nat.le_of_lt (firstOfGroup_lt h))]

/-- The last group of the first million comes after the next one. -/
theorem compare_groupName_million : compare (groupName 999990) (groupName 1000000) = .gt := by
  rw [compare_groupName (by decide), if_neg (by decide +kernel)]

/-- The groups are in the order of their names exactly for at most a million images. -/
theorem increasing_groupNames_iff {count : Nat} :
    ((groupNames count).Pairwise fun a b => compare a b = .lt) ↔ count ≤ 1000000 := by
  constructor
  · intro hincreasing
    by_contra hmore
    have hlength : 100000 < (groupNames count).length := by
      rw [groupNames, List.length_map, List.length_range, groupSize]
      omega
    have hlt := List.pairwise_iff_getElem.mp hincreasing 99999 100000 (by omega) hlength (by decide)
    simp only [groupNames, List.getElem_map, List.getElem_range, groupSize] at hlt
    rw [compare_groupName_million] at hlt
    cases hlt
  · intro hcount
    refine List.pairwise_map.mpr (List.pairwise_lt_range.imp_of_mem fun {a b} _ hb hlt => ?_)
    have hmillion : b * groupSize < 1000000 := by
      rw [List.mem_range, groupSize] at hb
      rw [groupSize]
      omega
    exact compare_groupName_of_lt_million (by rwa [group_mul_div, group_mul_div]) hmillion

theorem isLower_of_mem_groupNumbers {position : Nat} {c : Char}
    (h : c ∈ (groupNumbers position).toList) : Text.IsLower c := by
  have hpad : ∀ n : Nat, c ∈ (Text.padLeft 6 (toString n)).toList → Text.IsLower c := by
    intro n hmem
    rcases Text.eq_blank_or_isDigit_of_mem hmem with rfl | hdigit
    · exact Text.isLower_of_lt_capitals (by decide)
    · have hle : c.toNat ≤ 57 := of_decide_eq_true (Bool.and_eq_true_iff.mp hdigit).2
      exact Text.isLower_of_lt_capitals (by omega)
  rw [groupNumbers, String.toList_append, String.toList_append, List.mem_append,
    List.mem_append] at h
  rcases h with (hfirst | hdash) | hlast
  · exact hpad _ hfirst
  · rw [List.mem_singleton.mp hdash]
    exact Text.isLower_of_lt_capitals (by decide)
  · exact hpad _ hlast

theorem lower_groupName (position : Nat) :
    Text.lower (groupName position) = "graphs " ++ groupNumbers position := by
  have hword : Text.lower "Graphs" = "graphs" := by decide +kernel
  have hsplit : groupName position = "Graphs" ++ " " ++ groupNumbers position :=
    groupName_eq position
  rw [hsplit, Text.lower_append_space, hword, Text.lower_of_isLower fun _ =>
    isLower_of_mem_groupNumbers]
  rfl

/-- In lower case the names of groups are in the same order. -/
theorem compare_lower_groupName (i j : Nat) :
    compare (Text.lower (groupName i)) (Text.lower (groupName j)) =
      compare (groupName i) (groupName j) := by
  rw [lower_groupName, lower_groupName, groupName_eq, groupName_eq, Text.compare_append_left,
    Text.compare_append_left]

/-! ### Ranks in fresh trees -/

section Fresh

variable (h : t.IsFresh)

include h

/-- Nothing is said about a family of a fresh tree, so it is filled in with its name for a rank. -/
theorem IsFresh.rank_prepare {id : Nat} (hid : id < t.prepare.size) :
    (t.prepare.family id).rank = some (.text (Text.lower ((t.prepare.node id).name?.getD ""))) := by
  have hdescribed : t.IsDescribed := h.describes.described
  rw [h.wellFormed.rank_prepare hid, hdescribed.aliasName_prepare h.wellFormed hid, h.bare id]
  rfl

/-- In a fresh tree that is made normal, families are ranked by their names in lower case. -/
theorem IsFresh.rank_normalize {id : Nat} (hid : id < t.normalize.value.size) :
    (t.normalize.value.family id).rank =
      some (.text (Text.lower ((t.normalize.value.node id).name?.getD ""))) := by
  have hprepare : t.prepare.WellFormed := h.wellFormed.prepare
  have hlinks : SameLinks t.prepare t.normalize.value := hprepare.sameLinks_finish
  have hname : (t.normalize.value.node id).name? = (t.prepare.node id).name? :=
    congrArg List.getLast? (hlinks.path id)
  rw [hlinks.size] at hid
  rw [hname, normalize_eq_finish]
  -- a rank that is a text already stays one
  rcases hprepare.rank_finish_cases hid with hsame | ⟨_, _, _, htext⟩
  · rw [hsame, h.rank_prepare hid]
  · rw [htext, h.rank_prepare hid]
    rfl

end Fresh

/-! ### Trees of images -/

section Images

variable (root : String) (files : List String)

theorem isFlat_ofImages : (ofImages root files).IsFlat where
  wellFormed := (isFresh_ofImages root files).1.wellFormed
  leaf id hid := by
    have h : (ofImages root files).WellFormed := (isFresh_ofImages root files).1.wellFormed
    rcases Nat.lt_or_ge id (ofImages root files).size with hlt | hge
    · by_contra hsons
      obtain ⟨name, hson⟩ := (h.sons_ne_nil_iff hlt).mp hsons
      rcases has_ofImages_iff.mp (h.has_path hlt) with hroot | ⟨k, _, hpath⟩
      · exact hid (h.path_injective hlt h.root_lt (hroot.trans h.path_root.symm))
      · rw [hpath] at hson
        rcases has_ofImages_iff.mp hson with hnil | ⟨_, _, hlong⟩
        · exact absurd (congrArg List.length hnil) (by simp)
        · exact absurd (congrArg List.length hlong) (by simp)
    · rw [sons, node_of_size_le hge]
      rfl

/-- No family has both images and groups, so making the tree normal leaves its links alone. -/
theorem sameLinks_normalize_ofImages :
    SameLinks (ofImages root files) (ofImages root files).normalize.value := by
  have hflat := isFlat_ofImages root files
  have hexclusive : (ofImages root files).IsExclusive := by
    intro id
    by_cases hid : id = Tree.root
    · have hnone : (ofImages root files).items Tree.root = [] := by
        rw [← hflat.wellFormed.itemsAt_path hflat.wellFormed.root_lt, hflat.wellFormed.path_root]
        exact itemsAt_root_ofImages root files
      rw [hid, isMixed, hnone, List.isEmpty_nil, Bool.not_true, Bool.and_false]
    · have hnone : ((ofImages root files).node id).hasSons = false := by
        rw [← Bool.not_eq_true, WellFormed.hasSons_iff, not_not]
        exact hflat.leaf id hid
      rw [isMixed, hnone, Bool.false_and]
  have hlinks := hflat.wellFormed.sameLinks_normalize
  rwa [relocateItems_of_isExclusive hexclusive] at hlinks

theorem mem_sonNames_ofImages_iff {name : String} :
    name ∈ (ofImages root files).sonNames ↔ name ∈ groupNames files.length := by
  rw [mem_sonNames_iff (isFlat_ofImages root files).wellFormed, has_ofImages_iff,
    mem_groupNames_iff]
  simp

/-- The sons of the root are the groups. -/
theorem perm_sonNames_ofImages : (ofImages root files).sonNames.Perm (groupNames files.length) := by
  have hnodup : (ofImages root files).sonNames.Nodup :=
    (increasing_sonNames _).imp fun hlt => ne_of_compare_lt hlt
  refine (List.perm_ext_iff_of_nodup hnodup (nodup_groupNames _)).mpr fun name => ?_
  exact mem_sonNames_ofImages_iff root files

theorem sonNames_ofImages_eq_iff :
    (ofImages root files).sonNames = groupNames files.length ↔ files.length ≤ 1000000 := by
  rw [← increasing_groupNames_iff]
  constructor
  · intro heq
    rw [← heq]
    exact increasing_sonNames _
  · intro hincreasing
    exact SortedSet.eq_of_increasing (increasing_sonNames _) hincreasing fun _ =>
      mem_sonNames_ofImages_iff root files

theorem isRankedByName_ofImages : (ofImages root files).IsRankedByName := by
  intro a b _ _ _
  rw [(isFresh_ofImages root files).1.bare, (isFresh_ofImages root files).1.bare]
  rfl

theorem isRankedByName_normalize_ofImages :
    (ofImages root files).normalize.value.IsRankedByName := by
  have hfresh := (isFresh_ofImages root files).1
  have hflat := (isFlat_ofImages root files).of_sameLinks (sameLinks_normalize_ofImages root files)
  have hrank : ∀ a : String × Nat,
      (ofImages root files).normalize.value.son? Tree.root a.1 = some a.2 →
      ((ofImages root files).normalize.value.family a.2).rank = some (.text (Text.lower a.1)) ∧
        ∃ k, a.1 = groupName k := by
    intro a hson
    obtain ⟨hlt, _, hpath⟩ := hflat.wellFormed.down Tree.root a.1 a.2 hson
    rw [hflat.wellFormed.path_root, List.nil_append] at hpath
    constructor
    · rw [hfresh.rank_normalize hlt, Node.name?, hpath]
      rfl
    · have hhas := hflat.wellFormed.has_path hlt
      rw [hpath, (sameLinks_normalize_ofImages root files).has_eq, has_ofImages_iff] at hhas
      rcases hhas with hnil | ⟨k, _, hname⟩
      · exact absurd hnil (List.cons_ne_nil _ _)
      · exact ⟨k, List.singleton_inj.mp hname⟩
  intro a b ha hb hlt
  obtain ⟨harank, i, hi⟩ := hrank a ha
  obtain ⟨hbrank, j, hj⟩ := hrank b hb
  have hcompare : compare (Text.lower a.1) (Text.lower b.1) = .lt := by
    rw [hi, hj, compare_lower_groupName, ← hi, ← hj, hlt]
  have hranks : Rank.compareOptional (some (.text (Text.lower a.1)))
      (some (.text (Text.lower b.1))) = compare (Text.lower a.1) (Text.lower b.1) := rfl
  rw [harank, hbrank, hranks, hcompare]
  rfl

/-- The tree of images lists its groups in the order of their names, -/
theorem listsFamilies_ofImages :
    (ofImages root files).ListsFamilies (ofImages root files).sonNames :=
  (isFlat_ofImages root files).listsFamilies (isRankedByName_ofImages root files)

/-- and so it does when it is made normal. -/
theorem listsFamilies_normalize_ofImages :
    (ofImages root files).normalize.value.ListsFamilies (ofImages root files).sonNames := by
  have hlinks := sameLinks_normalize_ofImages root files
  have hflat := (isFlat_ofImages root files).of_sameLinks hlinks
  have hlisted := hflat.listsFamilies (isRankedByName_normalize_ofImages root files)
  rwa [sonNames, hlinks.nodeSons] at hlisted

end Images

/-- How the groups of a number of images are ordered, and how their tree lists them before and after
it is made normal. -/
structure OrdersGroups (count : Nat) (t : Tree) : Prop where
  /-- Of two groups, the one that is found first comes first by its name if and only if its first
  number is not greater than the digits that it stands against in a column of six places. -/
  compare_iff : ∀ i j, i / 10 < j / 10 → (compare (groupName i) (groupName j) = .lt ↔
    firstOfGroup i ≤ Text.leadingDigits 6 (firstOfGroup i) (firstOfGroup j))
  /-- The groups are listed in the order of their names, -/
  listed : t.ListsFamilies t.sonNames
  listed_normal : t.normalize.value.ListsFamilies t.sonNames
  increasing : t.sonNames.Pairwise fun a b => compare a b = .lt
  perm : t.sonNames.Perm (groupNames count)
  /-- which is the order in which they are found exactly for at most a million images. -/
  found_iff : t.sonNames = groupNames count ↔ count ≤ 1000000

/-- The tree of images lists its groups by their names, and as they are found only for at most a
million images. -/
theorem ordersGroups_ofImages (root : String) (files : List String) :
    OrdersGroups files.length (ofImages root files) where
  compare_iff i j h := by
    rw [compare_groupName h]
    split <;> simp [*]
  listed := listsFamilies_ofImages root files
  listed_normal := listsFamilies_normalize_ofImages root files
  increasing := increasing_sonNames _
  perm := perm_sonNames_ofImages root files
  found_iff := sonNames_ofImages_eq_iff root files

/-- The last group of the first million and the next one, and how a million and one images are
listed. -/
theorem groups_out_of_order :
    let files := (List.range 1000001).map fun n => "data/" ++ toString n ++ ".png"
    let t := ofImages "data" files
    let found := groupNames 1000001
    999990 / 10 < 1000000 / 10 ∧ groupName 999990 = "Graphs 999991-1000000" ∧
      groupName 1000000 = "Graphs 1000001-1000010" ∧
      compare (groupName 999990) (groupName 1000000) = .gt ∧
      t.all.map (fun id => (t.node id).path) ≠ [] :: found.map (fun name => [name]) ∧
      (t.normalize.value.sortedSons root).map Prod.fst ≠ found ∧
      ∀ details, OutlineLine.headings (t.normalize.value.outlineLines details) ≠ "" :: found := by
  intro files t found
  have hlength : files.length = 1000001 := by
    rw [List.length_map, List.length_range]
  have hne : t.sonNames ≠ found := by
    intro heq
    have hle := (sonNames_ofImages_eq_iff "data" files).mp (by rw [hlength]; exact heq)
    omega
  have hlisted : t.ListsFamilies t.sonNames := listsFamilies_ofImages "data" files
  have hnormal : t.normalize.value.ListsFamilies t.sonNames :=
    listsFamilies_normalize_ofImages "data" files
  refine ⟨by decide, by decide +kernel, by decide +kernel, compare_groupName_million, ?_, ?_, ?_⟩
  · rw [hlisted.walk]
    intro heq
    exact hne (List.map_injective_iff.mpr (fun _ _ => List.singleton_inj.mp)
      (List.cons_inj_right _ |>.mp heq))
  · rw [hnormal.sons]
    exact hne
  · intro details
    rw [hnormal.outline]
    exact fun heq => hne (List.cons_inj_right _ |>.mp heq)

end Catalog.Tree
