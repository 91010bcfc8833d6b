import Catalog.Proofs.Load.Placing
import Catalog.Proofs.Load.Sources
import Catalog.Proofs.Search.Hits

/-!
# Groups of images

Images are grouped by tens under names that are made of numbers. A name says which group it belongs
to, so no two groups share a family, and what a family holds is a segment of the list of images.

* `Tree.compare_groupName` says which of two groups comes first by its name, and
  `Tree.groupName_eq_iff` that different groups have different names;
* `filter_div_zipIdx` says that the members whose positions lie in one group are a segment of the
  list;
* `Tree.GroupsByTens` says what a tree of images holds, and `Tree.groupsByTens_ofImages` that the
  tree of every list of images holds it.
-/

namespace Catalog

/-- The members whose positions have one quotient are a segment of the list, which is shorter at the
end of it. -/
theorem filter_div_zipIdx {α : Type} (members : List α) {size : Nat} (hsize : 0 < size)
    (group : Nat) : (members.zipIdx.filter fun member => member.2 / size = group).map Prod.fst =
      (members.drop (group * size)).take size := by
  induction members using List.reverseRecOn with
  | nil => simp
  | append_singleton before last ih =>
    have hlast : ([last].zipIdx before.length).filter (fun member => member.2 / size = group) =
        if before.length / size = group then [(last, before.length)] else [] := by
      by_cases hgroup : before.length / size = group <;> simp [hgroup]
    have hdiv := Nat.div_add_mod' before.length size
    have hmod := Nat.mod_lt before.length hsize
    rw [List.zipIdx_append, List.filter_append, List.map_append, ih, Nat.zero_add, hlast]
    rcases Nat.lt_trichotomy (before.length / size) group with hlt | heq | hgt
    · -- the segment begins behind the new member
      have hbegin : before.length / size * size + size ≤ group * size := by
        rw [← Nat.succ_mul]
        exact Nat.mul_le_mul_right size hlt
      have hbefore : before.drop (group * size) = [] := List.drop_eq_nil_of_le (by omega)
      have hafter : (before ++ [last]).drop (group * size) = [] := by
        refine List.drop_eq_nil_of_le ?_
        rw [List.length_append, List.length_singleton]
        omega
      rw [if_neg (Nat.ne_of_lt hlt), hbefore, hafter, List.take_nil]
      rfl
    · -- the segment is not full yet
      subst heq
      have hfree : (before.drop (before.length / size * size)).length < size := by
        rw [List.length_drop]
        omega
      rw [if_pos rfl, List.drop_append_of_le_length (by omega),
        List.take_of_length_le (Nat.le_of_lt hfree),
        List.take_of_length_le (by rw [List.length_append]; exact hfree)]
      rfl
    · -- the segment ends before the new member
      have hend : group * size + size ≤ before.length / size * size := by
        rw [← Nat.succ_mul]
        exact Nat.mul_le_mul_right size hgt
      have hfull : size ≤ (before.drop (group * size)).length := by
        rw [List.length_drop]
        omega
      rw [if_neg (Nat.ne_of_gt hgt), List.drop_append_of_le_length (by omega),
        List.take_append_of_le_length hfull]
      exact List.append_nil _

namespace Tree

/-! ### Names -/

/-- The number of the first image in the group at a position, counted from one. -/
def firstOfGroup (position : Nat) : Nat := position / groupSize * groupSize + 1

theorem firstOfGroup_lt {i j : Nat} (h : i / groupSize < j / groupSize) :
    firstOfGroup i < firstOfGroup j :=
  Nat.succ_lt_succ (Nat.mul_lt_mul_of_pos_right h (by decide))

/-- The numbers of the first and the last image in the group at a position, as its name has them. -/
def groupNumbers (position : Nat) : String :=
  Text.padLeft 6 (toString (firstOfGroup position)) ++ "-" ++
    Text.padLeft 6 (toString (position / groupSize * groupSize + groupSize))

theorem groupName_eq (position : Nat) :
    groupName position = "Graphs " ++ groupNumbers position := by
  simp only [groupName, groupNumbers, firstOfGroup, String.append_assoc]

/-- The names of two groups are in the order of the groups as long as the first number of the
earlier one is not greater than the digits of the other one that it stands against. -/
theorem compare_groupName {i j : Nat} (h : i / groupSize < j / groupSize) :
    compare (groupName i) (groupName j) =
      if firstOfGroup i ≤ Text.leadingDigits 6 (firstOfGroup i) (firstOfGroup j) then .lt
        else .gt := by
  rw [groupName_eq, groupName_eq, Text.compare_append_left, groupNumbers, groupNumbers,
    Text.compare_padLeft (firstOfGroup_lt h)]

theorem groupName_ne {i j : Nat} (h : i / groupSize < j / groupSize) :
    groupName i ≠ groupName j := by
  intro heq
  have hcompare := compare_groupName h
  rw [heq, Std.ReflOrd.compare_self] at hcompare
  split at hcompare <;> cases hcompare

/-- A name says which group it belongs to. -/
theorem groupName_eq_iff {i j : Nat} :
    groupName i = groupName j ↔ i / groupSize = j / groupSize := by
  constructor
  · intro heq
    rcases Nat.lt_trichotomy (i / groupSize) (j / groupSize) with hlt | hsame | hgt
    · exact absurd heq (groupName_ne hlt)
    · exact hsame
    · exact absurd heq.symm (groupName_ne hgt)
  · intro h
    rw [groupName, groupName, h]

/-! ### Items -/

/-- What the tree of images holds: one family for each group, with the images at the positions of
the group. -/
structure GroupsByTens (root : String) (files : List String) (t : Tree) : Prop where
  wellFormed : t.WellFormed
  /-- The families are the root, which has no items, and the groups below it. -/
  has_iff : ∀ path, t.has path = true ↔ path = [] ∨ ∃ k < files.length, path = [groupName k]
  items_root : t.itemsAt [] = []
  /-- Two positions are in one family if and only if they are in one group of ten. -/
  shared_iff : ∀ i j, groupName i = groupName j ↔ i / 10 = j / 10
  /-- The family of a position holds the segment of the group. An image is named by its path from
  the root and titled by the name of the file, and nothing else is told of it. -/
  items : ∀ k, t.itemsAt [groupName k] = ((files.drop (10 * (k / 10))).take 10).map fun file =>
    { name := some (Path.relativeTo file root)
      pending := { title := (Path.fileName? file).map .text } }
  /-- The image at a position has its place in the segment, -/
  item : ∀ k file, files[k]? = some file → (t.itemsAt [groupName k])[k % 10]? =
    some { name := some (Path.relativeTo file root)
           pending := { title := (Path.fileName? file).map .text } }
  /-- and below the root its name is the way down to it. -/
  below : ∀ k file isAbsolute names rest, files[k]? = some file →
    Place.ofPath root = ⟨isAbsolute, names⟩ →
    Place.ofPath file = ⟨isAbsolute, names ++ rest⟩ → rest ≠ [] →
      ((t.itemsAt [groupName k])[k % 10]?).map Item.name = some (some (Text.joinWith "/" rest))
  /-- A family is full unless it is the last one. -/
  full : ∀ k last, last < files.length → k / 10 < last / 10 → (t.itemsAt [groupName k]).length = 10
  itemCount : t.itemCount = files.length

/-- The families are the root and the groups of the positions that there are. -/
theorem has_ofImages_iff {root : String} {files : List String} {path : List String} :
    (ofImages root files).has path = true ↔
      path = [] ∨ ∃ k < files.length, path = [groupName k] := by
  rw [ofImages_eq, has_ofItems_iff]
  constructor
  · intro h
    rcases h with hroot | ⟨placed, hplaced, hprefix⟩
    · exact Or.inl hroot
    · obtain ⟨⟨file, k⟩, hfile, rfl⟩ := List.mem_map.mp hplaced
      have hk : k < files.length := by simpa using List.snd_lt_of_mem_zipIdx hfile
      cases path with
      | nil => exact Or.inl rfl
      | cons name rest =>
        obtain ⟨rfl, hrest⟩ := List.cons_prefix_cons.mp hprefix
        rw [List.prefix_nil.mp hrest]
        exact Or.inr ⟨k, hk, rfl⟩
  · intro h
    rcases h with hroot | ⟨k, hk, rfl⟩
    · exact Or.inl hroot
    · have hfile : (files[k], k) ∈ files.zipIdx :=
        List.mk_mem_zipIdx_iff_getElem?.mpr (List.getElem?_eq_getElem hk)
      exact Or.inr ⟨_, List.mem_map_of_mem hfile, List.prefix_refl _⟩

theorem itemsAt_root_ofImages (root : String) (files : List String) :
    (ofImages root files).itemsAt [] = [] := by
  rw [ofImages_eq, itemsAt, familyAt_ofItems, List.filter_map, List.map_map]
  simp [Function.comp_def]

/-- The images at the positions of a group are in its family. -/
theorem itemsAt_ofImages (root : String) (files : List String) (k : Nat) :
    (ofImages root files).itemsAt [groupName k] =
      ((files.drop (10 * (k / 10))).take 10).map (imageItem root) := by
  have hplaced : ∀ file : String × Nat,
      decide ([groupName file.2] = [groupName k]) = decide (file.2 / 10 = k / 10) := by
    intro file
    rw [decide_eq_decide, List.singleton_inj]
    exact groupName_eq_iff
  have hsegment := filter_div_zipIdx files (by decide : 0 < 10) (k / 10)
  rw [ofImages_eq, itemsAt, familyAt_ofItems, List.filter_map, List.map_map, Nat.mul_comm,
    ← hsegment, List.map_map]
  simp only [Function.comp_def, hplaced]

/-- An image at a position has its place in the family of its group. -/
theorem getElem?_itemsAt_ofImages (root : String) {files : List String} {k : Nat} {file : String}
    (hfile : files[k]? = some file) :
    ((ofImages root files).itemsAt [groupName k])[k % 10]? = some (imageItem root file) := by
  have hplace : 10 * (k / 10) + k % 10 = k := Nat.div_add_mod k 10
  have hmod : k % 10 < 10 := Nat.mod_lt k (by decide)
  rw [itemsAt_ofImages, List.getElem?_map, List.getElem?_take_of_lt hmod, List.getElem?_drop,
    hplace, hfile]
  rfl

/-- The tree of images groups them by tens and loses none. -/
theorem groupsByTens_ofImages (root : String) (files : List String) :
    GroupsByTens root files (ofImages root files) where
  wellFormed := (isFresh_ofImages root files).1.wellFormed
  has_iff path := has_ofImages_iff
  items_root := itemsAt_root_ofImages root files
  shared_iff i j := groupName_eq_iff
  items k := itemsAt_ofImages root files k
  item k file hfile := getElem?_itemsAt_ofImages root hfile
  below k file isAbsolute names rest hfile hroot hplace hrest := by
    have hname : Path.relativeTo file root = Text.joinWith "/" rest := by
      rw [Path.relativeTo, hroot, hplace, Place.seenFrom_below, Place.path]
      simp [hrest]
    rw [getElem?_itemsAt_ofImages root hfile, Option.map_some, imageItem, hname]
  full k last hlast hk := by
    rw [itemsAt_ofImages, List.length_map, List.length_take, List.length_drop]
    omega
  itemCount := by
    rw [itemCount_eq]
    exact ((isFresh_ofImages root files).2.length_eq).trans (List.length_map _)

/-- The last two of twelve images are in a family of their own, named by their paths from the root
and titled by the names of their files. -/
theorem groupsByTens_ofImages_of_twelve_images :
    let files := (List.range 12).map fun k => "data/2024/" ++ toString k ++ ".png"
    let t := ofImages "data" files
    GroupsByTens "data" files t ∧ t.itemCount = 12 ∧
      (t.itemsAt ["Graphs      1-    10"]).length = 10 ∧
      (t.itemsAt ["Graphs     11-    20"]).map
          (fun item => (item.name, item.pending.title.map Value.toText)) =
        [(some "2024/10.png", some "10.png"), (some "2024/11.png", some "11.png")] := by
  intro files t
  have h : GroupsByTens "data" files t := groupsByTens_ofImages "data" files
  have hfirst : groupName 0 = "Graphs      1-    10" := by decide +kernel
  have hsecond : groupName 10 = "Graphs     11-    20" := by decide +kernel
  refine ⟨h, h.itemCount, ?_, ?_⟩
  · rw [← hfirst]
    exact h.full 0 10 (by decide) (by decide)
  · rw [← hsecond, h.items]
    decide +kernel

end Tree

end Catalog
