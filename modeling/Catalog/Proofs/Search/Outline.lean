import Catalog.Proofs.Normal.NormalForm
import Catalog.Proofs.Search.Shown
import Catalog.Proofs.Text.Padded
import Catalog.Proofs.Tree.Outline
import Mathlib.Data.List.Perm.Basic

/-!
# The outline and what searches return

The outline numbers the items of a family by their places in it, and goes to sub-families in the
order of their ranks. A search goes to families in the order of their names and returns items with
the numbers that ordering gave them. On a normal tree both show the same: every family has one
heading, and every item one line below it, under the number that any search returns for it.

* `Tree.rankedSubtree` is the walk that the outline takes, and `WellFormed.perm_rankedSubtree` says
  that it meets the families of the other walk;
* `Tree.heading` and `Tree.numberedLine?` are the lines that a family and an item should have,
  `Tree.headingText` and `Tree.numberedText?` what is to be read on them, and
  `WellFormed.outlineBelow_eq_flatMap` says that the outline consists of the lines along the walk;
* `Tree.OutlinesSearches` says what an outline has to show, and
  `WellFormed.outlinesSearches_normalize` that it does.
-/

namespace Catalog

/-- Whether a line is the heading of a family. -/
def OutlineLine.isHeading : OutlineLine → Bool
  | .family _ _ _ _ _ => true
  | .item _ _ _ => false

namespace Tree

variable {t : Tree}

/-! ### The walk in the order of ranks -/

/-- A family and all families below it, each before its sons, sons in the order of their ranks. -/
def rankedSubtree (t : Tree) (id : Nat) : List Nat :=
  id :: (t.sortedSons id).flatMap fun son =>
    if id < son.2 ∧ son.2 < t.size then rankedSubtree t son.2 else []
termination_by t.size - id
decreasing_by omega

/-- All families, each before its sons, sons in the order of their ranks. -/
def ranked (t : Tree) : List Nat := t.rankedSubtree root

theorem WellFormed.rankedSubtree_eq (h : t.WellFormed) (id : Nat) :
    t.rankedSubtree id = id :: (t.sortedSons id).flatMap fun son => t.rankedSubtree son.2 := by
  rw [rankedSubtree.eq_def t id, List.flatMap_def, List.flatMap_def]
  refine congrArg (id :: ·) (congrArg List.flatten (List.map_congr_left fun son hmem => ?_))
  have hson : t.son? id son.1 = some son.2 := mem_sortedSons_iff.mp hmem
  exact if_pos ⟨h.lt_of_son? hson, (h.down id _ _ hson).1⟩

/-- Both walks meet the same families, each as often as the other. -/
theorem WellFormed.perm_rankedSubtree (h : t.WellFormed) (id : Nat) :
    (t.rankedSubtree id).Perm (t.subtree id) := by
  induction id using h.sons_induction with
  | step id ih =>
    have hsons : ((t.sortedSons id).map Prod.snd).Perm (t.sons id) :=
      (t.perm_sortedSons id).map Prod.snd
    rw [h.rankedSubtree_eq, h.subtree_eq]
    refine List.Perm.cons id ?_
    rw [← List.flatMap_map (f := Prod.snd) (g := t.rankedSubtree)]
    exact hsons.flatMap fun son hson => ih son (hsons.mem_iff.mp hson)

/-! ### Lines -/

/-- The place of a family among its siblings in the order of ranks, counted from one. -/
def position (t : Tree) (id : Nat) : Nat :=
  match (t.node id).parent with
  | some parent => ((t.sortedSons parent).map Prod.snd).idxOf id + 1
  | none => 1

/-- The heading of a family. The root has an empty name. -/
def heading (t : Tree) (id : Nat) : OutlineLine :=
  .family (t.node id).path.length (t.position id) ((t.node id).name?.getD "")
    (t.items id).length (t.sons id).length

/-- The line of an item of a family, with the number that searches return for the item. -/
def numberedLine? (t : Tree) (id : Nat) (item : Item) : Option OutlineLine :=
  item.toMatched.number.map fun n => .item (t.node id).path.length n item.title

/-- What the heading of a family says: two blanks for each family above it, its place among its
siblings, its name, and the numbers of its items and sub-families. -/
def headingText (t : Tree) (id : Nat) : String :=
  String.ofList (List.replicate (2 * (t.node id).path.length) ' ') ++
    "(" ++ toString (t.position id) ++ ") " ++ (t.node id).name?.getD "" ++
    " [" ++ toString (t.items id).length ++ "," ++ toString (t.sons id).length ++ "]"

/-- What the line of an item says: below the heading of its family, four blanks further in, the
number that searches return for the item, with a blank in front if it has one digit, and the
title. -/
def numberedText? (t : Tree) (id : Nat) (item : Item) : Option String :=
  item.toMatched.number.map fun n =>
    String.ofList (List.replicate (2 * (t.node id).path.length + 4) ' ') ++ "|" ++
      (if n < 10 then " " else "") ++ toString n ++ "| " ++ item.title

/-- The lines of the outline as texts. -/
def outlineTexts (t : Tree) (details : Bool) : List String :=
  (t.outlineLines details).map OutlineLine.text

/-- The lines of one family in the outline. -/
def familyLines (t : Tree) (details : Bool) (id : Nat) : List OutlineLine :=
  t.heading id :: if details then itemLines (t.node id).path.length (t.items id) else []

/-- Sons are met at the places at which they stand in the order of ranks. -/
theorem WellFormed.position_of_mem_zipIdx (h : t.WellFormed) {id : Nat} {son : (String × Nat) × Nat}
    (hmem : son ∈ (t.sortedSons id).zipIdx 1) : t.position son.1.2 = son.2 := by
  obtain ⟨hpos, hlt, heq⟩ := List.mem_zipIdx hmem
  have hson : t.son? id son.1.1 = some son.1.2 :=
    mem_sortedSons_iff.mp (List.fst_mem_of_mem_zipIdx hmem)
  have hindex : son.2 - 1 < ((t.sortedSons id).map Prod.snd).length := by
    rw [List.length_map]
    omega
  have hget : ((t.sortedSons id).map Prod.snd)[son.2 - 1] = son.1.2 := by
    rw [List.getElem_map, ← heq]
  rw [position, (h.down id _ _ hson).2.1]
  show ((t.sortedSons id).map Prod.snd).idxOf son.1.2 + 1 = son.2
  rw [← hget, (h.listsSons_sortedSons id).nodup.idxOf_getElem]
  omega

/-- The outline below a family consists of the lines of the families below it, in the order of
ranks. -/
theorem WellFormed.outlineBelow_eq_flatMap (h : t.WellFormed) (details : Bool) (id : Nat) :
    t.outlineBelow details (t.node id).path.length (t.position id) ((t.node id).name?.getD "") id =
      (t.rankedSubtree id).flatMap (t.familyLines details) := by
  induction id using h.sons_induction with
  | step id ih =>
    have hson : ∀ son ∈ (t.sortedSons id).zipIdx 1,
        t.outlineBelow details ((t.node id).path.length + 1) son.2 son.1.1 son.1.2 =
          (t.rankedSubtree son.1.2).flatMap (t.familyLines details) := by
      intro son hmem
      have hson : t.son? id son.1.1 = some son.1.2 :=
        mem_sortedSons_iff.mp (List.fst_mem_of_mem_zipIdx hmem)
      have hpath := (h.down id _ _ hson).2.2
      have hdepth : (t.node son.1.2).path.length = (t.node id).path.length + 1 := by
        rw [hpath, List.length_append, List.length_singleton]
      have hname : (t.node son.1.2).name?.getD "" = son.1.1 := by
        rw [Node.name?, hpath, List.getLast?_concat, Option.getD_some]
      rw [← hdepth, ← h.position_of_mem_zipIdx hmem, ← hname]
      exact ih son.1.2 (WellFormed.mem_sons_iff.mpr ⟨_, hson⟩)
    have hsons : ((t.sortedSons id).zipIdx 1).flatMap (fun son =>
        t.outlineBelow details ((t.node id).path.length + 1) son.2 son.1.1 son.1.2) =
          (t.sortedSons id).flatMap fun son =>
            (t.rankedSubtree son.2).flatMap (t.familyLines details) := by
      conv_rhs => rw [← List.zipIdx_map_fst 1 (t.sortedSons id), List.flatMap_map]
      rw [List.flatMap_def, List.flatMap_def, List.map_congr_left hson]
    rw [h.outlineBelow_eq, hsons, h.rankedSubtree_eq, List.flatMap_cons, List.flatMap_assoc,
      familyLines, heading, sons, SortedMap.values, List.length_map]
    rfl

/-- Items that are numbered from one have the lines that searches tell. -/
theorem map_some_itemLines {id : Nat}
    (h : (t.items id).map Item.number = (List.range' 1 (t.items id).length).map some) :
    (itemLines (t.node id).path.length (t.items id)).map some =
      (t.items id).map (t.numberedLine? id) := by
  refine List.ext_getElem (by simp [itemLines]) fun i hi hi' => ?_
  have hlt : i < (t.items id).length := by simpa using hi'
  have hnumber : ((t.items id)[i]).number = some (1 + i) := by
    have hget : ((t.items id).map Item.number)[i]? = some (some (1 + i)) := by
      rw [h]
      simp [hlt]
    simpa [hlt] using hget
  simp [itemLines, numberedLine?, Item.toMatched, hnumber]

theorem filter_isHeading_itemLines (depth : Nat) (items : List Item) :
    (itemLines depth items).filter OutlineLine.isHeading = [] := by
  rw [List.filter_eq_nil_iff]
  intro line hline
  obtain ⟨_, _, rfl⟩ := List.mem_map.mp hline
  exact Bool.false_ne_true

/-! ### Texts of lines -/

/-- The heading of a family is read off its text. -/
theorem text_heading (t : Tree) (id : Nat) : (t.heading id).text = t.headingText id := rfl

theorem map_text_numberedLine? (t : Tree) (id : Nat) (item : Item) :
    (t.numberedLine? id item).map OutlineLine.text = t.numberedText? id item := by
  rw [numberedLine?, numberedText?, Option.map_map]
  refine congrArg (Option.map · item.toMatched.number) (funext fun n => ?_)
  show OutlineLine.indent _ ++ "|" ++ Text.padLeft 2 (toString n) ++ "| " ++ item.title = _
  rw [Text.padLeft_two, OutlineLine.indent, Nat.mul_add]
  simp only [String.append_assoc]

/-! ### The outline of a normal tree -/

/-- The outline shows every family under one heading, with the numbers of its items and
sub-families, and every item on one line below the heading of its family, under the number that
searches return for it. -/
structure OutlinesSearches (t : Tree) : Prop where
  /-- Every family has one heading. -/
  families : t.ranked.Perm (List.range t.size)
  /-- Below a family come its sons in the order of their ranks, each with all that is below it. -/
  order : ∀ id,
    t.rankedSubtree id = id :: (t.sortedSons id).flatMap fun son => t.rankedSubtree son.2
  detailed : (t.outlineLines true).map some =
    t.ranked.flatMap fun id => some (t.heading id) :: (t.items id).map (t.numberedLine? id)
  plain : t.outlineLines false = (t.outlineLines true).filter OutlineLine.isHeading
  /-- The outline is the texts of these lines: the headings with the numbers of items and
  sub-families, and below each heading its items with their numbers, -/
  detailedTexts : (t.outlineTexts true).map some =
    t.ranked.flatMap fun id => some (t.headingText id) :: (t.items id).map (t.numberedText? id)
  /-- or the headings alone. -/
  plainTexts : t.outlineTexts false = t.ranked.map t.headingText
  joined : ∀ details, t.outline details = String.intercalate "\n" (t.outlineTexts details)
  /-- Under every path, a search returns the items that its query fits, as they are shown. -/
  returned : ∀ q key, (t.search q false).shownAt key = t.shownWhere (t.isMatch q) key

theorem WellFormed.outlineLines_eq (h : t.WellFormed) (details : Bool) :
    t.outlineLines details = t.ranked.flatMap (t.familyLines details) := by
  have hroot := h.outlineBelow_eq_flatMap details root
  rw [position, h.parent_root, Node.name?, h.path_root] at hroot
  exact hroot

theorem IsNormal.map_some_outlineLines (h : t.IsNormal) : (t.outlineLines true).map some =
    t.ranked.flatMap fun id => some (t.heading id) :: (t.items id).map (t.numberedLine? id) := by
  have hlines : ∀ id ∈ t.ranked, (t.familyLines true id).map some =
      some (t.heading id) :: (t.items id).map (t.numberedLine? id) := by
    intro id hmem
    have hid : id < t.size :=
      h.wellFormed.mem_all_iff.mp ((h.wellFormed.perm_rankedSubtree root).mem_iff.mp hmem)
    exact congrArg (some (t.heading id) :: ·) (map_some_itemLines (h.ordered.items id hid).numbered)
  rw [h.wellFormed.outlineLines_eq, List.map_flatMap, List.flatMap_def, List.flatMap_def,
    List.map_congr_left hlines]

theorem IsNormal.map_some_outlineTexts (h : t.IsNormal) : (t.outlineTexts true).map some =
    t.ranked.flatMap fun id =>
      some (t.headingText id) :: (t.items id).map (t.numberedText? id) := by
  have hlines : (t.outlineTexts true).map some =
      ((t.outlineLines true).map some).map (Option.map OutlineLine.text) := by
    rw [outlineTexts, List.map_map, List.map_map]
    rfl
  have hread : ∀ id,
      (some (t.heading id) :: (t.items id).map (t.numberedLine? id)).map
          (Option.map OutlineLine.text) =
        some (t.headingText id) :: (t.items id).map (t.numberedText? id) := by
    intro id
    rw [List.map_cons, List.map_map, Option.map_some, text_heading]
    exact congrArg (some (t.headingText id) :: ·) (List.map_congr_left fun item _ =>
      t.map_text_numberedLine? id item)
  rw [hlines, h.map_some_outlineLines, List.map_flatMap, funext hread]

theorem IsNormal.outlinesSearches (h : t.IsNormal) : t.OutlinesSearches where
  families := (h.wellFormed.perm_rankedSubtree root).trans h.wellFormed.perm_all
  order := h.wellFormed.rankedSubtree_eq
  detailed := h.map_some_outlineLines
  plain := by
    have hlines : ∀ id, t.familyLines false id =
        (t.familyLines true id).filter OutlineLine.isHeading := by
      intro id
      show [t.heading id] = t.heading id :: (itemLines _ (t.items id)).filter OutlineLine.isHeading
      rw [filter_isHeading_itemLines]
    rw [h.wellFormed.outlineLines_eq, h.wellFormed.outlineLines_eq, List.filter_flatMap,
      funext hlines]
  detailedTexts := h.map_some_outlineTexts
  plainTexts := by
    rw [outlineTexts, h.wellFormed.outlineLines_eq, List.map_flatMap, List.map_eq_flatMap]
    rfl
  joined details := by
    rw [outline, Text.joinWith_eq_intercalate, outlineTexts]
  returned := t.shownAt_search

/-- The outline of a tree made normal shows every family once, in the order of ranks, and every item
of a family once, under the number that any search returns for it. -/
theorem WellFormed.outlinesSearches_normalize (h : t.WellFormed) :
    t.normalize.value.OutlinesSearches :=
  h.isNormal_normalize.outlinesSearches

/-! ### Turned around by ranks -/

/-- Two families whose ranks turn the order of their names around. The one that comes first has a
family below it, and the other one has an item. -/
def turnedFamilies : Tree :=
  let made := (((∅ : Tree).create ["Ops"]).1.create ["Sales", "North"]).1
  let turned := (made.modify 1 fun f => { f with rank := some (.int 2) }).modify 2 fun f =>
    { f with rank := some (.int 1) }
  turned.modify 1 fun f => { f with items := [{ title := "Incidents" }] }

theorem wellFormed_turnedFamilies : turnedFamilies.WellFormed := by
  have hreachable : turnedFamilies.Reachable := by
    unfold turnedFamilies
    exact .change 1 _ (.change 2 _
      (.change 1 _ (.create _ (.create _ .empty (by decide)) (by decide))))
  exact hreachable.wellFormed

theorem sortedSons_turnedFamilies :
    turnedFamilies.normalize.value.sortedSons root = [("Sales", 2), ("Ops", 1)] := by
  have hentries : (turnedFamilies.normalize.value.node root).sons.entries =
      [("Ops", 1), ("Sales", 2)] := by
    decide +kernel
  have hturned :
      (turnedFamilies.normalize.value.compareSons ("Ops", 1) ("Sales", 2)).isLE = false := by
    decide +kernel
  rw [sortedSons, hentries]
  simp [List.mergeSort, hturned]

theorem ranked_turnedFamilies : turnedFamilies.normalize.value.ranked = [0, 2, 3, 1] := by
  have hsales : turnedFamilies.normalize.value.rankedSubtree 2 = [2, 3] := by decide +kernel
  have hops : turnedFamilies.normalize.value.rankedSubtree 1 = [1] := by decide +kernel
  rw [ranked, wellFormed_turnedFamilies.isNormal_normalize.wellFormed.rankedSubtree_eq,
    sortedSons_turnedFamilies, List.flatMap_cons, List.flatMap_singleton, hsales, hops]
  rfl

theorem position_turnedFamilies :
    turnedFamilies.normalize.value.position 2 = 1 ∧
      turnedFamilies.normalize.value.position 1 = 2 := by
  have hparent : (turnedFamilies.normalize.value.node 2).parent = some root ∧
      (turnedFamilies.normalize.value.node 1).parent = some root := by
    decide +kernel
  rw [position, position, hparent.1, hparent.2]
  show ((turnedFamilies.normalize.value.sortedSons root).map Prod.snd).idxOf 2 + 1 = 1 ∧
    ((turnedFamilies.normalize.value.sortedSons root).map Prod.snd).idxOf 1 + 1 = 2
  rw [sortedSons_turnedFamilies]
  decide

theorem outlineTexts_turnedFamilies : turnedFamilies.normalize.value.outlineTexts true =
    ["(1)  [0,2]", "  (1) Sales [0,1]", "    (1) North [0,0]", "  (2) Ops [1,0]",
      "      | 1| Incidents"] := by
  have hsales : turnedFamilies.normalize.value.headingText 2 = "  (1) Sales [0,1]" := by
    rw [headingText, position_turnedFamilies.1]
    decide +kernel
  have hops : turnedFamilies.normalize.value.headingText 1 = "  (2) Ops [1,0]" := by
    rw [headingText, position_turnedFamilies.2]
    decide +kernel
  have hothers : turnedFamilies.normalize.value.headingText 0 = "(1)  [0,2]" ∧
      turnedFamilies.normalize.value.headingText 3 = "    (1) North [0,0]" := by
    decide +kernel
  have hbare : ∀ id ∈ [0, 2, 3],
      (turnedFamilies.normalize.value.items id).length = 0 := by decide +kernel
  have hincidents : (turnedFamilies.normalize.value.items 1).map
      (turnedFamilies.normalize.value.numberedText? 1) = [some "      | 1| Incidents"] := by
    decide +kernel
  simp only [List.length_eq_zero_iff, List.forall_mem_cons] at hbare
  refine List.map_injective_iff.mpr (fun _ _ => Option.some.inj) ?_
  rw [wellFormed_turnedFamilies.isNormal_normalize.map_some_outlineTexts, ranked_turnedFamilies]
  simp [hsales, hops, hothers, hbare, hincidents]

/-- The walk in the order of names goes to the one family first, and the outline to the other
one. -/
theorem outlinesSearches_of_turned_order :
    turnedFamilies.WellFormed ∧ turnedFamilies.normalize.value.OutlinesSearches ∧
      turnedFamilies.normalize.value.all = [0, 1, 2, 3] ∧
      turnedFamilies.normalize.value.ranked = [0, 2, 3, 1] ∧
      turnedFamilies.normalize.value.outline true =
        "(1)  [0,2]\n  (1) Sales [0,1]\n    (1) North [0,0]\n  (2) Ops [1,0]\n" ++
          "      | 1| Incidents" := by
  have houtlines := wellFormed_turnedFamilies.outlinesSearches_normalize
  refine ⟨wellFormed_turnedFamilies, houtlines, by decide +kernel, ranked_turnedFamilies, ?_⟩
  rw [houtlines.joined, outlineTexts_turnedFamilies]
  rfl

end Tree

end Catalog
