import Catalog.Proofs.Tree.Paths
import Catalog.Proofs.Tree.SortedSons
import Catalog.Tree.Walk

/-!
# Families in the outline

The outline writes a heading for every family and below it the lines of its items, and then goes
through its sorted sons. In a tree of one level the sons of the root are all families but the root
itself, so the walk over all families and the outline list the same names in the same order, if the
ranks of the sons do not contradict it.

* `WellFormed.outlineBelow_eq` says what the outline is on a well-formed tree, and
  `OutlineLine.headings` which families are in it;
* `Tree.IsFlat` says that no family but the root has sub-families;
* `Tree.ListsFamilies` says that the walk, the sorted sons and the outline list some names, and
  `IsFlat.listsFamilies` that they list the names of the sons.
-/

namespace Catalog

/-- The names of the families that have a heading among some lines. -/
def OutlineLine.headings (lines : List OutlineLine) : List String :=
  lines.filterMap fun line =>
    match line with
    | .family _ _ name _ _ => some name
    | .item _ _ _ => none

namespace Tree

variable {t u : Tree}

/-! ### Headings -/

/-- On a well-formed tree the outline needs no check of its bounds. -/
theorem WellFormed.outlineBelow_eq (h : t.WellFormed) (details : Bool) (depth position : Nat)
    (name : String) (id : Nat) : t.outlineBelow details depth position name id =
      .family depth position name (t.items id).length (t.node id).sons.size ::
        ((if details then itemLines depth (t.items id) else []) ++
          ((t.sortedSons id).zipIdx 1).flatMap fun son =>
            t.outlineBelow details (depth + 1) son.2 son.1.1 son.1.2) := by
  rw [outlineBelow.eq_def, List.flatMap_def, List.flatMap_def]
  congr 3
  refine List.map_congr_left fun son hson => ?_
  have hmem : son.1 ∈ t.sortedSons id := List.fst_mem_of_mem_zipIdx hson
  have hson : t.son? id son.1.1 = some son.1.2 := mem_sortedSons_iff.mp hmem
  exact if_pos ⟨h.lt_of_son? hson, (h.down id _ _ hson).1⟩

/-- The lines of items are no headings. -/
theorem headings_itemLines (depth : Nat) (items : List Item) :
    OutlineLine.headings (itemLines depth items) = [] := by
  rw [OutlineLine.headings, itemLines, List.filterMap_map, List.filterMap_eq_nil_iff]
  intro numbered _
  rfl

/-- A family comes before the families below its sorted sons, whether items are listed or not. -/
theorem WellFormed.headings_outlineBelow (h : t.WellFormed) (details : Bool) (depth position : Nat)
    (name : String) (id : Nat) :
    OutlineLine.headings (t.outlineBelow details depth position name id) =
      name :: ((t.sortedSons id).zipIdx 1).flatMap fun son =>
        OutlineLine.headings (t.outlineBelow details (depth + 1) son.2 son.1.1 son.1.2) := by
  have hitems : OutlineLine.headings (if details then itemLines depth (t.items id) else []) =
      [] := by
    cases details with
    | true => exact headings_itemLines depth _
    | false => rfl
  rw [OutlineLine.headings] at hitems
  rw [h.outlineBelow_eq, OutlineLine.headings, List.filterMap_cons, List.filterMap_append, hitems,
    List.filterMap_flatMap]
  rfl

/-! ### Trees of one level -/

/-- No family but the root has sub-families. -/
structure IsFlat (t : Tree) : Prop where
  wellFormed : t.WellFormed
  leaf : ∀ id, id ≠ root → t.sons id = []

theorem IsFlat.of_sameLinks (h : t.IsFlat) (hlinks : SameLinks t u) : u.IsFlat where
  wellFormed := hlinks.wellFormed h.wellFormed
  leaf id hid := (hlinks.sons id).trans (h.leaf id hid)

/-- The names of the sons of the root, in the order of names. -/
def sonNames (t : Tree) : List String := (t.node root).sons.entries.map Prod.fst

theorem mem_sonNames_iff (h : t.WellFormed) {name : String} :
    name ∈ t.sonNames ↔ t.has [name] = true := by
  have hson := h.son?_eq_find? h.root_lt name
  rw [h.path_root, List.nil_append] at hson
  rw [sonNames, has, ← hson, Option.isSome_iff_exists, List.mem_map]
  constructor
  · rintro ⟨⟨name, son⟩, hmem, rfl⟩
    exact ⟨son, SortedMap.mem_entries_iff.mp hmem⟩
  · rintro ⟨son, hson⟩
    exact ⟨(name, son), SortedMap.mem_entries_iff.mpr hson, rfl⟩

theorem increasing_sonNames (t : Tree) : t.sonNames.Pairwise fun a b => compare a b = .lt :=
  List.pairwise_map.mpr (t.node root).sons.increasing

/-- The names of all families below the root, as the walk over all families, the sorted sons of the
root and the outline list them. -/
structure ListsFamilies (t : Tree) (names : List String) : Prop where
  walk : t.all.map (fun id => (t.node id).path) = [] :: names.map fun name => [name]
  sons : (t.sortedSons root).map Prod.fst = names
  outline : ∀ details, OutlineLine.headings (t.outlineLines details) = "" :: names

/-- The ranks of the sons of the root do not contradict the order of their names. -/
def IsRankedByName (t : Tree) : Prop :=
  ∀ a b : String × Nat, t.son? root a.1 = some a.2 → t.son? root b.1 = some b.2 →
    compare a.1 b.1 = .lt →
    (Rank.compareOptional (t.family a.2).rank (t.family b.2).rank).isLE = true

theorem IsRankedByName.sortedSons_eq (h : t.IsRankedByName) :
    t.sortedSons root = (t.node root).sons.entries := by
  refine List.mergeSort_of_pairwise
    ((t.node root).sons.increasing.imp_of_mem fun {a b} ha hb hlt => ?_)
  have hrank := h a b (SortedMap.mem_entries_iff.mp ha) (SortedMap.mem_entries_iff.mp hb) hlt
  rw [compareSons, hlt]
  cases hcompare : Rank.compareOptional (t.family a.2).rank (t.family b.2).rank with
  | lt => rfl
  | eq => rfl
  | gt =>
    rw [hcompare] at hrank
    cases hrank

namespace IsFlat

variable (h : t.IsFlat)

include h

theorem all_eq : t.all = root :: t.sons root := by
  have hsub : ∀ son ∈ t.sons root, t.subtree son = [son] := by
    intro son hson
    have hne : son ≠ root := Nat.ne_of_gt (h.wellFormed.of_mem_sons hson).1
    rw [h.wellFormed.subtree_eq, h.leaf son hne]
    rfl
  rw [all, h.wellFormed.subtree_eq, List.flatMap_def, List.map_congr_left hsub, ← List.flatMap_def]
  simp

/-- The outline lists the root, which has no name, and its sorted sons. -/
theorem headings_outlineLines (details : Bool) :
    OutlineLine.headings (t.outlineLines details) = "" :: (t.sortedSons root).map Prod.fst := by
  have hson : ∀ son ∈ (t.sortedSons root).zipIdx 1,
      OutlineLine.headings (t.outlineBelow details 1 son.2 son.1.1 son.1.2) = [son.1.1] := by
    intro son hson
    have hmem : t.son? root son.1.1 = some son.1.2 :=
      mem_sortedSons_iff.mp (List.fst_mem_of_mem_zipIdx hson)
    have hentries : (t.node son.1.2).sons.entries = [] :=
      List.map_eq_nil_iff.mp (h.leaf son.1.2 (h.wellFormed.ne_root_of_son? hmem))
    rw [h.wellFormed.headings_outlineBelow, sortedSons, hentries]
    simp
  rw [outlineLines, h.wellFormed.headings_outlineBelow, List.flatMap_def, List.map_congr_left hson,
    ← List.flatMap_def, ← List.map_eq_flatMap]
  show "" :: ((t.sortedSons root).zipIdx 1).map (Prod.fst ∘ Prod.fst) = _
  rw [← List.map_map, List.zipIdx_map_fst]

/-- All ways to list the families list the names of the sons. -/
theorem listsFamilies (hranked : t.IsRankedByName) : t.ListsFamilies t.sonNames where
  walk := by
    have hpath : ∀ son ∈ (t.node root).sons.entries, (t.node son.2).path = [son.1] := by
      intro son hson
      have hdown := (h.wellFormed.down root son.1 son.2 (SortedMap.mem_entries_iff.mp hson)).2.2
      rwa [h.wellFormed.path_root, List.nil_append] at hdown
    rw [h.all_eq, List.map_cons, h.wellFormed.path_root, sons, SortedMap.values, List.map_map,
      sonNames, List.map_map]
    exact congrArg ([] :: ·) (List.map_congr_left hpath)
  sons := by
    rw [hranked.sortedSons_eq, sonNames]
  outline details := by
    rw [h.headings_outlineLines, hranked.sortedSons_eq, sonNames]

end IsFlat

end Tree

end Catalog
