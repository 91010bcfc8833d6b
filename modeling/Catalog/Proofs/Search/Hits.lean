import Catalog.Proofs.Tree.Preorder
import Catalog.Search.Basic

/-!
# Counting what a search finds

A search counts the items that its query fits, family by family. Every family is met once, so no
item is counted twice.

* `count_search_eq` gives the count without the grouping by families;
* `search_congr` and `count_search_mono` compare two queries, and `WellFormed.count_search_le` a
  query with the whole tree;
* `WellFormed.count_search_eq_zero_iff` says when nothing is found.
-/

namespace Catalog.Tree

variable {t : Tree} {q r : Query}

/-- What is collected from the families with fitting items is collected from all families, if there
is nothing to be collected from a family without. -/
theorem flatMap_hits {α : Type} {f : Nat × List Item → List α} (hf : ∀ id, f (id, []) = [])
    (t : Tree) (q : Query) :
    (t.hits q).flatMap f = t.all.flatMap fun id => f (id, t.fitting q id) := by
  rw [hits]
  induction t.all with
  | nil => rfl
  | cons id rest ih =>
    rw [List.map_cons, List.filter_cons, List.flatMap_cons, ← ih]
    cases hfitting : t.fitting q id with
    | nil =>
      rw [hf]
      rfl
    | cons item more => rfl

/-- The count is that of all items that the query fits, in the order of the walk. -/
theorem count_search_eq (t : Tree) (q : Query) (headless : Bool) :
    (t.search q headless).count = (t.all.flatMap (t.fitting q)).length := by
  rw [count_search, flatMap_hits fun _ => rfl]

theorem length_flatMap_le {α β : Type} {f g : α → List β} (xs : List α)
    (h : ∀ x ∈ xs, (f x).length ≤ (g x).length) :
    (xs.flatMap f).length ≤ (xs.flatMap g).length := by
  induction xs with
  | nil => exact Nat.le_refl _
  | cons x rest ih =>
    have hhead := h x List.mem_cons_self
    have hrest := ih fun y hy => h y (List.mem_cons_of_mem _ hy)
    rw [List.flatMap_cons, List.flatMap_cons, List.length_append, List.length_append]
    omega

/-- Queries that fit the same items have the same result. -/
theorem search_congr
    (h : ∀ id, ∀ item ∈ t.items id, q.fits (t.itemTexts id item) = r.fits (t.itemTexts id item))
    (headless : Bool) : t.search q headless = t.search r headless := by
  have hfitting : t.fitting q = t.fitting r := by
    funext id
    exact List.filter_congr (h id)
  rw [search, search, hits, hits, hfitting]

/-- A query that fits less finds no more. -/
theorem count_search_mono (h : ∀ id, ∀ item ∈ t.items id, q.fits (t.itemTexts id item) = true →
    r.fits (t.itemTexts id item) = true) (headless headless' : Bool) :
    (t.search q headless).count ≤ (t.search r headless').count := by
  rw [count_search_eq, count_search_eq]
  refine length_flatMap_le t.all fun id _ => ?_
  rw [fitting, fitting, ← List.countP_eq_length_filter, ← List.countP_eq_length_filter]
  exact List.countP_mono_left (h id)

theorem itemCount_eq (t : Tree) : t.itemCount = ((List.range t.size).flatMap t.items).length := by
  have hnodes : t.nodes.toList = (List.range t.size).map t.node := by
    refine List.ext_getElem (by simp [size]) fun i h _ => ?_
    have hi : i < t.nodes.size := by simpa using h
    simp [node, Array.getD_eq_getD_getElem?, hi]
  rw [itemCount, hnodes, List.flatMap_map]
  rfl

theorem WellFormed.perm_all (h : t.WellFormed) : t.all.Perm (List.range t.size) := by
  refine (List.perm_ext_iff_of_nodup h.nodup_all List.nodup_range).mpr fun id => ?_
  rw [h.mem_all_iff, List.mem_range]

/-- The walk over all families meets all items. -/
theorem WellFormed.length_items_all (h : t.WellFormed) :
    (t.all.flatMap t.items).length = t.itemCount := by
  rw [itemCount_eq]
  exact (h.perm_all.flatMap_right t.items).length_eq

/-- No search finds more items than there are. -/
theorem WellFormed.count_search_le (h : t.WellFormed) (q : Query) (headless : Bool) :
    (t.search q headless).count ≤ t.itemCount := by
  rw [count_search_eq, ← h.length_items_all]
  exact length_flatMap_le t.all fun id _ => List.length_filter_le _ _

theorem WellFormed.count_search_eq_zero_iff (h : t.WellFormed) {headless : Bool} :
    (t.search q headless).count = 0 ↔
      ∀ id < t.size, ∀ item ∈ t.items id, q.fits (t.itemTexts id item) = false := by
  rw [count_search_eq, List.length_eq_zero_iff, List.flatMap_eq_nil_iff]
  simp only [h.mem_all_iff, fitting, List.filter_eq_nil_iff, Bool.not_eq_true]

end Catalog.Tree
