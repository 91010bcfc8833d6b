import Catalog.Proofs.Query.Words
import Catalog.Proofs.Search.Grouping
import Catalog.Proofs.Search.Hits
import Mathlib.Data.List.Nodup

/-!
# What a search returns

On any tree, a search shows the items that its query fits under the paths of their families.
Families whose paths are one text share an entry, in the order of the walk, and there is no entry
without items. On a normal tree what is shown points to one item: families with items have texts of
their own, and the items of a family have numbers of their own.

* `SearchResult.shownAt` is what a result shows under a path, and `Tree.shownWhere` what it should
  show there;
* `shownAt_addHit` is one family, and `shownAt_foldl` a list of families;
* `Tree.Returns` says that a query returns the items that a condition picks, and `returns_of_fits`
  that it does if it fits these items and no others;
* `Tree.Finds` says that the result of a query shows an item of a family, and
  `WellFormed.finds_of_fits` that it does if the query fits the item;
* `IsNormal.finds_iff` says that on a normal tree this is so exactly if the query fits the item.
-/

namespace Catalog

/-- The items that a result shows under a path; none if the path has no entry. -/
def SearchResult.shownAt (r : SearchResult) (key : String) : List MatchedItem :=
  (r.found.get? key).getD []

/-- Every entry of a result has items. -/
def SearchResult.IsFilled (r : SearchResult) : Prop := ∀ key, r.found.get? key ≠ some []

namespace Tree

variable {t : Tree} {q : Query} {r : SearchResult} {hit : Nat × List Item} {id : Nat} {item : Item}

/-- Whether a query fits an item of a family. -/
def isMatch (t : Tree) (q : Query) (id : Nat) (item : Item) : Bool := q.fits (t.itemTexts id item)

/-- The items that a condition picks, of the families whose path is a text, as they are shown. -/
def shownWhere (t : Tree) (p : Nat → Item → Bool) (key : String) : List MatchedItem :=
  t.all.flatMap fun id =>
    if t.pathText id = key then ((t.items id).filter (p id)).map Item.toMatched else []

/-! ### Collecting the items -/

theorem get?_addHit (t : Tree) (r : SearchResult) (hit : Nat × List Item) (key : String) :
    (t.addHit r hit).found.get? key =
      if t.pathText hit.1 = key then some (r.shownAt key ++ hit.2.map Item.toMatched)
        else r.found.get? key := by
  have hinsert : ∀ items : List MatchedItem, (r.found.insert (t.pathText hit.1) items).get? key =
      if t.pathText hit.1 = key then some items else r.found.get? key := by
    intro items
    rw [SortedMap.get?_insert]
    by_cases hkey : t.pathText hit.1 = key
    · rw [if_pos hkey, if_pos (by rw [hkey]; exact Std.ReflCmp.compare_self)]
    · rw [if_neg hkey, if_neg fun h => hkey (Std.LawfulEqOrd.eq_of_compare h).symm]
  rw [addHit]
  split
  · next before hbefore =>
    rw [hinsert]
    by_cases hkey : t.pathText hit.1 = key
    · rw [if_pos hkey, if_pos hkey, SearchResult.shownAt, ← hkey, hbefore]
      rfl
    · rw [if_neg hkey, if_neg hkey]
  · next hnone =>
    rw [hinsert]
    by_cases hkey : t.pathText hit.1 = key
    · rw [if_pos hkey, if_pos hkey, SearchResult.shownAt, ← hkey, hnone]
      rfl
    · rw [if_neg hkey, if_neg hkey]

/-- A family adds its items under its path. -/
theorem shownAt_addHit (t : Tree) (r : SearchResult) (hit : Nat × List Item) (key : String) :
    (t.addHit r hit).shownAt key =
      r.shownAt key ++ if t.pathText hit.1 = key then hit.2.map Item.toMatched else [] := by
  rw [SearchResult.shownAt, get?_addHit]
  split
  · rfl
  · rw [List.append_nil]
    rfl

theorem isFilled_addHit (hr : r.IsFilled) (hhit : hit.2 ≠ []) : (t.addHit r hit).IsFilled := by
  intro key
  rw [get?_addHit]
  split
  · simp [hhit]
  · exact hr key

theorem shownAt_foldl (t : Tree) (hits : List (Nat × List Item)) (r : SearchResult) (key : String) :
    (hits.foldl t.addHit r).shownAt key = r.shownAt key ++
      hits.flatMap fun hit => if t.pathText hit.1 = key then hit.2.map Item.toMatched else [] := by
  induction hits generalizing r with
  | nil =>
    show r.shownAt key = r.shownAt key ++ []
    rw [List.append_nil]
  | cons hit hits ih =>
    rw [List.foldl_cons, ih, shownAt_addHit, List.flatMap_cons, List.append_assoc]

theorem isFilled_foldl {hits : List (Nat × List Item)} (hr : r.IsFilled)
    (hhits : ∀ hit ∈ hits, hit.2 ≠ []) : (hits.foldl t.addHit r).IsFilled := by
  induction hits generalizing r with
  | nil => exact hr
  | cons hit hits ih =>
    apply ih
    · exact isFilled_addHit hr (hhits hit List.mem_cons_self)
    · intro other hother
      exact hhits other (List.mem_cons_of_mem hit hother)

/-! ### Searching -/

theorem shownAt_search (t : Tree) (q : Query) (key : String) :
    (t.search q false).shownAt key = t.shownWhere (t.isMatch q) key := by
  show ((t.hits q).foldl t.addHit {}).shownAt key = _
  rw [shownAt_foldl, flatMap_hits]
  · rfl
  · intro id
    show (if t.pathText id = key then [] else []) = []
    split <;> rfl

theorem isFilled_search (t : Tree) (q : Query) : (t.search q false).IsFilled := by
  show ((t.hits q).foldl t.addHit {}).IsFilled
  apply isFilled_foldl
  · intro key hentry
    rw [SortedMap.get?_empty] at hentry
    cases hentry
  · intro hit hhit
    have hfilled := (List.mem_filter.mp hhit).2
    simpa using hfilled

/-- A family is listed if its path has an entry. -/
theorem mem_families_search_iff (t : Tree) (q : Query) (key : String) :
    key ∈ (t.search q false).families ↔ (t.search q false).shownAt key ≠ [] := by
  have hkeys : key ∈ (t.search q false).families ↔ key ∈ (t.search q false).found.keys :=
    List.mem_mergeSort
  rw [hkeys, SortedMap.keys, List.mem_map]
  constructor
  · rintro ⟨⟨_, items⟩, hentry, rfl⟩
    have hsome := SortedMap.mem_entries_iff.mp hentry
    rw [SearchResult.shownAt, hsome]
    intro hnil
    rw [Option.getD_some] at hnil
    exact t.isFilled_search q _ (by rw [hsome, hnil])
  · intro hne
    cases hentry : (t.search q false).found.get? key with
    | none =>
      rw [SearchResult.shownAt, hentry] at hne
      exact absurd rfl hne
    | some items => exact ⟨(key, items), SortedMap.mem_entries_iff.mpr hentry, rfl⟩

/-- A query returns the items that a condition picks: it fits these items of every family, and they
are shown under the paths of their families, which are listed, and counted. -/
structure Returns (t : Tree) (q : Query) (p : Nat → Item → Bool) : Prop where
  fitting : ∀ id, t.fitting q id = (t.items id).filter (p id)
  shown : ∀ key, (t.search q false).shownAt key = t.shownWhere p key
  listed : ∀ key, key ∈ (t.search q false).families ↔ t.shownWhere p key ≠ []
  count : ∀ headless, (t.search q headless).count =
    (t.all.flatMap fun id => (t.items id).filter (p id)).length

theorem returns_of_fits {p : Nat → Item → Bool}
    (h : ∀ id, ∀ item ∈ t.items id, t.isMatch q id item = p id item) : t.Returns q p := by
  have hfitting : ∀ id, t.fitting q id = (t.items id).filter (p id) := by
    intro id
    exact List.filter_congr (h id)
  have hshown : t.shownWhere (t.isMatch q) = t.shownWhere p := by
    funext key
    refine congrArg (List.flatMap · t.all) ?_
    funext id
    rw [← hfitting]
    rfl
  refine ⟨hfitting, ?_, ?_, ?_⟩
  · intro key
    rw [shownAt_search, hshown]
  · intro key
    rw [mem_families_search_iff, shownAt_search, hshown]
  · intro headless
    rw [count_search_eq, funext hfitting]

theorem returns_isMatch (t : Tree) (q : Query) : t.Returns q (t.isMatch q) := by
  apply returns_of_fits
  intro id item _
  rfl

end Tree

/-! ### Finding one item -/

namespace Tree

variable {t : Tree} {q : Query} {id : Nat} {item other : Item}

/-- The result of a query shows an item of a family. -/
def Finds (t : Tree) (q : Query) (id : Nat) (item : Item) : Prop :=
  ∃ matched, (t.search q false).found.get? (t.pathText id) = some matched ∧ item.toMatched ∈ matched

theorem mem_fitting_iff :
    item ∈ t.fitting q id ↔ item ∈ t.items id ∧ q.fits (t.itemTexts id item) = true := by
  rw [fitting, List.mem_filter]

/-- What a query fits is shown. -/
theorem WellFormed.finds_of_fits (h : t.WellFormed) (hitem : item ∈ t.items id)
    (hfits : q.fits (t.itemTexts id item) = true) : t.Finds q id item := by
  have hshown : item.toMatched ∈ (t.search q false).shownAt (t.pathText id) := by
    rw [shownAt_search, shownWhere, List.mem_flatMap]
    refine ⟨id, h.mem_all_iff.mpr (lt_size_of_mem_items hitem), ?_⟩
    rw [if_pos rfl]
    exact List.mem_map_of_mem (List.mem_filter.mpr ⟨hitem, hfits⟩)
  rw [SearchResult.shownAt] at hshown
  cases hentry : (t.search q false).found.get? (t.pathText id) with
  | none =>
    rw [hentry] at hshown
    cases hshown
  | some matched =>
    rw [hentry] at hshown
    exact ⟨matched, hentry, hshown⟩

/-- The empty query fits every item. -/
theorem isHit_empty (hid : id < t.size) (hitem : item ∈ t.items id) : t.IsHit {} id :=
  ⟨hid, List.ne_nil_of_mem (mem_fitting_iff.mpr ⟨hitem, rfl⟩)⟩

/-- The items of a family in order differ in their numbers. -/
theorem IsOrdered.eq_of_number (h : t.IsOrdered) (hid : id < t.size) (hitem : item ∈ t.items id)
    (hother : other ∈ t.items id) (hnumber : item.number = other.number) : item = other := by
  have hnodup : ((t.items id).map Item.number).Nodup := by
    have hnumbered : (t.items id).map Item.number = (List.range' 1 (t.items id).length).map some :=
      (h.items id hid).numbered
    rw [hnumbered]
    exact List.Nodup.map (fun _ _ => Option.some.inj) List.nodup_range'
  exact List.inj_on_of_nodup_map hnodup hitem hother hnumber

/-- On a normal tree, a result shows an item exactly if the query fits it. -/
theorem IsNormal.finds_iff (h : t.IsNormal) (hplain : t.IsPlain) (hid : id < t.size)
    (hitem : item ∈ t.items id) : t.Finds q id item ↔ q.fits (t.itemTexts id item) = true := by
  have hgroups := h.groups_search hplain q
  constructor
  · rintro ⟨matched, hfound, hmem⟩
    obtain ⟨holder, hhit, hpath, rfl⟩ := (hgroups.found _ _).mp hfound
    -- both families have items, so their texts tell them apart
    obtain ⟨first, hfirst⟩ := List.exists_mem_of_ne_nil _ hhit.2
    have hsome : t.IsHit {} holder := isHit_empty hhit.1 (mem_fitting_iff.mp hfirst).1
    have heq : holder = id := h.eq_of_pathText hplain hsome (isHit_empty hid hitem) hpath
    rw [heq] at hmem
    obtain ⟨other, hother, hshown⟩ := List.mem_map.mp hmem
    obtain ⟨hother, hfits⟩ := mem_fitting_iff.mp hother
    have hnumber : other.number = item.number := congrArg MatchedItem.number hshown
    rw [← h.ordered.eq_of_number hid hother hitem hnumber]
    exact hfits
  · exact h.wellFormed.finds_of_fits hitem

end Tree

end Catalog
