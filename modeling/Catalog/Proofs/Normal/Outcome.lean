import Catalog.Proofs.Normal.Pooling

/-!
# Where relocation puts items

After the walk every family holds the items that were bound for it, those from further down first.
The families are the old ones and the missing sinks for which items were bound, and but for items
nothing is changed.

* `WellFormed.exists_sources` says whose items a family holds;
* `WellFormed.has_relocateItems_iff` says which families there are, and
  `WellFormed.familyAt_relocateItems` what is known about them;
* `Tree.Relocates` collects what relocation does, and `WellFormed.relocates_relocateItems` says that
  it does so.
-/

namespace Catalog.Tree

variable {t u : Tree}

namespace WellFormed

/-! ### Old and new families -/

/-- Old families keep their places. -/
theorem find?_relocateItems (h : t.WellFormed) {path : List String} {id : Nat}
    (hfind : t.find? path = some id) : t.relocateItems.value.find? path = some id := by
  have hu := h.relocatedUpTo_all
  obtain ⟨hid, hpath⟩ := h.find?_eq_some_iff.mp hfind
  rw [hu.wellFormed.find?_eq_some_iff, hu.path id hid]
  exact ⟨Nat.lt_of_lt_of_le hid hu.size_le, hpath⟩

/-- A new family was found after the old ones. -/
theorem size_le_of_new (h : t.WellFormed) {path : List String} {id : Nat}
    (hmissing : t.find? path = none) (hfind : t.relocateItems.value.find? path = some id) :
    t.size ≤ id := by
  have hu := h.relocatedUpTo_all
  rcases Nat.lt_or_ge id t.size with hold | hnew
  · obtain ⟨_, hpath⟩ := hu.wellFormed.find?_eq_some_iff.mp hfind
    rw [hu.path id hold] at hpath
    rw [← hpath, h.find?_path hold] at hmissing
    cases hmissing
  · exact hnew

/-- Relocation changes nothing but items, and of a new family nothing else is known. -/
theorem familyAt_relocateItems (h : t.WellFormed) (path : List String) :
    t.relocateItems.value.familyAt path =
      { t.familyAt path with items := t.relocateItems.value.itemsAt path } := by
  have hu := h.relocatedUpTo_all
  cases hfind : t.find? path with
  | some id =>
    have hfind' := h.find?_relocateItems hfind
    rw [familyAt_of_find? hfind', itemsAt_of_find? hfind', familyAt_of_find? hfind]
    exact hu.frame id
  | none =>
    rw [familyAt_of_not_has (has_eq_false_iff.mpr hfind)]
    cases hfind' : t.relocateItems.value.find? path with
    | some id =>
      rw [familyAt_of_find? hfind', itemsAt_of_find? hfind', hu.frame id,
        family_of_size_le (h.size_le_of_new hfind hfind')]
    | none => rw [itemsAt, familyAt_of_not_has (has_eq_false_iff.mpr hfind')]

/-- A new family is the sink of an old one, and it holds what came together there. -/
theorem itemsAt_of_new (h : t.WellFormed) {path : List String} (hmissing : t.find? path = none)
    (hhas : t.relocateItems.value.has path = true) :
    ∃ id < t.size, path = (t.node id).path ++ [sinkName] ∧ t.sons id ≠ [] ∧
      t.son? id sinkName = none ∧
      t.pooledItems id ≠ [] ∧ t.relocateItems.value.itemsAt path = t.pooledItems id := by
  have hu := h.relocatedUpTo_all
  obtain ⟨k, hfind⟩ := Option.isSome_iff_exists.mp hhas
  obtain ⟨hk, hpath⟩ := hu.wellFormed.find?_eq_some_iff.mp hfind
  obtain ⟨id, hmet, hsons, hnone, hson, hpooled, hitems⟩ :=
    h.pooledUpTo_all.made k (h.size_le_of_new hmissing hfind) hk
  have hid := h.mem_all_iff.mp hmet
  refine ⟨id, hid, ?_, hsons, hnone, hpooled, ?_⟩
  · rw [← hpath, (hu.wellFormed.down id sinkName k hson).2.2, hu.path id hid]
  · rw [itemsAt_of_find? hfind, hitems]

/-- A missing sink holds what came together at its parent, also if that is nothing. -/
theorem itemsAt_missing_sink (h : t.WellFormed) {id : Nat} (hid : id < t.size)
    (hsons : t.sons id ≠ []) (hmissing : t.find? ((t.node id).path ++ [sinkName]) = none) :
    t.relocateItems.value.itemsAt ((t.node id).path ++ [sinkName]) = t.pooledItems id := by
  have hu := h.relocatedUpTo_all
  have hid' : id < t.relocateItems.value.size := Nat.lt_of_lt_of_le hid hu.size_le
  cases hhas : t.relocateItems.value.has ((t.node id).path ++ [sinkName]) with
  | true =>
    obtain ⟨other, hother, hpath, _, _, _, hitems⟩ := h.itemsAt_of_new hmissing hhas
    rw [hitems, h.path_injective hother hid (List.append_cancel_right hpath).symm]
  | false =>
    rw [itemsAt, familyAt_of_not_has hhas]
    symm
    by_contra hpooled
    obtain ⟨sink, hson⟩ := h.pooledUpTo_all.made_of_pooled id (h.mem_all_iff.mpr hid) hsons hpooled
    rw [hu.wellFormed.son?_eq_find? hid', hu.path id hid] at hson
    rw [has, hson] at hhas
    cases hhas

/-! ### Whose items a family holds -/

/-- Some places as paths: their items stay the same, and so does their order. -/
theorem flatMap_itemsAt_paths (h : t.WellFormed) {places : List Nat}
    (hplaces : ∀ m ∈ places, m < t.size) :
    (places.map fun m => (t.node m).path).flatMap t.itemsAt = places.flatMap t.items := by
  rw [List.flatMap_map, List.flatMap_def, List.flatMap_def]
  exact congrArg List.flatten (List.map_congr_left fun m hm => h.itemsAt_path (hplaces m hm))

/-- The sources of a place, if they are the feeders of another one. -/
theorem exists_sources_of_feeders (h : t.WellFormed) {id : Nat} (hid : id < t.size)
    {dest : List String}
    (hdest : ∀ m, m ∈ t.feeders id ↔ m < t.size ∧ t.IsDestination (t.node m).path dest) :
    ∃ sources : List (List String), (∀ p, p ∈ sources ↔ t.has p = true ∧ t.IsDestination p dest) ∧
      sources.Pairwise (fun p q => q.length < p.length) ∧
      t.pooledItems id = sources.flatMap t.itemsAt := by
  refine ⟨(t.feeders id).map fun m => (t.node m).path, fun p => ?_, ?_, ?_⟩
  · rw [List.mem_map, h.has_iff]
    constructor
    · intro hp
      obtain ⟨m, hm, rfl⟩ := hp
      obtain ⟨hlt, hdest'⟩ := (hdest m).mp hm
      exact ⟨⟨m, hlt, rfl⟩, hdest'⟩
    · intro hp
      obtain ⟨⟨m, hlt, rfl⟩, hdest'⟩ := hp
      exact ⟨m, (hdest m).mpr ⟨hlt, hdest'⟩, rfl⟩
  · rw [List.pairwise_map]
    exact h.pairwise_feeders hid
  · exact (h.flatMap_itemsAt_paths fun m hm => h.lt_size_of_mem_feeders hid hm).symm

/-- A family holds the items that were bound for it, those from further down first. -/
theorem exists_sources (h : t.WellFormed) (path : List String) :
    ∃ sources : List (List String), (∀ p, p ∈ sources ↔ t.has p = true ∧ t.IsDestination p path) ∧
      sources.Pairwise (fun p q => q.length < p.length) ∧
      t.relocateItems.value.itemsAt path = sources.flatMap t.itemsAt := by
  have hu := h.pooledUpTo_all
  -- a place for which nothing is bound holds nothing
  have hnobody : (∀ p, t.has p = true → ¬ t.IsDestination p path) →
      t.relocateItems.value.itemsAt path = [] →
      ∃ sources : List (List String), (∀ p, p ∈ sources ↔ t.has p = true ∧ t.IsDestination p path) ∧
        sources.Pairwise (fun p q => q.length < p.length) ∧
        t.relocateItems.value.itemsAt path = sources.flatMap t.itemsAt := by
    intro hnone hitems
    refine ⟨[], fun p => ?_, List.Pairwise.nil, hitems⟩
    simp only [List.not_mem_nil, false_iff, not_and]
    exact hnone p
  cases hfind : t.find? path with
  | some id =>
    obtain ⟨hid, rfl⟩ := h.find?_eq_some_iff.mp hfind
    have hitems := hu.items_met id (h.mem_all_iff.mpr hid)
    rw [← itemsAt_of_find? (h.find?_relocateItems hfind)] at hitems
    by_cases hsons : t.sons id = []
    · rw [if_pos hsons] at hitems
      rw [hitems]
      exact h.exists_sources_of_feeders hid fun m => h.mem_feeders_iff_of_sons_nil hid hsons
    · rw [if_neg hsons] at hitems
      refine hnobody (fun p _ hdest => ?_) hitems
      obtain ⟨n, _, htakes, _⟩ := hdest
      exact hsons (htakes id hfind)
  | none =>
    by_cases hsink : ∃ id < t.size, path = (t.node id).path ++ [sinkName] ∧ t.sons id ≠ []
    · obtain ⟨id, hid, rfl, hsons⟩ := hsink
      have hnone := (h.son?_eq_find? hid sinkName).trans hfind
      rw [h.itemsAt_missing_sink hid hsons hfind]
      exact h.exists_sources_of_feeders hid fun m => h.mem_feeders_iff_of_son_none hid hsons hnone
    · refine hnobody (fun p hp hdest => ?_) ?_
      · obtain ⟨id, hid, hpath, hsons, _⟩ := h.exists_of_isDestination_missing hdest hp hfind
        exact hsink ⟨id, hid, hpath, hsons⟩
      · cases hhas : t.relocateItems.value.has path with
        | true =>
          obtain ⟨id, hid, hpath, hsons, _⟩ := h.itemsAt_of_new hfind hhas
          exact absurd ⟨id, hid, hpath, hsons⟩ hsink
        | false => rw [itemsAt, familyAt_of_not_has hhas]

/-- The families are the old ones and those for which items were bound. -/
theorem has_relocateItems_iff (h : t.WellFormed) {path : List String} :
    t.relocateItems.value.has path = true ↔
      t.has path = true ∨ ∃ p, t.itemsAt p ≠ [] ∧ t.IsDestination p path := by
  constructor
  · intro hhas
    cases hfind : t.find? path with
    | some id =>
      refine Or.inl ?_
      rw [has, hfind]
      rfl
    | none =>
      obtain ⟨id, hid, rfl, hsons, hnone, hpooled, _⟩ := h.itemsAt_of_new hfind hhas
      obtain ⟨item, hitem⟩ := List.exists_mem_of_ne_nil _ hpooled
      obtain ⟨m, hm, hitem⟩ := List.mem_flatMap.mp hitem
      obtain ⟨hlt, hdest⟩ := (h.mem_feeders_iff_of_son_none hid hsons hnone).mp hm
      refine Or.inr ⟨(t.node m).path, ?_, hdest⟩
      rw [h.itemsAt_path hlt]
      exact List.ne_nil_of_mem hitem
  · rintro (hold | ⟨p, hp, hdest⟩)
    · obtain ⟨id, hfind⟩ := Option.isSome_iff_exists.mp hold
      rw [has, h.find?_relocateItems hfind]
      rfl
    · -- the items of the family have arrived
      obtain ⟨sources, hsources, _, hitems⟩ := h.exists_sources path
      obtain ⟨item, hitem⟩ := List.exists_mem_of_ne_nil _ hp
      have hmem : p ∈ sources := (hsources p).mpr ⟨has_of_itemsAt_ne_nil hp, hdest⟩
      refine has_of_itemsAt_ne_nil ?_
      rw [hitems]
      exact List.ne_nil_of_mem (List.mem_flatMap.mpr ⟨p, hmem, hitem⟩)

end WellFormed

/-! ### The outcome -/

/-- The second tree is the first with all items moved to where they are bound for. -/
structure Relocates (t u : Tree) : Prop where
  wellFormed : u.WellFormed
  /-- The items of every family are bound for one place. -/
  destination : ∀ path, ∃ dest, t.IsDestination path dest ∧
    ∀ other, t.IsDestination path other → other = dest
  /-- No family has both sub-families and items. -/
  exclusive : ∀ id, u.sons id = [] ∨ u.items id = []
  /-- A family holds the items that were bound for it and no others, those from further down
  first. -/
  items : ∀ path, ∃ sources : List (List String), (∀ p, p ∈ sources ↔
    t.has p = true ∧ t.IsDestination p path) ∧
    sources.Pairwise (fun p q => q.length < p.length) ∧ u.itemsAt path = sources.flatMap t.itemsAt
  /-- The families are the old ones and those for which items were bound. -/
  families : ∀ path, u.has path = true ↔
    t.has path = true ∨ ∃ p, t.itemsAt p ≠ [] ∧ t.IsDestination p path
  /-- Nothing else is changed, and nothing else is known about new families. -/
  frame : ∀ path, u.familyAt path = { t.familyAt path with items := u.itemsAt path }
  /-- Nothing is left to move. -/
  again : u.relocateItems.value = u

theorem WellFormed.relocates_relocateItems (h : t.WellFormed) :
    Relocates t t.relocateItems.value where
  wellFormed := h.relocateItems
  destination path := by
    obtain ⟨dest, hdest⟩ := h.exists_isDestination path
    exact ⟨dest, hdest, fun other hother => hother.unique hdest⟩
  exclusive id := by
    have hmixed := h.isExclusive_relocateItems id
    by_contra hboth
    rw [not_or] at hboth
    rw [isMixed_iff.mpr hboth] at hmixed
    cases hmixed
  items := h.exists_sources
  families _ := h.has_relocateItems_iff
  frame := h.familyAt_relocateItems
  again := relocateItems_of_isExclusive h.isExclusive_relocateItems

/-- A sink that has items and a sub-family hands on its own items before those that it got. -/
theorem relocates_relocateItems_of_mixed_sink :
    let made := ((∅ : Tree).create ["Sales", sinkName, "North"]).1
    let filled := made.modify 1 fun f =>
      { f with items := [{ title := "Revenue" }, { title := "Costs" }] }
    let t := filled.modify 2 fun f => { f with items := [{ title := "Staff" }] }
    t.WellFormed ∧ Relocates t t.relocateItems.value ∧
      (t.relocateItems.value.itemsAt ["Sales", sinkName, sinkName]).map Item.title =
        ["Staff", "Revenue", "Costs"] := by
  intro made filled t
  have h : t.Reachable := .change 2 _ (.change 1 _ (.create _ .empty (by decide)))
  exact ⟨h.wellFormed, h.wellFormed.relocates_relocateItems, by decide +kernel⟩

end Catalog.Tree
