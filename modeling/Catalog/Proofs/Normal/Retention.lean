import Catalog.Proofs.Normal.SameItems
import Catalog.Proofs.Normal.Spreading

/-!
# Labels that go missing

Take two trees with the same items where the second gives fewer labels to its families. Spreading
makes up for a missing label at a place where the label comes down from another family or where all
items bear it.

* `Tree.Retains` says that a place keeps a label in one of these ways;
* `Tree.SameSpread` says that the labels end up the same, and `SameItems.sameSpread_iff` that this
  is so exactly if every label is retained wherever it would have come down.
-/

namespace Catalog.Tree

variable {t u : Tree}

/-- A label comes down to a family, or all its items bear the label by themselves. A family without
items must have sub-families in the latter case. -/
def Retains (t : Tree) (id : Nat) (l : Label) : Prop :=
  (∃ m, t.Covers m id ∧ l ∈ t.ownLabels m) ∨
    ((t.sons id ≠ [] ∨ t.items id ≠ []) ∧ ∀ item ∈ t.items id, l ∈ item.labels)

theorem Covers.trans {a b c : Nat} (h : t.Covers a b) (h' : t.Covers b c) : t.Covers a c :=
  ⟨h.1, h'.2.1, h.2.2.trans h'.2.2⟩

/-- A family bears the labels of the families below it. -/
theorem WellFormed.labels_spreadLabels_of_covers (h : t.WellFormed) {id other : Nat}
    (hc : t.Covers id other) {l : Label} (hl : l ∈ (t.spreadLabels.family other).labels) :
    l ∈ (t.spreadLabels.family id).labels := by
  rw [h.mem_labels_spreadLabels hc.2.1] at hl
  rw [h.mem_labels_spreadLabels hc.1]
  rcases hl with ⟨m, habove | hbelow, hl⟩ | ⟨m, hbelow, hl⟩
  · exact Or.inl ⟨m, habove.comparable hc, hl⟩
  · exact Or.inl ⟨m, Or.inr (hc.trans hbelow), hl⟩
  · exact Or.inr ⟨m, hc.trans hbelow, hl⟩

theorem WellFormed.mem_item_spreadLabels (h : t.WellFormed) {id : Nat} (hid : id < t.size)
    {l : Label} : (∃ item ∈ t.spreadLabels.items id, l ∈ item.labels) ↔
      ∃ item ∈ t.items id, l ∈ item.labels ∪ t.inheritedLabels id := by
  rw [h.items_spreadLabels hid]
  constructor
  · intro hex
    obtain ⟨_, hmem, hl⟩ := hex
    obtain ⟨item, hitem, rfl⟩ := List.mem_map.mp hmem
    exact ⟨item, hitem, hl⟩
  · intro hex
    obtain ⟨item, hitem, hl⟩ := hex
    exact ⟨_, List.mem_map_of_mem hitem, hl⟩

/-- Labels that are retained at and below a family are borne by it. -/
theorem WellFormed.labels_spreadLabels_of_retains (h : t.WellFormed) {id : Nat} (hid : id < t.size)
    {l : Label} (hl : ∀ n, t.Covers id n → t.Retains n l) :
    l ∈ (t.spreadLabels.family id).labels := by
  induction id using h.sons_induction with
  | step id ih =>
    rcases hl id (covers_self hid) with ⟨m, hm, hown⟩ | ⟨hson | hitem, hborne⟩
    · exact (h.mem_labels_spreadLabels hid).mpr (Or.inl ⟨m, Or.inl hm, hown⟩)
    · obtain ⟨son, hson⟩ := List.exists_mem_of_ne_nil _ hson
      have hlt := (h.of_mem_sons hson).2.1
      have hc : t.Covers id son := (h.covers_iff_sons hid).mpr (Or.inr ⟨son, hson, covers_self hlt⟩)
      exact h.labels_spreadLabels_of_covers hc (ih son hson hlt fun n hn => hl n (hc.trans hn))
    · obtain ⟨item, hitem⟩ := List.exists_mem_of_ne_nil _ hitem
      refine (h.mem_labels_spreadLabels hid).mpr (Or.inr ⟨id, covers_self hid, ?_⟩)
      rw [h.mem_item_spreadLabels hid]
      exact ⟨item, hitem, SortedSet.mem_union.mpr (Or.inl (hborne item hitem))⟩

/-- An empty family without sub-families bears only what comes down to it. -/
theorem WellFormed.labels_spreadLabels_of_bare (h : t.WellFormed) {id : Nat} (hid : id < t.size)
    (hsons : t.sons id = []) (hitems : t.items id = []) {l : Label}
    (hl : l ∈ (t.spreadLabels.family id).labels) : l ∈ t.inheritedLabels id := by
  have hself : ∀ m, t.Covers id m → m = id := by
    intro m hm
    refine ((h.covers_iff_sons hid).mp hm).resolve_right ?_
    intro hex
    obtain ⟨son, hson, _⟩ := hex
    rw [hsons] at hson
    cases hson
  rw [h.mem_inheritedLabels hid]
  rcases (h.mem_labels_spreadLabels hid).mp hl with ⟨m, habove | hbelow, hown⟩ | ⟨m, hbelow, hborne⟩
  · exact ⟨m, habove, hown⟩
  · rw [hself m hbelow] at hown
    exact ⟨id, covers_self hid, hown⟩
  · rw [hself m hbelow, h.mem_item_spreadLabels hid, hitems] at hborne
    obtain ⟨_, hmem, _⟩ := hborne
    cases hmem

/-- After spreading, families bear the same labels and items get the same labels in both trees. -/
structure SameSpread (t u : Tree) : Prop where
  labels : ∀ id < t.size, (u.spreadLabels.family id).labels = (t.spreadLabels.family id).labels
  borne : ∀ id < t.size, ∀ item ∈ t.items id,
    item.labels ∪ u.inheritedLabels id = item.labels ∪ t.inheritedLabels id

namespace SameItems

section FewerLabels

variable (h : SameItems t u) (ht : t.WellFormed) (hless : ∀ id, ∀ l ∈ u.ownLabels id,
  l ∈ t.ownLabels id)

include h

theorem lt_size {id : Nat} (hid : id < t.size) : id < u.size := by
  rw [h.size]
  exact hid

include ht

theorem retains_of_sameSpread (hsame : SameSpread t u) {id n : Nat} (hc : t.Covers id n) {l : Label}
    (hl : l ∈ t.ownLabels id) : u.Retains n l := by
  have hu : u.WellFormed := h.toSameLinks.wellFormed ht
  have hn : n < u.size := h.lt_size hc.2.1
  have hinherited : l ∈ t.inheritedLabels n := (ht.mem_inheritedLabels hc.2.1).mpr ⟨id, hc, hl⟩
  by_cases hcase : l ∈ u.inheritedLabels n
  · exact Or.inl ((hu.mem_inheritedLabels hn).mp hcase)
  · refine Or.inr ⟨?_, fun item hitem => ?_⟩
    · by_contra hbare
      obtain ⟨hsons, hitems⟩ := not_or.mp hbare
      refine hcase (hu.labels_spreadLabels_of_bare hn (not_not.mp hsons) (not_not.mp hitems) ?_)
      rw [hsame.labels n hc.2.1]
      exact (ht.mem_labels_spreadLabels hc.2.1).mpr (Or.inl ⟨id, Or.inl hc, hl⟩)
    · rw [h.items] at hitem
      have hborne : l ∈ item.labels ∪ u.inheritedLabels n := by
        rw [hsame.borne n hc.2.1 item hitem]
        exact SortedSet.mem_union.mpr (Or.inr hinherited)
      exact (SortedSet.mem_union.mp hborne).resolve_right hcase

include hless

theorem borne_of_retains (hretains : ∀ id n, t.Covers id n → ∀ l ∈ t.ownLabels id, u.Retains n l)
    {id : Nat} (hid : id < t.size) {item : Item} (hitem : item ∈ t.items id) :
    item.labels ∪ u.inheritedLabels id = item.labels ∪ t.inheritedLabels id := by
  have hu : u.WellFormed := h.toSameLinks.wellFormed ht
  refine SortedSet.ext_mem fun l => ?_
  rw [SortedSet.mem_union, SortedSet.mem_union, hu.mem_inheritedLabels (h.lt_size hid),
    ht.mem_inheritedLabels hid]
  constructor
  · intro hor
    rcases hor with hl | ⟨m, hm, hown⟩
    · exact Or.inl hl
    · exact Or.inr ⟨m, h.toSameLinks.covers_iff.mp hm, hless m l hown⟩
  · intro hor
    rcases hor with hl | ⟨m, hm, hown⟩
    · exact Or.inl hl
    · rcases hretains m id hm l hown with hgiven | ⟨_, hself⟩
      · exact Or.inr hgiven
      · rw [h.items] at hself
        exact Or.inl (hself item hitem)

theorem labels_of_retains (hretains : ∀ id n, t.Covers id n → ∀ l ∈ t.ownLabels id, u.Retains n l)
    {id : Nat} (hid : id < t.size) :
    (u.spreadLabels.family id).labels = (t.spreadLabels.family id).labels := by
  have hlinks := h.toSameLinks
  have hu : u.WellFormed := hlinks.wellFormed ht
  have hitems : ∀ m < t.size, ∀ l, ((∃ item ∈ u.spreadLabels.items m, l ∈ item.labels) ↔
      ∃ item ∈ t.spreadLabels.items m, l ∈ item.labels) := by
    intro m hm l
    rw [hu.mem_item_spreadLabels (h.lt_size hm), ht.mem_item_spreadLabels hm, h.items]
    refine exists_congr fun item => and_congr_right fun hitem => ?_
    rw [h.borne_of_retains ht hless hretains hm hitem]
  -- what is given at a family is retained below it, and so it is borne at, below and above it
  have hgiven : ∀ m n, t.Covers m n →
      ∀ l ∈ t.ownLabels m, l ∈ (u.spreadLabels.family n).labels := by
    intro m n hc l hl
    refine hu.labels_spreadLabels_of_retains (h.lt_size hc.2.1) fun k hk => ?_
    exact hretains m k (hc.trans (hlinks.covers_iff.mp hk)) l hl
  refine SortedSet.ext_mem fun l => ?_
  constructor
  · intro hl
    rw [hu.mem_labels_spreadLabels (h.lt_size hid)] at hl
    simp only [hlinks.covers_iff] at hl
    rw [ht.mem_labels_spreadLabels hid]
    rcases hl with ⟨m, hm, hown⟩ | ⟨m, hm, hitem⟩
    · exact Or.inl ⟨m, hm, hless m l hown⟩
    · exact Or.inr ⟨m, hm, (hitems m hm.2.1 l).mp hitem⟩
  · intro hl
    rcases (ht.mem_labels_spreadLabels hid).mp hl with ⟨m, habove | hbelow, hown⟩ | ⟨m, hm, hitem⟩
    · exact hgiven m id habove l hown
    · have hself := hgiven m m (WellFormed.covers_self hbelow.2.1) l hown
      exact hu.labels_spreadLabels_of_covers (hlinks.covers_iff.mpr hbelow) hself
    · refine (hu.mem_labels_spreadLabels (h.lt_size hid)).mpr
        (Or.inr ⟨m, hlinks.covers_iff.mpr hm, ?_⟩)
      exact (hitems m hm.2.1 l).mpr hitem

/-- Where fewer labels are given, the outcome is the same exactly if all labels are retained that
would have come down. -/
theorem sameSpread_iff :
    SameSpread t u ↔ ∀ id n, t.Covers id n → ∀ l ∈ t.ownLabels id, u.Retains n l := by
  constructor
  · intro hsame id n hc l hl
    exact h.retains_of_sameSpread ht hsame hc hl
  · intro hretains
    exact ⟨fun id hid => h.labels_of_retains ht hless hretains hid,
      fun id hid item hitem => h.borne_of_retains ht hless hretains hid hitem⟩

end FewerLabels

end SameItems

end Catalog.Tree
