import Catalog.Proofs.Normal.Agreement
import Catalog.Proofs.Normal.Outcome
import Catalog.Proofs.Tree.Correspondence
import Mathlib.Data.List.Perm.Basic

/-!
# The steps of making trees normal, taken by trees that correspond

Relocation finds families by their paths, settling and defaults look at one family and its name, and
labels come from the families above and below. None of this depends on places or on the order of
items.

* `Corresponds.relocateItems`, `Corresponds.settle` and `Corresponds.fillDefaults` say that the
  first three steps keep the correspondence, and `Corresponds.prepare` that they do so together;
* `Corresponds.inheritedLabels_eq` and `Corresponds.labels_spreadLabels_eq` say that the same labels
  spread, and `Corresponds.spreadLabels` that the fourth step keeps the correspondence too.
-/

namespace Catalog

/-! ### Relocation -/

theorem Tree.WellFormed.takesItems_iff {t : Tree} (h : t.WellFormed) {path : List String} :
    t.TakesItems path ↔ ∀ name, t.has (path ++ [name]) = false := by
  constructor
  · intro htakes name
    cases hhas : t.has (path ++ [name]) with
    | true => exact absurd htakes (not_takesItems_of_has hhas)
    | false => rfl
  · intro hnone
    by_contra htakes
    obtain ⟨id, hid, rfl, hsons⟩ := h.not_takesItems_iff.mp htakes
    obtain ⟨name, hname⟩ := (h.sons_ne_nil_iff hid).mp hsons
    rw [hnone name] at hname
    cases hname

namespace Tree.Corresponds

variable {t u : Tree}

theorem takesItems_iff (h : Corresponds t u) {path : List String} :
    u.TakesItems path ↔ t.TakesItems path := by
  simp only [h.right.takesItems_iff, h.left.takesItems_iff, h.has_eq]

theorem isDestination_iff (h : Corresponds t u) {path dest : List String} :
    u.IsDestination path dest ↔ t.IsDestination path dest := by
  simp only [IsDestination, h.takesItems_iff]

theorem itemsAt_eq_nil_iff (h : Corresponds t u) {path : List String} :
    u.itemsAt path = [] ↔ t.itemsAt path = [] := by
  have hperm : (t.itemsAt path).Perm (u.itemsAt path) := (h.alike path).items
  rw [← List.length_eq_zero_iff, ← hperm.length_eq, List.length_eq_zero_iff]

/-- The items of one family come from the same sources, and the sources are in the same order in
both trees. -/
theorem perm_itemsAt_relocateItems (h : Corresponds t u) (path : List String) :
    (t.relocateItems.value.itemsAt path).Perm (u.relocateItems.value.itemsAt path) := by
  have hnodup : ∀ sources : List (List String), sources.Pairwise (fun p q => q.length < p.length) →
      sources.Nodup := by
    intro sources hdesc
    refine hdesc.imp fun {p q} hlt heq => ?_
    rw [heq] at hlt
    exact Nat.lt_irrefl _ hlt
  obtain ⟨sources, hmem, hdesc, hitems⟩ := h.left.exists_sources path
  obtain ⟨others, hmem', hdesc', hitems'⟩ := h.right.exists_sources path
  have hsame : ∀ p, p ∈ sources ↔ p ∈ others := by
    intro p
    rw [hmem, hmem', h.has_eq, h.isDestination_iff]
  have hperm := (List.perm_ext_iff_of_nodup (hnodup _ hdesc) (hnodup _ hdesc')).mpr hsame
  rw [hitems, hitems']
  exact hperm.flatMap fun p _ => (h.alike p).items

theorem relocateItems (h : Corresponds t u) :
    Corresponds t.relocateItems.value u.relocateItems.value where
  left := h.left.relocateItems
  right := h.right.relocateItems
  has_eq path := by
    rw [Bool.eq_iff_iff, h.right.has_relocateItems_iff, h.left.has_relocateItems_iff]
    simp only [h.has_eq, h.isDestination_iff, ne_eq, h.itemsAt_eq_nil_iff]
  alike path := by
    rw [h.left.familyAt_relocateItems, h.right.familyAt_relocateItems, (h.alike path).frame]
    exact ⟨rfl, h.perm_itemsAt_relocateItems path⟩

end Tree.Corresponds

/-! ### Settling and defaults -/

namespace Family.Alike

variable {f g : Family}

theorem settle (h : Alike f g) : Alike f.settle.value g.settle.value where
  frame := by
    rw [h.frame]
    rfl
  items := by
    show (Logged.mapList Item.settle f.items).value.Perm (Logged.mapList Item.settle g.items).value
    rw [Logged.value_mapList, Logged.value_mapList]
    exact h.items.map _

theorem fillDefaults (h : Alike f g) (name : String) :
    Alike (f.fillDefaults name) (g.fillDefaults name) where
  frame := by
    rw [h.frame]
    rfl
  items := h.items.map Item.fillRank

end Family.Alike

namespace Tree

variable {t u : Tree} {i j k l : Nat}

theorem Paired.name?_eq (h : Paired t u i j) : (u.node j).name? = (t.node i).name? := by
  rw [Node.name?, Node.name?, h.path]

namespace Corresponds

theorem settle (h : Corresponds t u) : Corresponds t.settle.value u.settle.value := by
  refine h.of_families (sameLinks_settle t) (sameLinks_settle u) fun i j hij => ?_
  rw [family_settle hij.left_lt, family_settle hij.right_lt]
  exact (h.family_alike hij).settle

theorem fillDefaults (h : Corresponds t u) : Corresponds t.fillDefaults u.fillDefaults := by
  refine h.of_families (sameLinks_fillDefaults t) (sameLinks_fillDefaults u) fun i j hij => ?_
  rw [family_fillDefaults hij.left_lt, family_fillDefaults hij.right_lt, hij.name?_eq]
  exact (h.family_alike hij).fillDefaults _

theorem prepare (h : Corresponds t u) : Corresponds t.prepare u.prepare :=
  h.relocateItems.settle.fillDefaults

end Corresponds

/-! ### Labels -/

theorem Paired.covers (hij : Paired t u i j) (hkl : Paired t u k l) (h : t.Covers i k) :
    u.Covers j l := by
  refine ⟨hij.right_lt, hkl.right_lt, ?_⟩
  rw [hij.path, hkl.path]
  exact h.2.2

namespace Corresponds

theorem ownLabels_eq (h : Corresponds t u) (hij : Paired t u i j) :
    u.ownLabels j = t.ownLabels i := by
  rw [ownLabels, ownLabels, (h.family_alike hij).frame]

theorem mem_inheritedLabels (h : Corresponds t u) (hij : Paired t u i j) {label : Label}
    (hl : label ∈ t.inheritedLabels i) : label ∈ u.inheritedLabels j := by
  obtain ⟨m, hm, hl⟩ := (h.left.mem_inheritedLabels hij.left_lt).mp hl
  obtain ⟨n, hmn⟩ := h.exists_paired hm.1
  refine (h.right.mem_inheritedLabels hij.right_lt).mpr ⟨n, hmn.covers hij hm, ?_⟩
  rw [h.ownLabels_eq hmn]
  exact hl

theorem inheritedLabels_eq (h : Corresponds t u) (hij : Paired t u i j) :
    u.inheritedLabels j = t.inheritedLabels i :=
  SortedSet.ext_mem fun _ => ⟨h.symm.mem_inheritedLabels hij.symm, h.mem_inheritedLabels hij⟩

theorem perm_items_spreadLabels (h : Corresponds t u) (hij : Paired t u i j) :
    (t.spreadLabels.items i).Perm (u.spreadLabels.items j) := by
  rw [h.left.items_spreadLabels hij.left_lt, h.right.items_spreadLabels hij.right_lt,
    h.inheritedLabels_eq hij]
  exact (h.family_alike hij).items.map _

theorem mem_labels_spreadLabels (h : Corresponds t u) (hij : Paired t u i j) {label : Label}
    (hl : label ∈ (t.spreadLabels.family i).labels) : label ∈ (u.spreadLabels.family j).labels := by
  rw [h.right.mem_labels_spreadLabels hij.right_lt]
  rcases (h.left.mem_labels_spreadLabels hij.left_lt).mp hl with
    ⟨m, hm, hl⟩ | ⟨m, hm, item, hitem, hl⟩
  · -- from a family at, above or below this one
    have hlt : m < t.size := hm.elim (fun habove => habove.1) fun hbelow => hbelow.2.1
    obtain ⟨n, hmn⟩ := h.exists_paired hlt
    refine Or.inl ⟨n, hm.imp (hmn.covers hij) (hij.covers hmn), ?_⟩
    rw [h.ownLabels_eq hmn]
    exact hl
  · -- from an item at or below it
    obtain ⟨n, hmn⟩ := h.exists_paired hm.2.1
    exact Or.inr ⟨n, hij.covers hmn hm, item, (h.perm_items_spreadLabels hmn).mem_iff.mp hitem, hl⟩

theorem labels_spreadLabels_eq (h : Corresponds t u) (hij : Paired t u i j) :
    (u.spreadLabels.family j).labels = (t.spreadLabels.family i).labels :=
  SortedSet.ext_mem fun _ =>
    ⟨h.symm.mem_labels_spreadLabels hij.symm, h.mem_labels_spreadLabels hij⟩

theorem spreadLabels (h : Corresponds t u) : Corresponds t.spreadLabels u.spreadLabels := by
  refine h.of_families h.left.sameLinks_spreadLabels h.right.sameLinks_spreadLabels
    fun i j hij => ?_
  refine ⟨?_, h.perm_items_spreadLabels hij⟩
  rw [h.right.family_spreadLabels hij.right_lt, h.left.family_spreadLabels hij.left_lt,
    h.labels_spreadLabels_eq hij, received, received, h.ownLabels_eq hij, h.inheritedLabels_eq hij,
    (h.family_alike hij).frame]
  rfl

end Corresponds

end Tree

end Catalog
