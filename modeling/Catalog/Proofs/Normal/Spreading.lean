import Catalog.Normal.Inheritance
import Catalog.Proofs.Tree.Preorder
import Mathlib.Data.List.Forall2

/-!
# What spreading labels computes

Two sweeps with shared state spread the labels: one down, which hands every family the labels of the
families above it, and one up, which hands every family the labels found below it. The invariants
`Descent.Reached` and `Tree.Gathered` say how far each sweep has come.

* `Tree.inheritedLabels` are the labels that come down to a family, and `Descent.Reached` says that
  the way down hands out these and no others;
* `Tree.Gathered` says that the way up gathers what the way down left at and below a family;
* `Tree.LabelClosure` states the outcome without sweeps, and `labelClosure_spreadLabels` that
  spreading computes it on every tree that can be made.
-/

namespace Catalog

theorem Family.mem_labels_receive {own labels : SortedSet Label} {f : Family} {l : Label} :
    l ∈ (f.receive own labels).labels ↔
      l ∈ labels ∨ ∃ item ∈ (f.receive own labels).items, l ∈ item.labels := by
  simp only [Family.receive]
  generalize f.items.map (Item.inherit labels) = items
  induction items generalizing labels with
  | nil => simp
  | cons item rest ih => simp [ih, or_assoc]

namespace Tree

variable {t u v : Tree}

/-! ### Down -/

/-- The labels given to a family or to one above it. -/
def inheritedLabels (t : Tree) (id : Nat) : SortedSet Label :=
  match (t.node id).parent with
  | some parent =>
    if parent < id then t.ownLabels id ∪ inheritedLabels t parent else t.ownLabels id
  | none => t.ownLabels id
termination_by id
decreasing_by omega

theorem WellFormed.inheritedLabels_eq (h : t.WellFormed) {id parent : Nat} (hid : id < t.size)
    (hp : (t.node id).parent = some parent) :
    t.inheritedLabels id = t.ownLabels id ∪ t.inheritedLabels parent := by
  rw [inheritedLabels, hp]
  exact if_pos (h.mem_sons_of_parent hid hp).1

theorem WellFormed.mem_inheritedLabels (h : t.WellFormed) {id : Nat} (hid : id < t.size)
    {l : Label} : l ∈ t.inheritedLabels id ↔ ∃ m, t.Covers m id ∧ l ∈ t.ownLabels m := by
  induction id using Nat.strongRecOn with
  | ind id ih =>
    cases hp : (t.node id).parent with
    | none =>
      rw [inheritedLabels, hp]
      simp [h.covers_iff_of_root hid hp]
    | some parent =>
      have hlt := (h.mem_sons_of_parent hid hp).1
      rw [h.inheritedLabels_eq hid hp, SortedSet.mem_union, ih parent hlt (Nat.lt_trans hlt hid)]
      simp [h.covers_iff_parent hid hp, or_and_right, exists_or]

/-- A family with all that comes down to it. -/
def received (t : Tree) (id : Nat) : Family :=
  (t.family id).receive (t.ownLabels id) (t.inheritedLabels id)

end Tree

namespace Descent

variable {t : Tree} {before : List Nat} {d : Descent}

/-- How far the way down has come: the places met have what comes down to them, and the others are
untouched. -/
structure Reached (t : Tree) (met : List Nat) (d : Descent) : Prop where
  links : t.SameLinks d.tree
  size_table : d.table.size = t.size
  family_met : ∀ id ∈ met, d.tree.family id = t.received id
  table_met : ∀ id ∈ met, d.table.getD id ∅ = t.inheritedLabels id
  family_rest : ∀ id, id ∉ met → d.tree.family id = t.family id

theorem reached_start (t : Tree) : Reached t [] (start t) where
  links := Tree.SameLinks.refl t
  size_table := Array.size_replicate
  family_met := by simp
  table_met := by simp
  family_rest _ _ := rfl

/-- Below the places met, the table gives what comes down to the next place. -/
theorem Reached.labelsAt_eq (hd : Reached t before d) (h : t.WellFormed) {id : Nat}
    (hid : id < t.size) (hnew : id ∉ before)
    (hparent : ∀ parent, (t.node id).parent = some parent → parent ∈ before) :
    d.labelsAt id = t.inheritedLabels id := by
  have hown : d.tree.ownLabels id = t.ownLabels id := by
    rw [Tree.ownLabels, hd.family_rest id hnew, Tree.ownLabels]
  unfold labelsAt
  rw [hd.links.parent, hown]
  cases hp : (t.node id).parent with
  | none => rw [Tree.inheritedLabels, hp]
  | some parent =>
    show t.ownLabels id ∪ d.table.getD parent ∅ = t.inheritedLabels id
    rw [hd.table_met parent (hparent parent hp), h.inheritedLabels_eq hid hp]

theorem reached_step (hd : Reached t before d) (h : t.WellFormed) {id : Nat} {after : List Nat}
    (hall : t.all = before ++ id :: after) : Reached t (before ++ [id]) (d.step id) := by
  have hid : id < t.size := h.lt_size_of_split hall
  have hnew : id ∉ before := h.not_mem_before hall
  have hlabels := hd.labelsAt_eq h hid hnew fun parent hp => h.parent_mem_before hall hp
  have hown : d.tree.ownLabels id = t.ownLabels id := by
    rw [Tree.ownLabels, hd.family_rest id hnew, Tree.ownLabels]
  have hsize : id < d.tree.size := by rw [hd.links.size]; exact hid
  refine ⟨hd.links.trans (Tree.sameLinks_modify _ _ _), ?_,
    fun other hmem => ?_, fun other hmem => ?_, fun other hmem => ?_⟩
  · rw [Descent.step, Array.size_setIfInBounds, hd.size_table]
  · rw [Descent.step, hlabels, hown]
    by_cases e : other = id
    · subst e
      rw [Tree.family_modify_self hsize, hd.family_rest _ hnew, Tree.received]
    · rw [Tree.family_modify_of_ne e]
      exact hd.family_met other (by simpa [e] using hmem)
  · rw [Descent.step, hlabels]
    by_cases e : id = other
    · subst e
      have htable : id < d.table.size := by rw [hd.size_table]; exact hid
      simp [Array.getD_eq_getD_getElem?, htable]
    · have hother := hd.table_met other (by simpa [Ne.symm e] using hmem)
      simpa [Array.getD_eq_getD_getElem?, Array.getElem?_setIfInBounds_ne e] using hother
  · have hboth : other ∉ before ∧ other ≠ id := by simpa using hmem
    rw [Descent.step, Tree.family_modify_of_ne hboth.2]
    exact hd.family_rest other hboth.1

end Descent

namespace Tree

variable {t u v : Tree}

theorem WellFormed.reached_all (h : t.WellFormed) :
    Descent.Reached t t.all (t.all.foldl Descent.step (Descent.start t)) :=
  sweep_forward Descent.step (Descent.Reached t)
    (fun _ _ _ _ hall hd => Descent.reached_step hd h hall) (Descent.reached_start t)

theorem WellFormed.sameLinks_spreadDown (h : t.WellFormed) : SameLinks t t.spreadDown :=
  h.reached_all.links

theorem WellFormed.family_spreadDown (h : t.WellFormed) {id : Nat} (hid : id < t.size) :
    t.spreadDown.family id = t.received id :=
  h.reached_all.family_met id (h.mem_all_iff.mpr hid)

/-! ### Up -/

/-- How far the way up has come: a family has gathered what is borne at and below those of its sons
that have been met. -/
structure Gathered (u : Tree) (met : List Nat) (v : Tree) : Prop where
  links : SameLinks u v
  frame : ∀ id, v.family id = { u.family id with labels := (v.family id).labels }
  mem_labels : ∀ id < u.size, ∀ l, l ∈ (v.family id).labels ↔
    l ∈ (u.family id).labels ∨ ∃ son ∈ u.sons id, son ∈ met ∧ ∃ m,
      u.Covers son m ∧ l ∈ (u.family m).labels

theorem gathered_start (u : Tree) : Gathered u [] u where
  links := SameLinks.refl u
  frame _ := rfl
  mem_labels := by simp

/-- Where all sons have been met, a family has gathered what is borne at and below it. -/
theorem Gathered.mem_labels_of_sons {met : List Nat} (hv : Gathered u met v) (h : u.WellFormed)
    {id : Nat} (hid : id < u.size) (hsons : ∀ son ∈ u.sons id, son ∈ met) {l : Label} :
    l ∈ (v.family id).labels ↔ ∃ m, u.Covers id m ∧ l ∈ (u.family m).labels := by
  rw [hv.mem_labels id hid]
  constructor
  · intro hor
    rcases hor with hl | ⟨son, hson, _, m, hm, hl⟩
    · exact ⟨id, WellFormed.covers_self hid, hl⟩
    · exact ⟨m, (h.covers_iff_sons hid).mpr (Or.inr ⟨son, hson, hm⟩), hl⟩
  · intro hex
    obtain ⟨m, hm, hl⟩ := hex
    rcases (h.covers_iff_sons hid).mp hm with rfl | ⟨son, hson, hm⟩
    · exact Or.inl hl
    · exact Or.inr ⟨son, hson, hsons son hson, m, hm, hl⟩

theorem gathered_step {before after : List Nat} {id : Nat} (hv : Gathered u after v)
    (h : u.WellFormed) (hall : u.all = before ++ id :: after) :
    Gathered u (id :: after) (v.gatherAt id) := by
  have hid : id < u.size := h.lt_size_of_split hall
  have hgathered {l : Label} :=
    hv.mem_labels_of_sons (l := l) h hid fun _ hson => h.son_mem_after hall hson
  unfold gatherAt
  rw [hv.links.parent]
  cases hp : (u.node id).parent with
  | none =>
    -- the root is nobody's son, so nothing changes
    refine ⟨hv.links, hv.frame, fun other hother l => ?_⟩
    rw [hv.mem_labels other hother]
    refine or_congr_right (exists_congr fun son => and_congr_right fun hson => ?_)
    have hne : son ≠ id := by
      rintro rfl
      rw [(h.of_mem_sons hson).2.2] at hp
      cases hp
    simp [hne]
  | some parent =>
    obtain ⟨hlt, hmem⟩ := h.mem_sons_of_parent hid hp
    have hsize : parent < v.size := by
      rw [hv.links.size]
      exact Nat.lt_trans hlt hid
    refine ⟨hv.links.trans (sameLinks_modify _ _ _), fun other => ?_, fun other hother l => ?_⟩
    · by_cases e : other = parent
      · subst e
        simp only [family_modify_self hsize]
        rw [hv.frame other]
      · simp only [family_modify_of_ne e]
        exact hv.frame other
    · by_cases e : other = parent
      · subst e
        simp only [family_modify_self hsize, SortedSet.mem_union, hv.mem_labels other hother,
          hgathered]
        constructor
        · intro hor
          rcases hor with (hl | ⟨son, hson, hmet, hl⟩) | hl
          · exact Or.inl hl
          · exact Or.inr ⟨son, hson, List.mem_cons_of_mem _ hmet, hl⟩
          · exact Or.inr ⟨id, hmem, List.mem_cons_self, hl⟩
        · intro hor
          rcases hor with hl | ⟨son, hson, hmet, hl⟩
          · exact Or.inl (Or.inl hl)
          · rcases List.mem_cons.mp hmet with rfl | hmet
            · exact Or.inr hl
            · exact Or.inl (Or.inr ⟨son, hson, hmet, hl⟩)
      · simp only [family_modify_of_ne e, hv.mem_labels other hother]
        refine or_congr_right (exists_congr fun son => and_congr_right fun hson => ?_)
        have hne : son ≠ id := by
          rintro rfl
          have hparent := (h.of_mem_sons hson).2.2
          rw [hp, Option.some.injEq] at hparent
          exact e hparent.symm
        simp [hne]

/-! ### Both ways -/

theorem WellFormed.gathered_spreadLabels (h : t.WellFormed) :
    Gathered t.spreadDown t.all t.spreadLabels := by
  have hu : t.spreadDown.WellFormed := h.sameLinks_spreadDown.wellFormed h
  rw [spreadLabels, ← h.sameLinks_spreadDown.all]
  exact sweep_backward gatherAt (Gathered t.spreadDown)
    (fun _ _ _ _ hall hv => gathered_step hv hu hall) (gathered_start _)

theorem WellFormed.sameLinks_spreadLabels (h : t.WellFormed) : SameLinks t t.spreadLabels :=
  h.sameLinks_spreadDown.trans h.gathered_spreadLabels.links

theorem WellFormed.family_spreadLabels (h : t.WellFormed) {id : Nat} (hid : id < t.size) :
    t.spreadLabels.family id =
      { t.received id with labels := (t.spreadLabels.family id).labels } := by
  rw [h.gathered_spreadLabels.frame id, h.family_spreadDown hid]

theorem WellFormed.items_spreadLabels (h : t.WellFormed) {id : Nat} (hid : id < t.size) :
    t.spreadLabels.items id = (t.items id).map (Item.inherit (t.inheritedLabels id)) := by
  rw [items, h.family_spreadLabels hid]
  rfl

theorem Covers.comparable {a b m : Nat} (ha : t.Covers a m) (hb : t.Covers b m) :
    t.Covers a b ∨ t.Covers b a := by
  rcases List.prefix_or_prefix_of_prefix ha.2.2 hb.2.2 with h | h
  · exact Or.inl ⟨ha.1, hb.1, h⟩
  · exact Or.inr ⟨hb.1, ha.1, h⟩

/-- A family ends with the labels given at, above and below it and those of the items at and below
it. -/
theorem WellFormed.mem_labels_spreadLabels (h : t.WellFormed) {id : Nat} (hid : id < t.size)
    {l : Label} : l ∈ (t.spreadLabels.family id).labels ↔
      (∃ m, (t.Covers m id ∨ t.Covers id m) ∧ l ∈ t.ownLabels m) ∨
        ∃ m, t.Covers id m ∧ ∃ item ∈ t.spreadLabels.items m, l ∈ item.labels := by
  have hlinks := h.sameLinks_spreadDown
  have hu : t.spreadDown.WellFormed := hlinks.wellFormed h
  have hid' : id < t.spreadDown.size := by
    rw [hlinks.size]
    exact hid
  have hmet : ∀ son ∈ t.spreadDown.sons id, son ∈ t.all := fun son hson => by
    have hlt := (hu.of_mem_sons hson).2.1
    rw [hlinks.size] at hlt
    exact h.mem_all_iff.mpr hlt
  -- what the way down left at one family
  have hborne : ∀ m < t.size, l ∈ (t.spreadDown.family m).labels ↔
      (∃ k, t.Covers k m ∧ l ∈ t.ownLabels k) ∨
      ∃ item ∈ t.spreadLabels.items m, l ∈ item.labels := by
    intro m hm
    rw [h.family_spreadDown hm, received, Family.mem_labels_receive, h.mem_inheritedLabels hm,
      h.items_spreadLabels hm]
    rfl
  rw [h.gathered_spreadLabels.mem_labels_of_sons hu hid' hmet]
  simp only [hlinks.covers_iff]
  constructor
  · intro hex
    obtain ⟨m, hm, hl⟩ := hex
    rcases (hborne m hm.2.1).mp hl with ⟨k, hk, hl⟩ | hl
    · exact Or.inl ⟨k, hk.comparable hm, hl⟩
    · exact Or.inr ⟨m, hm, hl⟩
  · rintro (⟨m, hm | hm, hl⟩ | ⟨m, hm, hl⟩)
    · exact ⟨id, covers_self hid, (hborne id hid).mpr (Or.inl ⟨m, hm, hl⟩)⟩
    · exact ⟨m, hm, (hborne m hm.2.1).mpr (Or.inl ⟨m, covers_self hm.2.1, hl⟩)⟩
    · exact ⟨m, hm, (hborne m hm.2.1).mpr (Or.inr hl)⟩

end Tree

/-! ### The closure of the labels -/

/-- The second item is the first with exactly the labels `given` more and with the names of all its
labels as keywords. -/
structure Item.Inherits (given : Label → Prop) (before after : Item) : Prop where
  frame : after = { before with labels := after.labels, index := after.index }
  mem_labels : ∀ l, l ∈ after.labels ↔ l ∈ before.labels ∨ given l
  mem_index : ∀ k, k ∈ after.index ↔ k ∈ before.index ∨ ∃ l ∈ after.labels, l.name = k

theorem Item.inherits_inherit {given : Label → Prop} {labels : SortedSet Label}
    (h : ∀ l, l ∈ labels ↔ given l) (item : Item) : Inherits given item (item.inherit labels) where
  frame := rfl
  mem_labels l := by rw [mem_labels_inherit, h l]
  mem_index _ := mem_index_inherit

namespace Tree

/-- The second tree is the first with labels spread: items get the labels given to the families at
and above theirs, families those given at, above and below them and those of the items at and below
them, and nothing else changes but the notes of own labels. -/
structure LabelClosure (t u : Tree) : Prop where
  links : SameLinks t u
  frame : ∀ id, u.family id =
    { t.family id with
      labels := (u.family id).labels, ownLabels := (u.family id).ownLabels, items := u.items id }
  ownLabels : ∀ id < t.size, (u.family id).ownLabels = some (t.ownLabels id)
  items : ∀ id < t.size,
    List.Forall₂ (Item.Inherits fun l => ∃ m, t.Covers m id ∧ l ∈ t.ownLabels m)
      (t.items id) (u.items id)
  mem_labels : ∀ id < t.size, ∀ l, l ∈ (u.family id).labels ↔
    (∃ m, (t.Covers m id ∨ t.Covers id m) ∧ l ∈ t.ownLabels m) ∨
      ∃ m, t.Covers id m ∧ ∃ item ∈ u.items m, l ∈ item.labels

/-- Spreading computes the closure of the labels. -/
theorem labelClosure_spreadLabels {t : Tree} (h : t.Reachable) : LabelClosure t t.spreadLabels := by
  have hwf := h.wellFormed
  refine ⟨hwf.sameLinks_spreadLabels, fun id => ?_, fun id hid => ?_,
    fun id hid => ?_, fun id hid l => ?_⟩
  · by_cases hid : id < t.size
    · rw [items, hwf.family_spreadLabels hid]
      rfl
    · have hsize : t.spreadLabels.size = t.size := hwf.sameLinks_spreadLabels.size
      rw [items, family_of_size_le (t := t) (by omega),
        family_of_size_le (t := t.spreadLabels) (by omega)]
  · rw [hwf.family_spreadLabels hid]
    rfl
  · rw [hwf.items_spreadLabels hid, List.forall₂_map_right_iff, List.forall₂_same]
    exact fun item _ => Item.inherits_inherit (fun l => hwf.mem_inheritedLabels hid) item
  · exact hwf.mem_labels_spreadLabels hid

/-- A label on an inner family and an item on a leaf below it. -/
theorem labelClosure_of_inner_label :
    let made := ((∅ : Tree).create ["Sales", "North"]).1
    let labelled := made.modify 1 fun f =>
      { f with labels := .ofList [⟨"#q1", "Q1", "red", "white", ""⟩] }
    let t := labelled.modify 2 fun f => { f with items := [{ title := "Revenue" }] }
    t.Reachable ∧ LabelClosure t t.spreadLabels := by
  intro made labelled t
  have h : t.Reachable := .change 2 _ (.change 1 _ (.create _ .empty (by decide)))
  exact ⟨h, labelClosure_spreadLabels h⟩

end Tree

end Catalog
