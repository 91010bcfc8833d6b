import Catalog.Normal.Basic
import Catalog.Proofs.Normal.Relocation
import Catalog.Proofs.Normal.Settling

/-!
# The normal form

Each of the five steps leaves a condition behind that the later steps keep, and each does nothing
where its condition holds. So a normal tree is normal for good.

* `Tree.IsSpread` is the condition of spreading labels, in terms of what is given to families;
* `Tree.IsNormal` collects the five conditions: `isNormal_normalize` establishes them and
  `normalize_of_isNormal` says that nothing is left to do then;
* `normalize_normalize` says that making a tree normal twice is making it normal once.
-/

namespace Catalog

theorem Item.inherit_of_borne {item : Item} {labels : SortedSet Label}
    (hlabels : ∀ l ∈ labels, l ∈ item.labels) (hindex : ∀ l ∈ item.labels, l.name ∈ item.index) :
    item.inherit labels = item := by
  have hborne : item.labels ∪ labels = item.labels := by
    refine SortedSet.ext_mem fun l => ?_
    rw [SortedSet.mem_union]
    exact ⟨fun h => h.elim id (hlabels l), Or.inl⟩
  have hkeywords : item.index.insertAll (item.labels.toList.map Label.name) = item.index := by
    refine SortedSet.ext_mem fun k => ?_
    rw [SortedSet.mem_insertAll]
    constructor
    · intro hor
      rcases hor with hk | hk
      · exact hk
      · obtain ⟨l, hl, rfl⟩ := List.mem_map.mp hk
        exact hindex l hl
    · exact Or.inl
  rw [inherit, hborne, hkeywords]

namespace Tree

variable {t u : Tree}

/-! ### Trees with spread labels -/

/-- Own labels are noted, every item bears the labels given to the families at and above its own and
has the names of its labels as keywords, and families bear exactly what is given or borne around
them. -/
structure IsSpread (t : Tree) : Prop where
  noted : ∀ id < t.size, (t.family id).ownLabels.isSome = true
  inherited : ∀ id m, t.Covers m id → ∀ l ∈ t.ownLabels m, ∀ item ∈ t.items id, l ∈ item.labels
  keywords : ∀ id < t.size, ∀ item ∈ t.items id, ∀ l ∈ item.labels, l.name ∈ item.index
  labels : ∀ id < t.size, ∀ l, l ∈ (t.family id).labels ↔
    (∃ m, (t.Covers m id ∨ t.Covers id m) ∧ l ∈ t.ownLabels m) ∨
      ∃ m, t.Covers id m ∧ ∃ item ∈ t.items m, l ∈ item.labels

theorem WellFormed.ownLabels_spreadLabels (h : t.WellFormed) {id : Nat} (hid : id < t.size) :
    t.spreadLabels.ownLabels id = t.ownLabels id := by
  rw [ownLabels, h.family_spreadLabels hid]
  rfl

theorem WellFormed.isSpread_spreadLabels (h : t.WellFormed) : t.spreadLabels.IsSpread := by
  have hlinks := h.sameLinks_spreadLabels
  have hitem : ∀ id < t.size, ∀ item ∈ t.spreadLabels.items id,
      ∃ before : Item, item = before.inherit (t.inheritedLabels id) := by
    intro id hid item hmem
    rw [h.items_spreadLabels hid] at hmem
    obtain ⟨before, _, heq⟩ := List.mem_map.mp hmem
    exact ⟨before, heq.symm⟩
  refine ⟨fun id hid => ?_, fun id m hm l hl item hmem => ?_,
    fun id hid item hmem l hl => ?_, fun id hid l => ?_⟩
  · rw [hlinks.size] at hid
    rw [h.family_spreadLabels hid]
    rfl
  · rw [hlinks.covers_iff] at hm
    rw [h.ownLabels_spreadLabels hm.1] at hl
    obtain ⟨before, rfl⟩ := hitem id hm.2.1 item hmem
    exact Item.mem_labels_inherit.mpr (Or.inr ((h.mem_inheritedLabels hm.2.1).mpr ⟨m, hm, hl⟩))
  · rw [hlinks.size] at hid
    obtain ⟨before, rfl⟩ := hitem id hid item hmem
    exact Item.mem_index_inherit.mpr (Or.inr ⟨l, hl, rfl⟩)
  · rw [hlinks.size] at hid
    rw [h.mem_labels_spreadLabels hid]
    simp only [hlinks.covers_iff]
    refine or_congr_left (exists_congr fun m => and_congr_right fun hm => ?_)
    have hsize : m < t.size := hm.elim (fun hc => hc.1) (fun hc => hc.2.1)
    rw [h.ownLabels_spreadLabels hsize]

/-- Where labels have spread, spreading them changes nothing. -/
theorem WellFormed.spreadLabels_of_isSpread (h : t.WellFormed) (ht : t.IsSpread) :
    t.spreadLabels = t := by
  have hitems : ∀ id < t.size, t.spreadLabels.items id = t.items id := by
    intro id hid
    rw [h.items_spreadLabels hid,
      List.map_congr_left (g := fun item => item) fun item hmem => ?_, List.map_id']
    refine Item.inherit_of_borne (fun l hl => ?_) (ht.keywords id hid item hmem)
    obtain ⟨m, hm, hown⟩ := (h.mem_inheritedLabels hid).mp hl
    exact ht.inherited id m hm l hown item hmem
  refine h.sameLinks_spreadLabels.eq_of_family fun id hid => ?_
  have hown : some (t.ownLabels id) = (t.family id).ownLabels := by
    obtain ⟨own, heq⟩ := Option.isSome_iff_exists.mp (ht.noted id hid)
    rw [ownLabels, heq, Option.getD_some]
  have hborne : (t.spreadLabels.family id).labels = (t.family id).labels := by
    refine SortedSet.ext_mem fun l => ?_
    rw [h.mem_labels_spreadLabels hid, ht.labels id hid]
    refine or_congr_right (exists_congr fun m => and_congr_right fun hm => ?_)
    rw [hitems m hm.2.1]
  have hreceived : (t.family id).items.map (Item.inherit (t.inheritedLabels id)) =
      (t.family id).items := by
    have heq := hitems id hid
    rw [h.items_spreadLabels hid] at heq
    exact heq
  rw [h.family_spreadLabels hid, hborne, received, Family.receive, hreceived, hown]

/-- Ordering keeps labels where they are. -/
theorem IsSpread.orderAll (ht : t.IsSpread) (h : t.WellFormed) : t.orderAll.value.IsSpread := by
  have hlinks := h.sameLinks_orderAll
  have hown : ∀ id < t.size, t.orderAll.value.ownLabels id = t.ownLabels id := by
    intro id hid
    rw [ownLabels, h.family_orderAll hid]
    rfl
  have hitems : ∀ id < t.size, t.orderAll.value.items id = (t.family id).orderItems := by
    intro id hid
    rw [items, h.family_orderAll hid]
  refine ⟨fun id hid => ?_, fun id m hm l hl item hmem => ?_,
    fun id hid item hmem l hl => ?_, fun id hid l => ?_⟩
  · rw [hlinks.size] at hid
    rw [h.family_orderAll hid]
    exact ht.noted id hid
  · rw [hlinks.covers_iff] at hm
    rw [hown m hm.1] at hl
    rw [hitems id hm.2.1] at hmem
    obtain ⟨before, hbefore, heq⟩ := Family.unnumbered_mem_of_mem_orderItems hmem
    have hlabels : item.unnumbered.labels = before.unnumbered.labels := by rw [heq]
    exact hlabels ▸ ht.inherited id m hm l hl before hbefore
  · rw [hlinks.size] at hid
    rw [hitems id hid] at hmem
    obtain ⟨before, hbefore, heq⟩ := Family.unnumbered_mem_of_mem_orderItems hmem
    have hlabels : item.unnumbered.labels = before.unnumbered.labels := by rw [heq]
    have hindex : item.unnumbered.index = before.unnumbered.index := by rw [heq]
    exact hindex ▸ ht.keywords id hid before hbefore l (hlabels ▸ hl)
  · rw [hlinks.size] at hid
    have hlabels : (t.orderAll.value.family id).labels = (t.family id).labels := by
      rw [h.family_orderAll hid]
    rw [hlabels, ht.labels id hid]
    simp only [hlinks.covers_iff]
    refine or_congr (exists_congr fun m => and_congr_right fun hm => ?_)
      (exists_congr fun m => and_congr_right fun hm => ?_)
    · rw [hown m (hm.elim (fun hc => hc.1) (fun hc => hc.2.1))]
    · rw [hitems m hm.2.1]
      exact Family.exists_label_orderItems.symm

/-! ### Normal trees -/

/-- The conditions that the five steps leave behind. -/
structure IsNormal (t : Tree) : Prop where
  wellFormed : t.WellFormed
  exclusive : t.IsExclusive
  settled : t.IsSettled
  filled : t.IsFilled
  spread : t.IsSpread
  ordered : t.IsOrdered

theorem normalize_of_isNormal (h : t.IsNormal) : t.normalize.value = t := by
  have hsteps : t.normalize.value =
      t.relocateItems.value.settle.value.fillDefaults.spreadLabels.orderAll.value := rfl
  rw [hsteps, relocateItems_of_isExclusive h.exclusive, settle_of_isSettled h.settled,
    fillDefaults_of_isFilled h.filled, h.wellFormed.spreadLabels_of_isSpread h.spread,
    h.wellFormed.orderAll_of_isOrdered h.ordered]

theorem WellFormed.isNormal_normalize (h : t.WellFormed) : t.normalize.value.IsNormal := by
  let relocated := t.relocateItems.value
  let settled := relocated.settle.value
  let filled := settled.fillDefaults
  let spread := filled.spreadLabels
  have hrelocated : relocated.WellFormed := h.relocateItems
  have hsettled : settled.WellFormed := (sameLinks_settle relocated).wellFormed hrelocated
  have hfilled : filled.WellFormed := (sameLinks_fillDefaults settled).wellFormed hsettled
  have hspread : spread.WellFormed := hfilled.sameLinks_spreadLabels.wellFormed hfilled
  refine ⟨hspread.sameLinks_orderAll.wellFormed hspread, ?_, ?_, ?_, ?_, ?_⟩
  · have hexclusive : settled.IsExclusive :=
      h.isExclusive_relocateItems.of_sameLinks (sameLinks_settle relocated) fun id hid => by
        rw [items, family_settle hid]
        exact Family.length_items_settle _
    have hexclusive : filled.IsExclusive :=
      hexclusive.of_sameLinks (sameLinks_fillDefaults settled) fun id hid => by
        rw [items, family_fillDefaults hid]
        exact List.length_map _
    have hexclusive : spread.IsExclusive :=
      hexclusive.of_sameLinks hfilled.sameLinks_spreadLabels fun id hid => by
        rw [hfilled.items_spreadLabels hid, List.length_map]
    have hexclusive : spread.orderAll.value.IsExclusive :=
      hexclusive.of_sameLinks hspread.sameLinks_orderAll fun id hid => by
        rw [items, hspread.family_orderAll hid]
        exact Family.length_orderItems _
    exact hexclusive
  · exact ((isSettled_settle relocated).fillDefaults.spreadLabels hfilled).orderAll hspread
  · exact ((isFilled_fillDefaults settled).spreadLabels hfilled).orderAll hspread
  · exact hfilled.isSpread_spreadLabels.orderAll hspread
  · exact hspread.isOrdered_orderAll

/-- Making a tree normal twice is making it normal once. -/
theorem normalize_normalize {t : Tree} (h : t.Reachable) :
    t.normalize.value.normalize.value = t.normalize.value :=
  normalize_of_isNormal h.wellFormed.isNormal_normalize

/-- A family that has items and a sub-family, items of unlike ranks, and a label that is not settled
yet. -/
theorem normalize_normalize_of_mixed_family :
    let made := ((∅ : Tree).create ["Sales", "North"]).1
    let labelled := made.modify 1 fun f => { f with
      rank := some (.int 2), pending := { labels := some (.text "Q1") } }
    let t := labelled.modify 1 fun f => { f with
      items := [{ title := "Revenue", rank := some (.int 7) }, { title := "Costs" }] }
    t.Reachable ∧ t.normalize.value.normalize.value = t.normalize.value := by
  intro made labelled t
  have h : t.Reachable := .change 1 _ (.change 1 _ (.create _ .empty (by decide)))
  exact ⟨h, normalize_normalize h⟩

end Tree

end Catalog
