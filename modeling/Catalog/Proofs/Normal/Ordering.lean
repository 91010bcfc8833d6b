import Catalog.Normal.Basic
import Catalog.Proofs.Rank.Order
import Catalog.Proofs.Tree.Preorder

/-!
# What ordering settles

Ordering visits every family once, with its items and with the ranks of its sub-families, so that a
rank is looked at on the visit to the parent only.

* `Family.IsOrdered` says that items are numbered and, where their ranks have an order, in order;
  ordering leaves such items alone;
* `Tree.siblingRank` is the rank with which a family is left, and `family_orderAt` says what one
  visit does;
* `Tree.OrderedUpTo` says how far the sweep has come, and `WellFormed.family_orderAll` what it
  leaves behind;
* `Tree.IsOrdered` holds of the outcome, and of what is ordered nothing changes.
-/

namespace Catalog

open Std

/-! ### Ranks of one kind -/

/-- The ranks are all of one kind, or all are missing. -/
def Rank.HaveOneKind (rs : List (Option Rank)) : Prop := ∀ r ∈ rs, ∀ q ∈ rs, r.map kind = q.map kind

theorem Rank.areUniform_iff {rs : List (Option Rank)} : areUniform rs = true ↔ HaveOneKind rs := by
  cases rs with
  | nil => simp [areUniform, HaveOneKind]
  | cons r rest =>
    simp only [areUniform, HaveOneKind, List.all_eq_true, beq_iff_eq]
    constructor
    · intro h a ha b hb
      have hhead : ∀ c ∈ r :: rest, c.map kind = r.map kind := by
        intro c hc
        rcases List.mem_cons.mp hc with rfl | hc
        · rfl
        · exact h c hc
      rw [hhead a ha, hhead b hb]
    · intro h q hq
      exact h q (List.mem_cons_of_mem _ hq) r List.mem_cons_self

theorem Rank.areUniform_of_perm {rs qs : List (Option Rank)} (h : rs.Perm qs) :
    areUniform rs = areUniform qs := by
  rw [Bool.eq_iff_iff, areUniform_iff, areUniform_iff]
  simp only [HaveOneKind, h.mem_iff]

/-! ### Items -/

/-- The item without its number. -/
def Item.unnumbered (item : Item) : Item := { item with number := none }

namespace Family

variable {f g : Family} {items : List Item}

theorem map_rank_numberItems (items : List Item) :
    (numberItems items).map Item.rank = items.map Item.rank := by
  refine List.ext_getElem (by simp [numberItems]) fun i h _ => ?_
  simp [numberItems]

theorem map_number_numberItems (items : List Item) :
    (numberItems items).map Item.number = (List.range' 1 items.length).map some := by
  refine List.ext_getElem (by simp [numberItems]) fun i h _ => ?_
  simp [numberItems]

theorem numberItems_of_numbered
    (h : items.map Item.number = (List.range' 1 items.length).map some) :
    numberItems items = items := by
  refine List.ext_getElem (length_numberItems items) fun i hi hi' => ?_
  have hnumber : (items[i]).number = some (1 + i) := by
    have hi : (items.map Item.number)[i]? = some (some (1 + i)) := by
      rw [h]
      simp [hi']
    simpa [hi'] using hi
  simp only [numberItems, List.getElem_map, List.getElem_zipIdx]
  rw [← hnumber]

/-- The items are numbered from one, and in order if their ranks have one. -/
structure IsOrdered (f : Family) : Prop where
  numbered : f.items.map Item.number = (List.range' 1 f.items.length).map some
  sorted : f.hasUniformItems = true →
    f.items.Pairwise fun a b => (Rank.compareOptional a.rank b.rank).isLE = true

theorem pairwise_sortItems (items : List Item) :
    (sortItems items).Pairwise fun a b => (Rank.compareOptional a.rank b.rank).isLE = true :=
  List.pairwise_mergeSort (fun _ _ _ => TransCmp.isLE_trans)
    (fun a b => isLE_total Rank.compareOptional a.rank b.rank) items

theorem length_orderItems (f : Family) : f.orderItems.length = f.items.length := by
  rw [orderItems, length_numberItems]
  split
  · exact (perm_sortItems f.items).length_eq
  · rfl

theorem perm_map_rank_orderItems (f : Family) :
    (f.orderItems.map Item.rank).Perm (f.items.map Item.rank) := by
  rw [orderItems, map_rank_numberItems]
  split
  · exact (perm_sortItems f.items).map Item.rank
  · exact List.Perm.refl _

theorem isOrdered_of_items (h : f.items = g.orderItems) : f.IsOrdered where
  numbered := by
    rw [h, orderItems, map_number_numberItems, length_numberItems]
  sorted hf := by
    -- ordering keeps the ranks, so the items were of one kind before
    have hg : g.hasUniformItems = true := by
      rw [hasUniformItems, h, Rank.areUniform_of_perm (perm_map_rank_orderItems g)] at hf
      exact hf
    have hsorted := pairwise_sortItems g.items
    rw [← List.pairwise_map (f := Item.rank) (R := fun r q =>
      (Rank.compareOptional r q).isLE = true)] at hsorted ⊢
    rw [h, orderItems, hg, if_pos rfl, map_rank_numberItems]
    exact hsorted

theorem orderItems_of_isOrdered (h : f.IsOrdered) : f.orderItems = f.items := by
  rw [orderItems]
  split
  · next hf =>
    rw [sortItems, List.mergeSort_of_pairwise (h.sorted hf)]
    exact numberItems_of_numbered h.numbered
  · exact numberItems_of_numbered h.numbered

theorem unnumbered_numberItems (items : List Item) :
    (numberItems items).map Item.unnumbered = items.map Item.unnumbered :=
  List.ext_getElem (by simp [numberItems]) fun i _ _ => by simp [numberItems, Item.unnumbered]

/-- Ordering changes nothing about items but their order and their numbers. -/
theorem perm_unnumbered_orderItems (f : Family) :
    (f.orderItems.map Item.unnumbered).Perm (f.items.map Item.unnumbered) := by
  rw [orderItems, unnumbered_numberItems]
  split
  · exact (perm_sortItems f.items).map Item.unnumbered
  · exact List.Perm.refl _

/-- An item in order is one of the items before, up to its number. -/
theorem unnumbered_mem_of_mem_orderItems {item : Item} (hmem : item ∈ f.orderItems) :
    ∃ before ∈ f.items, before.unnumbered = item.unnumbered :=
  List.mem_map.mp ((perm_unnumbered_orderItems f).mem_iff.mp (List.mem_map_of_mem hmem))

/-- Ordering items keeps the labels that they bear together. -/
theorem exists_label_orderItems {l : Label} :
    (∃ item ∈ f.orderItems, l ∈ item.labels) ↔ ∃ item ∈ f.items, l ∈ item.labels := by
  have hbare : ∀ items : List Item, (∃ item ∈ items, l ∈ item.labels) ↔
      ∃ item ∈ items.map Item.unnumbered, l ∈ item.labels := by
    intro items
    constructor
    · intro hex
      obtain ⟨item, hmem, hl⟩ := hex
      exact ⟨item.unnumbered, List.mem_map_of_mem hmem, hl⟩
    · intro hex
      obtain ⟨_, hmem, hl⟩ := hex
      obtain ⟨item, hitem, rfl⟩ := List.mem_map.mp hmem
      exact ⟨item, hitem, hl⟩
  rw [hbare, hbare f.items]
  simp only [(perm_unnumbered_orderItems f).mem_iff]

end Family

namespace Tree

variable {t u : Tree}

/-! ### One visit -/

theorem hasUniformSons_congr (hlinks : SameLinks t u) {id : Nat}
    (hrank : ∀ son ∈ t.sons id, (u.family son).rank = (t.family son).rank) :
    u.hasUniformSons id = t.hasUniformSons id := by
  rw [hasUniformSons, hasUniformSons, hlinks.sons id, List.map_congr_left hrank]

theorem rank_orderItemsAt (t : Tree) (id other : Nat) :
    ((t.orderItemsAt id).family other).rank = (t.family other).rank := by
  by_cases e : other = id
  · subst e
    by_cases h : other < t.size
    · rw [orderItemsAt, family_modify_self h]
    · have hsize : (t.orderItemsAt other).size = t.size := size_modify t other _
      rw [family_of_size_le (by omega), family_of_size_le (t := t) (by omega)]
  · rw [orderItemsAt, family_modify_of_ne e]

theorem sameLinks_rankByText (t : Tree) (ids : List Nat) : SameLinks t (ids.foldl rankByText t) :=
  sameLinks_foldl (fun u id => sameLinks_modify u id _) t ids

/-- Ranking families by text twice is ranking them by text. -/
theorem family_rankByText {ids : List Nat} (hids : ∀ id ∈ ids, id < t.size) (other : Nat) :
    (ids.foldl rankByText t).family other =
      if other ∈ ids then { t.family other with rank := (t.family other).rank.map Rank.toText }
      else t.family other := by
  induction ids generalizing t with
  | nil => simp
  | cons id rest ih =>
    have hid : id < t.size := hids id List.mem_cons_self
    have hrest : ∀ k ∈ rest, k < (t.rankByText id).size := by
      intro k hk
      rw [rankByText, size_modify]
      exact hids k (List.mem_cons_of_mem _ hk)
    rw [List.foldl_cons, ih hrest]
    by_cases e : other = id
    · subst e
      rw [rankByText, family_modify_self hid, if_pos List.mem_cons_self]
      split
      · rw [Option.map_map]
        rfl
      · rfl
    · rw [rankByText, family_modify_of_ne e]
      simp [e]

theorem value_orderAt (t : Tree) (id : Nat) :
    (t.orderAt id).value =
      if t.hasUniformSons id then t.orderItemsAt id
        else (t.sons id).foldl rankByText (t.orderItemsAt id) := by
  have hlinks : SameLinks t (t.orderItemsAt id) := sameLinks_modify t id _
  have huniform : (t.orderItemsAt id).hasUniformSons id = t.hasUniformSons id :=
    hasUniformSons_congr hlinks fun son _ => rank_orderItemsAt t id son
  simp only [orderAt, huniform, hlinks.sons]
  cases t.hasUniformSons id <;> cases (t.family id).hasUniformItems <;> rfl

theorem sameLinks_orderAt (t : Tree) (id : Nat) : SameLinks t (t.orderAt id).value := by
  have hlinks : SameLinks t (t.orderItemsAt id) := sameLinks_modify t id _
  rw [value_orderAt]
  split
  · exact hlinks
  · exact hlinks.trans (sameLinks_rankByText _ _)

/-- A visit orders the items of one family and ranks its sub-families by text where they mix
kinds. -/
theorem family_orderAt (h : t.WellFormed) {id : Nat} (hid : id < t.size) (other : Nat) :
    (t.orderAt id).value.family other =
      { t.family other with
        items := if other = id then (t.family id).orderItems else t.items other
        rank := if other ∈ t.sons id ∧ t.hasUniformSons id = false
          then (t.family other).rank.map Rank.toText else (t.family other).rank } := by
  have hordered : (t.orderItemsAt id).family other =
      { t.family other with
        items := if other = id then (t.family id).orderItems else t.items other } := by
    by_cases e : other = id
    · subst e
      rw [orderItemsAt, family_modify_self hid, if_pos rfl]
    · rw [orderItemsAt, family_modify_of_ne e, if_neg e]
      rfl
  have hsons : ∀ son ∈ t.sons id, son < (t.orderItemsAt id).size := by
    intro son hson
    rw [orderItemsAt, size_modify]
    exact (h.of_mem_sons hson).2.1
  rw [value_orderAt]
  cases hu : t.hasUniformSons id with
  | true => simp [hordered]
  | false =>
    simp only [Bool.false_eq_true, if_false, and_true]
    rw [family_rankByText hsons, hordered]
    by_cases hmem : other ∈ t.sons id
    · simp [hmem]
    · simp [hmem]

/-! ### All visits -/

/-- The rank with which a family is left: its own, or the text of it where its siblings mix
kinds. -/
def siblingRank (t : Tree) (id : Nat) : Option Rank :=
  match (t.node id).parent with
  | some parent =>
    if t.hasUniformSons parent then (t.family id).rank else (t.family id).rank.map Rank.toText
  | none => (t.family id).rank

/-- How far the sweep has come: the items of the families that have been met are in order, and the
ranks of their sub-families are settled. -/
structure OrderedUpTo (t : Tree) (met : List Nat) (u : Tree) : Prop where
  links : SameLinks t u
  frame : ∀ id, u.family id = { t.family id with items := u.items id, rank := (u.family id).rank }
  items_met : ∀ id ∈ met, u.items id = (t.family id).orderItems
  items_rest : ∀ id, id ∉ met → u.items id = t.items id
  rank_met : ∀ id parent, parent ∈ met → (t.node id).parent = some parent →
    (u.family id).rank = t.siblingRank id
  rank_rest : ∀ id, (∀ parent ∈ met, (t.node id).parent ≠ some parent) →
    (u.family id).rank = (t.family id).rank

theorem orderedUpTo_start (t : Tree) : OrderedUpTo t [] t where
  links := SameLinks.refl t
  frame _ := rfl
  items_met := by simp
  items_rest _ _ := rfl
  rank_met := by simp
  rank_rest _ _ := rfl

theorem orderedUpTo_step {before after : List Nat} {id : Nat} (hu : OrderedUpTo t before u)
    (h : t.WellFormed) (hall : t.all = before ++ id :: after) :
    OrderedUpTo t (before ++ [id]) (u.orderAt id).value := by
  have hid : id < t.size := h.lt_size_of_split hall
  have hwf : u.WellFormed := hu.links.wellFormed h
  have hnew : id ∉ before := h.not_mem_before hall
  have hsize : id < u.size := by
    rw [hu.links.size]
    exact hid
  have hfamily := family_orderAt hwf hsize
  -- the sub-families of a family that has not been met have the ranks they came with
  have hson : ∀ son ∈ t.sons id, (u.family son).rank = (t.family son).rank := by
    intro son hson
    refine hu.rank_rest son fun parent hparent heq => ?_
    rw [(h.of_mem_sons hson).2.2, Option.some.injEq] at heq
    exact hnew (heq ▸ hparent)
  have huniform : u.hasUniformSons id = t.hasUniformSons id := hasUniformSons_congr hu.links hson
  have hitems : (u.family id).orderItems = (t.family id).orderItems := by
    have heq : (u.family id).items = (t.family id).items := hu.items_rest id hnew
    rw [Family.orderItems, Family.orderItems, Family.hasUniformItems, Family.hasUniformItems, heq]
  refine ⟨hu.links.trans (sameLinks_orderAt u id), fun other => ?_,
    fun other hmem => ?_, fun other hmem => ?_, fun other parent hmem hp => ?_,
    fun other hparents => ?_⟩
  · rw [items, hfamily other, hu.frame other]
  · rw [items, hfamily other]
    by_cases e : other = id
    · subst e
      simp only [if_true]
      exact hitems
    · simp only [e, if_false]
      exact hu.items_met other (by simpa [e] using hmem)
  · have hboth : other ∉ before ∧ other ≠ id := by simpa using hmem
    rw [items, hfamily other]
    simp only [hboth.2, if_false]
    exact hu.items_rest other hboth.1
  · rw [hfamily other]
    simp only [hu.links.sons, huniform]
    by_cases e : parent = id
    · -- the visit to the parent settles the rank
      subst e
      have hlt : other < t.size := Decidable.byContradiction fun hge => by
        rw [node_of_size_le (by omega)] at hp
        cases hp
      have hmemson := (h.mem_sons_of_parent hlt hp).2
      rw [siblingRank, hp, hson other hmemson]
      cases hs : t.hasUniformSons parent <;> simp [hmemson, hs]
    · have hnotson : other ∉ t.sons id := by
        intro hmemson
        rw [(h.of_mem_sons hmemson).2.2, Option.some.injEq] at hp
        exact e hp.symm
      have hbefore : parent ∈ before := by simpa [e] using hmem
      simp only [hnotson, false_and, if_false]
      exact hu.rank_met other parent hbefore hp
  · have hnotson : other ∉ t.sons id := by
      intro hmemson
      exact hparents id (by simp) (h.of_mem_sons hmemson).2.2
    rw [hfamily other]
    simp only [hu.links.sons, hnotson, false_and, if_false]
    exact hu.rank_rest other fun parent hmem => hparents parent (List.mem_append_left _ hmem)

theorem WellFormed.orderedUpTo_all (h : t.WellFormed) : OrderedUpTo t t.all t.orderAll.value := by
  rw [orderAll, Logged.value_foldList]
  exact sweep_forward (fun u id => (u.orderAt id).value) (OrderedUpTo t)
    (fun _ _ _ _ hall hu => orderedUpTo_step hu h hall) (orderedUpTo_start t)

theorem WellFormed.sameLinks_orderAll (h : t.WellFormed) : SameLinks t t.orderAll.value :=
  h.orderedUpTo_all.links

/-- Ordering settles the items of every family and its rank among its siblings, and nothing else. -/
theorem WellFormed.family_orderAll (h : t.WellFormed) {id : Nat} (hid : id < t.size) :
    t.orderAll.value.family id =
      { t.family id with items := (t.family id).orderItems, rank := t.siblingRank id } := by
  have hu := h.orderedUpTo_all
  have hitems : t.orderAll.value.items id = (t.family id).orderItems :=
    hu.items_met id (h.mem_all_iff.mpr hid)
  have hrank : (t.orderAll.value.family id).rank = t.siblingRank id := by
    cases hp : (t.node id).parent with
    | none =>
      rw [hu.rank_rest id (by simp [hp]), siblingRank, hp]
    | some parent =>
      have hlt := (h.mem_sons_of_parent hid hp).1
      exact hu.rank_met id parent (h.mem_all_iff.mpr (Nat.lt_trans hlt hid)) hp
  rw [hu.frame id, hitems, hrank]

/-! ### Ordered trees -/

/-- All items are in order and numbered, and siblings have ranks of one kind or are ranked by
text. -/
structure IsOrdered (t : Tree) : Prop where
  items : ∀ id < t.size, (t.family id).IsOrdered
  ranks : ∀ id < t.size, t.hasUniformSons id = true ∨
    ∀ son ∈ t.sons id, (t.family son).rank.map Rank.toText = (t.family son).rank

theorem WellFormed.isOrdered_orderAll (h : t.WellFormed) : t.orderAll.value.IsOrdered := by
  have hlinks := h.sameLinks_orderAll
  refine ⟨fun id hid => ?_, fun id hid => ?_⟩
  · rw [hlinks.size] at hid
    rw [h.family_orderAll hid]
    exact Family.isOrdered_of_items rfl
  · have hrank : ∀ son ∈ t.sons id, (t.orderAll.value.family son).rank =
        if t.hasUniformSons id then (t.family son).rank
          else (t.family son).rank.map Rank.toText := by
      intro son hson
      obtain ⟨_, hlt, hp⟩ := h.of_mem_sons hson
      rw [h.family_orderAll hlt]
      simp only [siblingRank, hp]
    cases hu : t.hasUniformSons id with
    | true =>
      left
      rw [hasUniformSons_congr hlinks fun son hson => by rw [hrank son hson, hu, if_pos rfl]]
      exact hu
    | false =>
      right
      intro son hson
      rw [hlinks.sons] at hson
      rw [hrank son hson, hu, if_neg (by simp), Option.map_map]
      rfl

/-- Ordering leaves an ordered tree alone. -/
theorem WellFormed.orderAll_of_isOrdered (h : t.WellFormed) (ht : t.IsOrdered) :
    t.orderAll.value = t := by
  refine h.sameLinks_orderAll.eq_of_family fun id hid => ?_
  have hitems : (t.family id).orderItems = (t.family id).items :=
    Family.orderItems_of_isOrdered (ht.items id hid)
  have hrank : t.siblingRank id = (t.family id).rank := by
    unfold siblingRank
    cases hp : (t.node id).parent with
    | none => rfl
    | some parent =>
      obtain ⟨hlt, hson⟩ := h.mem_sons_of_parent hid hp
      rcases ht.ranks parent (Nat.lt_trans hlt hid) with huniform | htext
      · simp only [huniform, if_true]
      · simp only [htext id hson, ite_self]
  rw [h.family_orderAll hid, hitems, hrank]

end Tree

end Catalog
