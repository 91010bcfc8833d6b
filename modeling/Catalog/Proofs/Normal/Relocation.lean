import Catalog.Normal.Basic
import Catalog.Proofs.Tree.Preorder

/-!
# What relocation settles

A family that has sub-families hands its items to one of them, which the walk meets later or which
was just made and has no sub-families itself. So once a family has been visited it is settled for
good.

* `Tree.sink` is the family that takes the items, and `items_moveToSink` says what one move does;
* `Tree.RelocatedUpTo` says how far the sweep has come;
* `Tree.IsExclusive` holds of the outcome, and of such a tree nothing moves.
-/

namespace Catalog.Tree

variable {t u : Tree}

/-! ### Where items go -/

/-- The sub-family that takes the items of a family. -/
def sink (t : Tree) (id : Nat) : Nat := (t.createBelow id [sinkName]).2

theorem sink_of_son? {id son : Nat} (hs : t.son? id sinkName = some son) :
    (t.createBelow id [sinkName]).1 = t ∧ t.sink id = son := by
  simp [sink, createBelow, hs]

theorem sink_of_none {id : Nat} (hs : t.son? id sinkName = none) :
    (t.createBelow id [sinkName]).1 = (t.addSon id sinkName).1 ∧ t.sink id = t.size := by
  simp [sink, createBelow, hs, addSon]

/-- The family that takes the items is in place once it has been made, and it comes after the other
one. -/
theorem WellFormed.sink_son? (h : t.WellFormed) {id : Nat} (hid : id < t.size) :
    (t.createBelow id [sinkName]).1.son? id sinkName = some (t.sink id) ∧ id < t.sink id := by
  cases hs : t.son? id sinkName with
  | some son =>
    obtain ⟨htree, hsink⟩ := sink_of_son? hs
    rw [htree, hsink]
    exact ⟨hs, h.lt_of_son? hs⟩
  | none =>
    obtain ⟨htree, hsink⟩ := sink_of_none hs
    rw [htree, hsink, son?_addSon hid, if_pos ⟨rfl, rfl⟩]
    exact ⟨rfl, hid⟩

theorem lt_or_eq_sink {id other : Nat} (hother : other < (t.createBelow id [sinkName]).1.size) :
    other < t.size ∨ other = t.sink id := by
  cases hs : t.son? id sinkName with
  | some son =>
    rw [(sink_of_son? hs).1] at hother
    exact Or.inl hother
  | none =>
    obtain ⟨htree, hsink⟩ := sink_of_none hs
    rw [htree, size_addSon] at hother
    rw [hsink]
    omega

theorem nodeSons_createBelow_sink {id other : Nat} (hother : other ≠ id) :
    ((t.createBelow id [sinkName]).1.node other).sons = (t.node other).sons := by
  cases hs : t.son? id sinkName with
  | some son => rw [(sink_of_son? hs).1]
  | none =>
    rw [(sink_of_none hs).1]
    rcases Nat.lt_trichotomy other t.size with hlt | heq | hgt
    · rw [node_addSon hlt, if_neg hother]
    · subst heq
      rw [node_addSon_new, node_of_size_le (Nat.le_refl _)]
    · have hnew : (t.addSon id sinkName).1.size ≤ other := by
        rw [size_addSon]
        omega
      rw [node_of_size_le hnew, node_of_size_le (Nat.le_of_lt hgt)]

/-! ### One move -/

theorem sameLinks_moveToSink (t : Tree) (id : Nat) :
    SameLinks (t.createBelow id [sinkName]).1 (t.moveToSink id) := by
  unfold moveToSink
  exact (sameLinks_modify _ id _).trans (sameLinks_modify _ _ _)

section Move

variable (h : t.WellFormed) {id : Nat} (hid : id < t.size)

include h hid

theorem WellFormed.moveToSink : (t.moveToSink id).WellFormed :=
  (sameLinks_moveToSink t id).wellFormed (h.createBelow hid [sinkName])

theorem WellFormed.son?_moveToSink {other son : Nat} {name : String}
    (hs : t.son? other name = some son) : (t.moveToSink id).son? other name = some son := by
  rw [(sameLinks_moveToSink t id).son?]
  exact (h.extends_createBelow hid [sinkName]).son? other name son hs

theorem WellFormed.son?_moveToSink_self :
    (t.moveToSink id).son? id sinkName = some (t.sink id) := by
  rw [(sameLinks_moveToSink t id).son?]
  exact (h.sink_son? hid).1

end Move

/-- A move changes the items of two families and nothing else. -/
theorem WellFormed.family_moveToSink (h : t.WellFormed) {id : Nat} (hid : id < t.size)
    (other : Nat) : (t.moveToSink id).family other =
      { t.family other with
        items := if other = id then [] else if other = t.sink id then t.items other ++ t.items id
          else t.items other } := by
  have hgrown := h.extends_createBelow hid [sinkName]
  have hlt : id < t.sink id := (h.sink_son? hid).2
  have hid' : id < (t.createBelow id [sinkName]).1.size := Nat.lt_of_lt_of_le hid hgrown.size_le
  have hsink : t.sink id < (t.createBelow id [sinkName]).1.size :=
    h.end_createBelow_lt hid [sinkName]
  unfold Tree.moveToSink
  by_cases e : other = t.sink id
  · subst e
    have hne : t.sink id ≠ id := by omega
    have hsize : t.sink id <
        ((t.createBelow id [sinkName]).1.modify id fun f => { f with items := [] }).size := by
      rw [size_modify]
      exact hsink
    simp only [hne, if_false, if_true]
    rw [show (t.createBelow id [sinkName]).2 = t.sink id from rfl, family_modify_self hsize,
      family_modify_of_ne hne, hgrown.family, items, items]
  · rw [family_modify_of_ne (by rw [← sink]; exact e)]
    by_cases e' : other = id
    · subst e'
      rw [family_modify_self hid', hgrown.family, if_pos rfl]
    · rw [family_modify_of_ne e', hgrown.family, if_neg e', if_neg e, items]

theorem WellFormed.items_moveToSink (h : t.WellFormed) {id : Nat} (hid : id < t.size)
    (other : Nat) : (t.moveToSink id).items other =
      if other = id then []
        else if other = t.sink id then t.items other ++ t.items id else t.items other := by
  rw [items, h.family_moveToSink hid other]

theorem isMixed_moveToSink (h : t.WellFormed) {id other : Nat} (hid : id < t.size)
    (hne : other ≠ t.sink id) (hother : other ≠ id) :
    (t.moveToSink id).isMixed other = t.isMixed other := by
  have hsons : ((t.moveToSink id).node other).sons = (t.node other).sons :=
    ((sameLinks_moveToSink t id).nodeSons other).trans (nodeSons_createBelow_sink hother)
  have hitems : (t.moveToSink id).items other = t.items other := by
    rw [h.items_moveToSink hid other, if_neg hother, if_neg hne]
  rw [isMixed, isMixed, hitems, Node.hasSons, Node.hasSons, hsons]

/-! ### All moves -/

/-- How far the sweep has come: the families that have been met are settled, and those that were
made since have no sub-families and hang below families that have been met. -/
structure RelocatedUpTo (t : Tree) (met : List Nat) (u : Tree) : Prop where
  wellFormed : u.WellFormed
  size_le : t.size ≤ u.size
  path : ∀ id < t.size, (u.node id).path = (t.node id).path
  parent : ∀ id < t.size, (u.node id).parent = (t.node id).parent
  frame : ∀ id, u.family id = { t.family id with items := u.items id }
  settled : ∀ id ∈ met, u.isMixed id = false
  made : ∀ id, t.size ≤ id → id < u.size →
    (u.node id).hasSons = false ∧ ∃ parent ∈ met, (u.node id).parent = some parent

theorem relocatedUpTo_start (h : t.WellFormed) : RelocatedUpTo t [] t where
  wellFormed := h
  size_le := Nat.le_refl _
  path _ _ := rfl
  parent _ _ := rfl
  frame _ := rfl
  settled := by simp
  made id hge hlt := absurd hlt (Nat.not_lt.mpr hge)

/-- The family that takes the items hangs below the one that gives them, so the walk has not met it
yet. -/
theorem RelocatedUpTo.ne_sink {before after : List Nat} {id other : Nat}
    (hu : RelocatedUpTo t before u) (h : t.WellFormed) (hall : t.all = before ++ id :: after)
    (hmem : other ∈ before) : other ≠ u.sink id := by
  have hid : id < u.size := Nat.lt_of_lt_of_le (h.lt_size_of_split hall) hu.size_le
  have hother : other < t.size := by
    rw [← h.mem_all_iff, hall]
    exact List.mem_append_left _ hmem
  have hmade := hu.wellFormed.createBelow hid [sinkName]
  have hparent := (hmade.down id sinkName (u.sink id) (hu.wellFormed.sink_son? hid).1).2.1
  rintro rfl
  rw [(hu.wellFormed.extends_createBelow hid [sinkName]).parent _
    (Nat.lt_of_lt_of_le hother hu.size_le), hu.parent _ hother] at hparent
  have hafter := h.son_mem_after hall (h.mem_sons_of_parent hother hparent).2
  exact h.not_mem_rest hall hmem (List.mem_cons_of_mem _ hafter)

theorem relocatedUpTo_step {before after : List Nat} {id : Nat} (hu : RelocatedUpTo t before u)
    (h : t.WellFormed) (hall : t.all = before ++ id :: after) :
    RelocatedUpTo t (before ++ [id]) (u.relocate id).value := by
  have hid : id < t.size := h.lt_size_of_split hall
  have hid' : id < u.size := Nat.lt_of_lt_of_le hid hu.size_le
  unfold relocate
  cases hmixed : u.isMixed id with
  | false =>
    refine ⟨hu.wellFormed, hu.size_le, hu.path, hu.parent, hu.frame,
      fun other hmem => ?_, fun other hge hlt => ?_⟩
    · rcases List.mem_append.mp hmem with hbefore | hself
      · exact hu.settled other hbefore
      · rw [List.mem_singleton.mp hself]
        exact hmixed
    · obtain ⟨hsons, parent, hparent, hp⟩ := hu.made other hge hlt
      exact ⟨hsons, parent, List.mem_append_left _ hparent, hp⟩
  | true =>
    show RelocatedUpTo t (before ++ [id]) (u.moveToSink id)
    have hwf := hu.wellFormed
    have hgrown := hwf.extends_createBelow hid' [sinkName]
    have hmade : (u.createBelow id [sinkName]).1.WellFormed := hwf.createBelow hid' [sinkName]
    have hlinks := sameLinks_moveToSink u id
    obtain ⟨hson, hlt⟩ := hwf.sink_son? hid'
    have hsinkparent : ((u.createBelow id [sinkName]).1.node (u.sink id)).parent = some id :=
      (hmade.down id sinkName (u.sink id) hson).2.1
    refine ⟨hlinks.wellFormed hmade, ?_, fun other hother => ?_,
      fun other hother => ?_, fun other => ?_, fun other hmem => ?_, fun other hge hother => ?_⟩
    · rw [hlinks.size]
      exact Nat.le_trans hu.size_le hgrown.size_le
    · rw [hlinks.path, hgrown.path other (Nat.lt_of_lt_of_le hother hu.size_le),
        hu.path other hother]
    · rw [hlinks.parent, hgrown.parent other (Nat.lt_of_lt_of_le hother hu.size_le),
        hu.parent other hother]
    · rw [items, hwf.family_moveToSink hid' other, hu.frame other]
    · rcases List.mem_append.mp hmem with hmet | hself
      · have hne : other ≠ id := by
          rintro rfl
          exact h.not_mem_before hall hmet
        have hnesink : other ≠ u.sink id := hu.ne_sink h hall hmet
        rw [isMixed_moveToSink hwf hid' hnesink hne]
        exact hu.settled other hmet
      · rw [List.mem_singleton.mp hself, isMixed, items, hwf.family_moveToSink hid' id]
        simp
    · rw [hlinks.size] at hother
      have hne : other ≠ id := by omega
      rw [Node.hasSons, hlinks.nodeSons, nodeSons_createBelow_sink hne, hlinks.parent]
      rcases Nat.lt_or_ge other u.size with hold | hnew
      · obtain ⟨hsons, parent, hparent, hp⟩ := hu.made other hge hold
        exact ⟨hsons, parent, List.mem_append_left _ hparent, by rw [hgrown.parent other hold, hp]⟩
      · have hsink : other = u.sink id := (lt_or_eq_sink hother).resolve_left (Nat.not_lt.mpr hnew)
        refine ⟨by rw [node_of_size_le hnew]; rfl, id, by simp, ?_⟩
        rw [hsink]
        exact hsinkparent

theorem WellFormed.relocatedUpTo_all (h : t.WellFormed) :
    RelocatedUpTo t t.all t.relocateItems.value := by
  rw [relocateItems, Logged.value_foldList]
  exact sweep_forward (fun u id => (u.relocate id).value) (RelocatedUpTo t)
    (fun _ _ _ _ hall hu => relocatedUpTo_step hu h hall) (relocatedUpTo_start h)

theorem WellFormed.relocateItems (h : t.WellFormed) : t.relocateItems.value.WellFormed :=
  h.relocatedUpTo_all.wellFormed

/-! ### Exclusive trees -/

/-- No family has both items and sub-families. -/
def IsExclusive (t : Tree) : Prop := ∀ id, t.isMixed id = false

theorem WellFormed.isExclusive_relocateItems (h : t.WellFormed) :
    t.relocateItems.value.IsExclusive := by
  have hu := h.relocatedUpTo_all
  intro id
  rcases Nat.lt_or_ge id t.size with hold | hnew
  · exact hu.settled id (h.mem_all_iff.mpr hold)
  · rcases Nat.lt_or_ge id t.relocateItems.value.size with hmade | hnone
    · rw [isMixed, (hu.made id hnew hmade).1, Bool.false_and]
    · rw [isMixed, node_of_size_le hnone]
      rfl

/-- Of an exclusive tree nothing moves. -/
theorem relocateItems_of_isExclusive (h : t.IsExclusive) : t.relocateItems.value = t := by
  have hstep : ∀ id, (t.relocate id).value = t := by
    intro id
    rw [relocate, h id]
    rfl
  rw [relocateItems, Logged.value_foldList]
  induction t.all with
  | nil => rfl
  | cons id rest ih =>
    rw [List.foldl_cons, hstep]
    exact ih

/-- Whether a tree is exclusive depends on its links and on how many items families have. -/
theorem IsExclusive.of_sameLinks (h : t.IsExclusive) (hlinks : SameLinks t u)
    (hitems : ∀ id < t.size, (u.items id).length = (t.items id).length) : u.IsExclusive := by
  intro id
  rcases Nat.lt_or_ge id t.size with hid | hge
  · have hempty : (u.items id).isEmpty = (t.items id).isEmpty := by
      rw [Bool.eq_iff_iff, List.isEmpty_iff_length_eq_zero, List.isEmpty_iff_length_eq_zero,
        hitems id hid]
    rw [isMixed, Node.hasSons, hlinks.nodeSons, hempty]
    exact h id
  · have hge' : u.size ≤ id := by
      rw [hlinks.size]
      exact hge
    rw [isMixed, node_of_size_le hge']
    rfl

end Catalog.Tree
