import Catalog.Proofs.Normal.Destinations

/-!
# How items come together

When the walk meets a family, all that its parents handed on to it is there already. So a family
with sub-families hands on to its sink all that comes together at it, and a family without
sub-families keeps that.

* `Tree.PooledUpTo` says how far the sweep has come: which families have handed on what came
  together there, which sinks hold it, and which are new;
* `pooledUpTo_step` is the step and `WellFormed.pooledUpTo_all` the run.
-/

namespace Catalog.Tree

variable {t u : Tree}

theorem isMixed_iff {id : Nat} : t.isMixed id = true ↔ t.sons id ≠ [] ∧ t.items id ≠ [] := by
  rw [isMixed, Bool.and_eq_true, WellFormed.hasSons_iff, Bool.not_eq_true',
    List.isEmpty_eq_false_iff]

theorem son?_of_nodeSons {id : Nat} (h : (u.node id).sons = (t.node id).sons) (name : String) :
    u.son? id name = t.son? id name := by
  rw [son?, son?, h]

theorem sons_of_nodeSons {id : Nat} (h : (u.node id).sons = (t.node id).sons) :
    u.sons id = t.sons id := by
  rw [sons, sons, h]

/-- How far the sweep has come: a family that has been met has handed on all that came together
there, and its sink holds it, unless the family keeps it for good. Only sinks of families that
handed something on are new. -/
structure PooledUpTo (t : Tree) (met : List Nat) (u : Tree) : Prop where
  nodeSons_rest : ∀ id < t.size, id ∉ met → (u.node id).sons = (t.node id).sons
  bareSons : ∀ id < t.size, u.sons id = [] ↔ t.sons id = []
  kept : ∀ id name son, t.son? id name = some son → u.son? id name = some son
  items_met : ∀ id ∈ met, u.items id = if t.sons id = [] then t.pooledItems id else []
  items_sink : ∀ parent ∈ met, ∀ id, t.son? parent sinkName = some id → id ∉ met →
    u.items id = t.pooledItems id
  items_rest : ∀ id < t.size, id ∉ met → (∀ parent ∈ met, t.son? parent sinkName ≠ some id) →
    u.items id = t.items id
  made : ∀ k, t.size ≤ k → k < u.size → ∃ parent ∈ met, t.sons parent ≠ [] ∧
    t.son? parent sinkName = none ∧
    u.son? parent sinkName = some k ∧ t.pooledItems parent ≠ [] ∧ u.items k = t.pooledItems parent
  made_of_pooled : ∀ parent ∈ met, t.sons parent ≠ [] → t.pooledItems parent ≠ [] →
    ∃ sink, u.son? parent sinkName = some sink

theorem pooledUpTo_start (t : Tree) : PooledUpTo t [] t where
  nodeSons_rest _ _ _ := rfl
  bareSons _ _ := Iff.rfl
  kept _ _ _ h := h
  items_met := by simp
  items_sink := by simp
  items_rest _ _ _ _ := rfl
  made k hge hlt := absurd hlt (Nat.not_lt.mpr hge)
  made_of_pooled := by simp

/-- Two families do not share a sink. -/
theorem WellFormed.eq_of_son? (h : t.WellFormed) {a b id : Nat} {name other : String}
    (ha : t.son? a name = some id) (hb : t.son? b other = some id) : a = b := by
  have heq := (h.down a name id ha).2.1
  rw [(h.down b other id hb).2.1, Option.some.injEq] at heq
  exact heq.symm

/-- A family that was made before keeps what it holds. -/
theorem RelocatedUpTo.items_moveToSink_of_made {before after : List Nat} {id : Nat}
    (hreached : RelocatedUpTo t before u) (h : t.WellFormed) (hall : t.all = before ++ id :: after)
    {k parent : Nat} (hge : t.size ≤ k) (hmet : parent ∈ before)
    (hson : u.son? parent sinkName = some k) :
    (u.moveToSink id).items k = u.items k := by
  have hid := h.lt_size_of_split hall
  have hwf := hreached.wellFormed
  have hid' : id < u.size := Nat.lt_of_lt_of_le hid hreached.size_le
  have hne : k ≠ id := fun heq => absurd hid (Nat.not_lt.mpr (heq ▸ hge))
  have hne' : k ≠ u.sink id := by
    rintro rfl
    -- the sink would be a sink of an earlier family too
    have hson' := hwf.son?_moveToSink hid' hson
    exact h.not_mem_before hall
      ((hwf.moveToSink hid').eq_of_son? hson' (hwf.son?_moveToSink_self hid') ▸ hmet)
  rw [hwf.items_moveToSink hid', if_neg hne, if_neg hne']

section Step

variable {before after : List Nat} {id : Nat} (hu : PooledUpTo t before u) (h : t.WellFormed)
  (hall : t.all = before ++ id :: after)

include hu h hall

/-- All that comes together at a family is there when it is met. -/
theorem PooledUpTo.items_eq : u.items id = t.pooledItems id := by
  have hid := h.lt_size_of_split hall
  have hnew : id ∉ before := h.not_mem_before hall
  by_cases hs : ∃ parent, t.son? parent sinkName = some id
  · obtain ⟨parent, hs⟩ := hs
    exact hu.items_sink parent (h.parent_mem_before hall (h.down parent sinkName id hs).2.1)
      id hs hnew
  · have hnone : ∀ parent, t.son? parent sinkName ≠ some id :=
      fun parent hparent => hs ⟨parent, hparent⟩
    rw [pooledItems_of_not_sink hnone]
    exact hu.items_rest id hid hnew fun parent _ => hnone parent

/-- Where a family keeps what it has, the sweep goes on. -/
theorem PooledUpTo.step_of_not_mixed (hmixed : u.isMixed id = false) :
    PooledUpTo t (before ++ [id]) u := by
  have hid := h.lt_size_of_split hall
  have hnew : id ∉ before := h.not_mem_before hall
  have hitems := hu.items_eq h hall
  -- a family with sub-families has nothing to hand on
  have hnothing : t.sons id ≠ [] → t.pooledItems id = [] := by
    intro hsons
    by_contra hne
    rw [← hitems] at hne
    rw [isMixed_iff.mpr ⟨mt (hu.bareSons id hid).mp hsons, hne⟩] at hmixed
    cases hmixed
  have hrest : ∀ other, other ∉ before ++ [id] → other ∉ before := fun other hmem hbefore =>
    hmem (List.mem_append_left _ hbefore)
  refine ⟨fun other hother hmem => hu.nodeSons_rest other hother (hrest other hmem),
    hu.bareSons, hu.kept, fun other hmem => ?_, fun parent hparent other hs hmem => ?_,
    fun other hother hmem hnone => ?_, fun k hge hk => ?_, fun parent hparent hsons hpooled => ?_⟩
  · rcases List.mem_append.mp hmem with hbefore | hself
    · exact hu.items_met other hbefore
    · rw [List.mem_singleton.mp hself, hitems]
      split
      · rfl
      · next hsons => exact hnothing hsons
  · rcases List.mem_append.mp hparent with hbefore | hself
    · exact hu.items_sink parent hbefore other hs (hrest other hmem)
    · -- the sink of the family gets nothing
      rw [List.mem_singleton.mp hself] at hs
      have hsons : t.sons id ≠ [] := List.ne_nil_of_mem (WellFormed.mem_sons_iff.mpr ⟨sinkName, hs⟩)
      rw [h.pooledItems_of_sink hs, hnothing hsons, List.append_nil]
      refine hu.items_rest other (h.down id sinkName other hs).1 (hrest other hmem)
        fun parent hbefore hparent => ?_
      exact hnew (h.eq_of_son? hparent hs ▸ hbefore)
  · exact hu.items_rest other hother (hrest other hmem) fun parent hbefore =>
      hnone parent (List.mem_append_left _ hbefore)
  · obtain ⟨parent, hbefore, hmade⟩ := hu.made k hge hk
    exact ⟨parent, List.mem_append_left _ hbefore, hmade⟩
  · rcases List.mem_append.mp hparent with hbefore | hself
    · exact hu.made_of_pooled parent hbefore hsons hpooled
    · rw [List.mem_singleton.mp hself] at hsons hpooled
      exact absurd (hnothing hsons) hpooled

/-- The sink is the one that was there, or it is new and holds nothing. -/
theorem PooledUpTo.sink_cases :
    t.son? id sinkName = some (u.sink id) ∨
      (u.sink id = u.size ∧ t.son? id sinkName = none ∧ u.items (u.sink id) = []) := by
  have hid := h.lt_size_of_split hall
  have hson := son?_of_nodeSons (hu.nodeSons_rest id hid (h.not_mem_before hall)) sinkName
  cases hs : u.son? id sinkName with
  | some son =>
    rw [(sink_of_son? hs).2, ← hson]
    exact Or.inl hs
  | none =>
    rw [(sink_of_none hs).2, ← hson, items, family_of_size_le (Nat.le_refl _)]
    exact Or.inr ⟨rfl, hs, rfl⟩

variable (hreached : RelocatedUpTo t before u)

include hreached

/-- What is neither the family nor its sink keeps what it holds when the family hands its items
on. -/
theorem PooledUpTo.items_moveToSink_of_ne {other : Nat} (hother : other < t.size) (hne : other ≠ id)
    (hs : t.son? id sinkName ≠ some other) : (u.moveToSink id).items other = u.items other := by
  have hid : id < u.size := Nat.lt_of_lt_of_le (h.lt_size_of_split hall) hreached.size_le
  have hne' : other ≠ u.sink id := by
    rintro rfl
    rcases hu.sink_cases h hall with hold | ⟨hlast, _, _⟩
    · exact hs hold
    · rw [hlast] at hother
      exact absurd hother (Nat.not_lt.mpr hreached.size_le)
  rw [hreached.wellFormed.items_moveToSink hid, if_neg hne, if_neg hne']

/-- An old sink holds all that comes together there once the family has handed its items on. -/
theorem PooledUpTo.items_sink_moveToSink {other : Nat} (hs : t.son? id sinkName = some other)
    (hmem : other ∉ before) : (u.moveToSink id).items other = t.pooledItems other := by
  have hid : id < u.size := Nat.lt_of_lt_of_le (h.lt_size_of_split hall) hreached.size_le
  have hne : other ≠ id := Nat.ne_of_gt (h.lt_of_son? hs)
  have heq : other = u.sink id := by
    rcases hu.sink_cases h hall with hold | ⟨_, hnone, _⟩
    · rw [hs, Option.some.injEq] at hold
      exact hold
    · rw [hs] at hnone
      cases hnone
  -- nobody has handed anything to the sink before
  have hold : u.items other = t.items other :=
    hu.items_rest other (h.down id sinkName other hs).1 hmem fun parent hmet hs' =>
      h.not_mem_before hall (h.eq_of_son? hs' hs ▸ hmet)
  rw [hreached.wellFormed.items_moveToSink hid, if_neg hne, if_pos heq, hold, hu.items_eq h hall,
    h.pooledItems_of_sink hs]

/-- Where a family hands its items on, its sink holds all that comes together there. -/
theorem PooledUpTo.step_of_mixed (hmixed : u.isMixed id = true) :
    PooledUpTo t (before ++ [id]) (u.moveToSink id) := by
  have hid := h.lt_size_of_split hall
  have hnew : id ∉ before := h.not_mem_before hall
  have hwf := hreached.wellFormed
  have hid' : id < u.size := Nat.lt_of_lt_of_le hid hreached.size_le
  have hlinks := sameLinks_moveToSink u id
  have hsink := hwf.son?_moveToSink_self hid'
  have hpooled := hu.items_eq h hall
  obtain ⟨hsonsU, hhere⟩ := isMixed_iff.mp hmixed
  have hsons : t.sons id ≠ [] := mt (hu.bareSons id hid).mpr hsonsU
  have hrest : ∀ other, other ∉ before ++ [id] → other ∉ before ∧ other ≠ id := fun other hmem =>
    ⟨fun hbefore => hmem (List.mem_append_left _ hbefore), fun heq => hmem (by simp [heq])⟩
  refine ⟨fun other hother hmem => ?_, fun other hother => ?_,
    fun other name son hs => ?_, fun other hmem => ?_,
    fun parent hparent other hs hmem => ?_, fun other hother hmem hnone => ?_, fun k hge hk => ?_,
    fun parent hparent hsons' hpooled' => ?_⟩
  · obtain ⟨hbefore, hne⟩ := hrest other hmem
    rw [hlinks.nodeSons, nodeSons_createBelow_sink hne, hu.nodeSons_rest other hother hbefore]
  · by_cases e : other = id
    · subst e
      refine iff_of_false ?_ hsons
      exact List.ne_nil_of_mem (WellFormed.mem_sons_iff.mpr ⟨sinkName, hsink⟩)
    · rw [hlinks.sons, sons_of_nodeSons (nodeSons_createBelow_sink e)]
      exact hu.bareSons other hother
  · exact hwf.son?_moveToSink hid' (hu.kept other name son hs)
  · rcases List.mem_append.mp hmem with hbefore | hself
    · have hne : other ≠ id := fun heq => hnew (heq ▸ hbefore)
      rw [hwf.items_moveToSink hid', if_neg hne, if_neg (hreached.ne_sink h hall hbefore)]
      exact hu.items_met other hbefore
    · rw [List.mem_singleton.mp hself, hwf.items_moveToSink hid', if_pos rfl, if_neg hsons]
  · obtain ⟨hbefore, hne⟩ := hrest other hmem
    rcases List.mem_append.mp hparent with hmet | hself
    · have hs' : t.son? id sinkName ≠ some other := fun hs' => hnew (h.eq_of_son? hs hs' ▸ hmet)
      rw [hu.items_moveToSink_of_ne h hall hreached (h.down parent sinkName other hs).1 hne hs']
      exact hu.items_sink parent hmet other hs hbefore
    · rw [List.mem_singleton.mp hself] at hs
      exact hu.items_sink_moveToSink h hall hreached hs hbefore
  · obtain ⟨hbefore, hne⟩ := hrest other hmem
    rw [hu.items_moveToSink_of_ne h hall hreached hother hne (hnone id (by simp))]
    exact hu.items_rest other hother hbefore fun parent hmet =>
      hnone parent (List.mem_append_left _ hmet)
  · rw [hlinks.size] at hk
    rcases lt_or_eq_sink hk with hold | rfl
    · obtain ⟨parent, hmet, hsons', hnone, hson, hne, hheld⟩ := hu.made k hge hold
      refine ⟨parent, List.mem_append_left _ hmet, hsons', hnone, hwf.son?_moveToSink hid' hson,
        hne, ?_⟩
      rw [hreached.items_moveToSink_of_made h hall hge hmet hson, hheld]
    · rcases hu.sink_cases h hall with hold | ⟨_, hnone, hempty⟩
      · exact absurd (h.down id sinkName _ hold).1 (Nat.not_lt.mpr hge)
      · have hself : u.sink id ≠ id := Nat.ne_of_gt (hwf.sink_son? hid').2
        refine ⟨id, by simp, hsons, hnone, hsink, hpooled ▸ hhere, ?_⟩
        rw [hwf.items_moveToSink hid', if_neg hself, if_pos rfl, hempty, List.nil_append, hpooled]
  · rcases List.mem_append.mp hparent with hmet | hself
    · obtain ⟨sink, hson⟩ := hu.made_of_pooled parent hmet hsons' hpooled'
      exact ⟨sink, hwf.son?_moveToSink hid' hson⟩
    · rw [List.mem_singleton.mp hself]
      exact ⟨u.sink id, hsink⟩

theorem pooledUpTo_step : PooledUpTo t (before ++ [id]) (u.relocate id).value := by
  unfold relocate
  cases hmixed : u.isMixed id with
  | false => exact hu.step_of_not_mixed h hall hmixed
  | true => exact hu.step_of_mixed h hall hreached hmixed

end Step

theorem WellFormed.pooledUpTo_all (h : t.WellFormed) :
    PooledUpTo t t.all t.relocateItems.value := by
  rw [Tree.relocateItems, Logged.value_foldList]
  exact (sweep_forward (fun u id => (u.relocate id).value)
    (fun met u => PooledUpTo t met u ∧ RelocatedUpTo t met u)
    (fun _ _ _ _ hall hu => ⟨pooledUpTo_step hu.1 h hall hu.2, relocatedUpTo_step hu.2 h hall⟩)
    ⟨pooledUpTo_start t, relocatedUpTo_start h⟩).1

end Catalog.Tree
