import Catalog.Proofs.Normal.Relocation
import Catalog.Proofs.Tree.Paths
import Mathlib.Data.List.Nodup
import Mathlib.Tactic.ByContra

/-!
# Where items are bound for

The items of a family with sub-families go to its sub-family of the fixed name, and from there on if
that one has sub-families too. So they end in the first family on this way that has none, or that is
not there yet.

* `Tree.IsDestination` says where the items of a family end, and `WellFormed.exists_isDestination`
  that there is such a place for every family;
* `Tree.feeders` are the places whose items come together at a place, and
  `WellFormed.mem_feeders_iff` says that these are the ones from which a row of sinks leads there;
* `WellFormed.mem_feeders_iff_of_sons_nil` and `WellFormed.mem_feeders_iff_of_son_none` say whose
  destination a family without sub-families is, and whose a sink that is missing.
-/

namespace Catalog.Tree

variable {t u : Tree}

/-! ### Destinations -/

/-- The family with a path takes items for good: it has no sub-families, or it is not there. -/
def TakesItems (t : Tree) (path : List String) : Prop :=
  ∀ id, t.find? path = some id → t.sons id = []

/-- The items of the family with the first path end in the family with the second: it is found from
the first by the least number of sinks that leads to a family that takes items for good. -/
def IsDestination (t : Tree) (path dest : List String) : Prop :=
  ∃ n, dest = path ++ List.replicate n sinkName ∧ t.TakesItems dest ∧
    ∀ k < n, ¬ t.TakesItems (path ++ List.replicate k sinkName)

theorem append_replicate_succ (path : List String) (n : Nat) :
    path ++ List.replicate (n + 1) sinkName =
      (path ++ [sinkName]) ++ List.replicate n sinkName := by
  rw [List.replicate_succ, List.append_assoc, List.singleton_append]

theorem isDestination_of_takesItems {path dest : List String} (h : t.TakesItems path) :
    t.IsDestination path dest ↔ dest = path := by
  constructor
  · rintro ⟨n, rfl, _, hbefore⟩
    cases n with
    | zero => exact List.append_nil path
    | succ n =>
      refine absurd ?_ (hbefore 0 (Nat.succ_pos n))
      rw [List.replicate_zero, List.append_nil]
      exact h
  · rintro rfl
    exact ⟨0, (List.append_nil dest).symm, h, fun k hk => absurd hk (Nat.not_lt_zero k)⟩

/-- A family that does not take items hands them on to its sink. -/
theorem isDestination_of_not_takesItems {path dest : List String} (h : ¬ t.TakesItems path) :
    t.IsDestination path dest ↔ t.IsDestination (path ++ [sinkName]) dest := by
  constructor
  · rintro ⟨n, rfl, hlast, hbefore⟩
    cases n with
    | zero =>
      rw [List.replicate_zero, List.append_nil] at hlast
      exact absurd hlast h
    | succ n =>
      refine ⟨n, append_replicate_succ path n, hlast, fun k hk => ?_⟩
      rw [← append_replicate_succ]
      exact hbefore (k + 1) (Nat.succ_lt_succ hk)
  · rintro ⟨n, rfl, hlast, hbefore⟩
    refine ⟨n + 1, (append_replicate_succ path n).symm, hlast, fun k hk => ?_⟩
    cases k with
    | zero =>
      rw [List.replicate_zero, List.append_nil]
      exact h
    | succ k =>
      rw [append_replicate_succ]
      exact hbefore k (Nat.lt_of_succ_lt_succ hk)

theorem IsDestination.unique {path dest other : List String} (h : t.IsDestination path dest)
    (h' : t.IsDestination path other) : dest = other := by
  obtain ⟨n, rfl, hn, hbefore⟩ := h
  obtain ⟨m, rfl, hm, hbefore'⟩ := h'
  rcases Nat.lt_trichotomy n m with hlt | rfl | hgt
  · exact absurd hn (hbefore' n hlt)
  · rfl
  · exact absurd hm (hbefore m hgt)

theorem WellFormed.not_takesItems_iff (h : t.WellFormed) {path : List String} :
    ¬ t.TakesItems path ↔ ∃ id < t.size, (t.node id).path = path ∧ t.sons id ≠ [] := by
  constructor
  · intro htakes
    by_contra hnone
    refine htakes fun id hfind => ?_
    by_contra hsons
    obtain ⟨hid, hpath⟩ := h.find?_eq_some_iff.mp hfind
    exact hnone ⟨id, hid, hpath, hsons⟩
  · rintro ⟨id, hid, hpath, hsons⟩ htakes
    exact hsons (htakes id (h.find?_eq_some_iff.mpr ⟨hid, hpath⟩))

/-- The items of every family have a place to go to. -/
theorem WellFormed.exists_isDestination (h : t.WellFormed) (path : List String) :
    ∃ dest, t.IsDestination path dest := by
  have hself : ∀ p, t.TakesItems p → ∃ dest, t.IsDestination p dest := fun p hp =>
    ⟨p, (isDestination_of_takesItems hp).mpr rfl⟩
  have hplace : ∀ id < t.size, ∃ dest, t.IsDestination (t.node id).path dest := by
    intro id
    induction id using h.sons_induction with
    | step id ih =>
      intro hid
      by_cases htakes : t.TakesItems (t.node id).path
      · exact hself _ htakes
      · simp only [isDestination_of_not_takesItems htakes]
        by_cases hsink : t.TakesItems ((t.node id).path ++ [sinkName])
        · exact hself _ hsink
        · -- the sink is there, and it lies below the family
          obtain ⟨sink, hlt, hpath, _⟩ := h.not_takesItems_iff.mp hsink
          have hson : t.son? id sinkName = some sink := by
            rw [h.son?_eq_find? hid, h.find?_eq_some_iff]
            exact ⟨hlt, hpath⟩
          rw [← hpath]
          exact ih sink (mem_sons_iff.mpr ⟨sinkName, hson⟩) hlt
  by_cases htakes : t.TakesItems path
  · exact hself path htakes
  · obtain ⟨id, hid, rfl, _⟩ := h.not_takesItems_iff.mp htakes
    exact hplace id hid

/-! ### Items that come together -/

/-- The places whose items come together at a place when every family hands its items on to its
sink: the place itself and, if it is the sink of its parent, the places whose items come together
there. -/
def feeders (t : Tree) (id : Nat) : List Nat :=
  match (t.node id).parent with
  | some parent =>
    if parent < id ∧ t.son? parent sinkName = some id then id :: feeders t parent else [id]
  | none => [id]
termination_by id
decreasing_by omega

/-- The items that come together at a place. -/
def pooledItems (t : Tree) (id : Nat) : List Item := (t.feeders id).flatMap t.items

theorem WellFormed.feeders_of_sink (h : t.WellFormed) {id parent : Nat}
    (hs : t.son? parent sinkName = some id) : t.feeders id = id :: t.feeders parent := by
  rw [feeders, (h.down parent sinkName id hs).2.1]
  exact if_pos ⟨h.lt_of_son? hs, hs⟩

theorem feeders_of_not_sink {id : Nat} (hs : ∀ parent, t.son? parent sinkName ≠ some id) :
    t.feeders id = [id] := by
  rw [feeders]
  cases (t.node id).parent with
  | none => rfl
  | some parent => exact if_neg fun hsink => hs parent hsink.2

theorem WellFormed.pooledItems_of_sink (h : t.WellFormed) {id parent : Nat}
    (hs : t.son? parent sinkName = some id) :
    t.pooledItems id = t.items id ++ t.pooledItems parent := by
  rw [pooledItems, h.feeders_of_sink hs, List.flatMap_cons]
  rfl

theorem pooledItems_of_not_sink {id : Nat} (hs : ∀ parent, t.son? parent sinkName ≠ some id) :
    t.pooledItems id = t.items id := by
  rw [pooledItems, feeders_of_not_sink hs, List.flatMap_singleton]

/-- A place is the sink of its parent or is no sink at all. -/
theorem WellFormed.feeders_induction (h : t.WellFormed) {P : Nat → Prop}
    (sink : ∀ id parent, t.son? parent sinkName = some id → P parent → P id)
    (other : ∀ id, (∀ parent, t.son? parent sinkName ≠ some id) → P id) (id : Nat) : P id := by
  induction id using Nat.strongRecOn with
  | ind id ih =>
    by_cases hs : ∃ parent, t.son? parent sinkName = some id
    · obtain ⟨parent, hs⟩ := hs
      exact sink id parent hs (ih parent (h.lt_of_son? hs))
    · exact other id fun parent hparent => hs ⟨parent, hparent⟩

/-- Items come together from the places from which a row of sinks leads on. -/
theorem WellFormed.mem_feeders_iff (h : t.WellFormed) {id m : Nat} (hid : id < t.size) :
    m ∈ t.feeders id ↔ m < t.size ∧
      ∃ n, (t.node id).path = (t.node m).path ++ List.replicate n sinkName := by
  have hstart : ∀ id < t.size, ∀ m, m < t.size →
      (t.node id).path = (t.node m).path ++ List.replicate 0 sinkName → m = id := by
    intro id hid m hm hpath
    rw [List.replicate_zero, List.append_nil] at hpath
    exact h.path_injective hm hid hpath.symm
  have hself : ∀ id < t.size, ∃ n,
      (t.node id).path = (t.node id).path ++ List.replicate n sinkName := fun _ _ =>
    ⟨0, (List.append_nil _).symm⟩
  induction id using h.feeders_induction with
  | sink id parent hs ih =>
    obtain ⟨_, _, hpath⟩ := h.down parent sinkName id hs
    have hparent : parent < t.size := Nat.lt_trans (h.lt_of_son? hs) hid
    rw [h.feeders_of_sink hs, List.mem_cons]
    constructor
    · rintro (rfl | hmem)
      · exact ⟨hid, hself m hid⟩
      · obtain ⟨hm, n, hn⟩ := (ih hparent).mp hmem
        refine ⟨hm, n + 1, ?_⟩
        rw [hpath, hn, List.replicate_succ', List.append_assoc]
    · rintro ⟨hm, n, hn⟩
      cases n with
      | zero => exact Or.inl (hstart id hid m hm hn)
      | succ n =>
        refine Or.inr ((ih hparent).mpr ⟨hm, n, ?_⟩)
        rw [hpath, List.replicate_succ', ← List.append_assoc] at hn
        exact List.append_cancel_right hn
  | other id hs =>
    rw [feeders_of_not_sink hs, List.mem_singleton]
    constructor
    · rintro rfl
      exact ⟨hid, hself m hid⟩
    · rintro ⟨hm, n, hn⟩
      cases n with
      | zero => exact hstart id hid m hm hn
      | succ n =>
        -- the path ends with the name of a sink, so its parent has it as one
        rw [List.replicate_succ', ← List.append_assoc] at hn
        have hne : id ≠ root := by
          rintro rfl
          rw [h.path_root] at hn
          exact absurd hn.symm (List.append_ne_nil_of_right_ne_nil _ (List.cons_ne_nil _ _))
        obtain ⟨parent, name, _, _, hpath, hson⟩ := h.exists_parent hid hne
        rw [hpath] at hn
        rw [(List.append_singleton_inj.mp hn).2] at hson
        exact absurd hson (hs parent)

theorem WellFormed.lt_size_of_mem_feeders (h : t.WellFormed) {id m : Nat} (hid : id < t.size)
    (hm : m ∈ t.feeders id) : m < t.size := ((h.mem_feeders_iff hid).mp hm).1

/-- The nearest places come first. -/
theorem WellFormed.pairwise_feeders (h : t.WellFormed) {id : Nat} (hid : id < t.size) :
    (t.feeders id).Pairwise fun a b => (t.node b).path.length < (t.node a).path.length := by
  induction id using h.feeders_induction with
  | sink id parent hs ih =>
    have hparent : parent < t.size := Nat.lt_trans (h.lt_of_son? hs) hid
    rw [h.feeders_of_sink hs, List.pairwise_cons]
    refine ⟨fun m hm => ?_, ih hparent⟩
    obtain ⟨_, n, hn⟩ := (h.mem_feeders_iff hparent).mp hm
    rw [(h.down parent sinkName id hs).2.2, hn]
    simp
  | other id hs =>
    rw [feeders_of_not_sink hs]
    exact List.pairwise_singleton _ _

/-! ### Whose destination a place is -/

/-- A family with sub-families does not take items. -/
theorem not_takesItems_of_has {path : List String} {name : String}
    (hson : t.has (path ++ [name]) = true) : ¬ t.TakesItems path := by
  obtain ⟨son, hfind⟩ := Option.isSome_iff_exists.mp hson
  rw [find?, findBelow?_append] at hfind
  obtain ⟨id, hid, hrest⟩ := Option.bind_eq_some_iff.mp hfind
  obtain ⟨_, hs, _⟩ := Option.bind_eq_some_iff.mp hrest
  intro htakes
  have hmem := WellFormed.mem_sons_iff.mpr ⟨name, hs⟩
  rw [htakes id hid] at hmem
  cases hmem

/-- On a row of sinks that leads to a family, all families before that one have sub-families. -/
theorem not_takesItems_before {path : List String} {n : Nat}
    (hlast : t.has (path ++ List.replicate n sinkName) = true) {k : Nat} (hk : k < n) :
    ¬ t.TakesItems (path ++ List.replicate k sinkName) := by
  obtain ⟨more, rfl⟩ := Nat.exists_eq_add_of_lt hk
  obtain ⟨last, hfind⟩ := Option.isSome_iff_exists.mp hlast
  have hsplit : path ++ List.replicate (k + more + 1) sinkName =
      (path ++ List.replicate k sinkName ++ [sinkName]) ++ List.replicate more sinkName := by
    rw [Nat.add_assoc, ← List.replicate_append_replicate, List.replicate_succ, ← List.append_assoc,
      ← List.singleton_append, ← List.append_assoc]
  rw [hsplit, find?, findBelow?_append] at hfind
  obtain ⟨son, hson, _⟩ := Option.bind_eq_some_iff.mp hfind
  exact not_takesItems_of_has (Option.isSome_iff_exists.mpr ⟨son, hson⟩)

/-- The items that come together at a family without sub-families end there. -/
theorem WellFormed.mem_feeders_iff_of_sons_nil (h : t.WellFormed) {id m : Nat} (hid : id < t.size)
    (hsons : t.sons id = []) :
    m ∈ t.feeders id ↔ m < t.size ∧ t.IsDestination (t.node m).path (t.node id).path := by
  rw [h.mem_feeders_iff hid]
  refine and_congr_right fun hm => ⟨?_, fun hdest => ?_⟩
  · rintro ⟨n, hn⟩
    have hhas := h.has_path hid
    rw [hn] at hhas
    refine ⟨n, hn, fun other hfind => ?_, fun k hk => not_takesItems_before hhas hk⟩
    rw [h.find?_path hid, Option.some.injEq] at hfind
    exact hfind ▸ hsons
  · obtain ⟨n, hn, _⟩ := hdest
    exact ⟨n, hn⟩

/-- The items that come together at a family whose sink is missing end in that sink. -/
theorem WellFormed.mem_feeders_iff_of_son_none (h : t.WellFormed) {id m : Nat} (hid : id < t.size)
    (hsons : t.sons id ≠ []) (hnone : t.son? id sinkName = none) :
    m ∈ t.feeders id ↔ m < t.size ∧
      t.IsDestination (t.node m).path ((t.node id).path ++ [sinkName]) := by
  have hmissing : t.find? ((t.node id).path ++ [sinkName]) = none := by
    rw [← h.son?_eq_find? hid]
    exact hnone
  rw [h.mem_feeders_iff hid]
  refine and_congr_right fun hm => ⟨?_, ?_⟩
  · rintro ⟨n, hn⟩
    have hhas := h.has_path hid
    rw [hn] at hhas
    refine ⟨n + 1, ?_, fun other hfind => ?_, fun k hk => ?_⟩
    · rw [hn, List.append_assoc, List.replicate_succ']
    · rw [hmissing] at hfind
      cases hfind
    · rcases Nat.lt_or_eq_of_le (Nat.le_of_lt_succ hk) with hlt | rfl
      · exact not_takesItems_before hhas hlt
      · rw [← hn]
        exact h.not_takesItems_iff.mpr ⟨id, hid, rfl, hsons⟩
  · rintro ⟨n, hn, _⟩
    cases n with
    | zero =>
      rw [List.replicate_zero, List.append_nil] at hn
      rw [hn, h.find?_path hm] at hmissing
      cases hmissing
    | succ n =>
      rw [List.replicate_succ', ← List.append_assoc] at hn
      exact ⟨n, List.append_cancel_right hn⟩

/-- A missing place to which items are bound is the missing sink of a family with sub-families. -/
theorem WellFormed.exists_of_isDestination_missing (h : t.WellFormed) {path dest : List String}
    (hdest : t.IsDestination path dest) (hhas : t.has path = true)
    (hmissing : t.find? dest = none) :
    ∃ id < t.size, dest = (t.node id).path ++ [sinkName] ∧ t.sons id ≠ [] ∧
      t.son? id sinkName = none := by
  obtain ⟨n, rfl, _, hbefore⟩ := hdest
  cases n with
  | zero =>
    rw [List.replicate_zero, List.append_nil] at hmissing
    rw [has, hmissing] at hhas
    cases hhas
  | succ n =>
    obtain ⟨id, hid, hpath, hsons⟩ := h.not_takesItems_iff.mp (hbefore n (Nat.lt_succ_self n))
    rw [List.replicate_succ', ← List.append_assoc, ← hpath] at hmissing ⊢
    exact ⟨id, hid, rfl, hsons, (h.son?_eq_find? hid _).trans hmissing⟩

end Catalog.Tree
