import Catalog.Proofs.Tree.WellFormed

/-!
# The order of the walk

On a well-formed tree the walk of `Tree.subtree` meets exactly the nodes at and below its start, in
the order of their paths. So every node is met once and after its parent, which is what sweeps over
all nodes rest on.

* `Tree.Covers` is the relation between a node and those at or below it, by their paths;
* `WellFormed.mem_subtree_iff` and `WellFormed.mem_parents_iff` say that both walks follow it;
* `WellFormed.increasing_subtree` says that the paths along the walk increase strictly;
* `WellFormed.son_mem_after` and `WellFormed.parent_mem_before` place the sons and the parent of a
  node in the walk over all nodes;
* `sweep_forward` and `sweep_backward` carry an invariant along a list, which holds of the part that
  has been met.
-/

namespace Catalog

open Std

/-! ### Paths in order -/

theorem compare_append_cons_of_lt {p q r : List String} {a b : String} (h : compare a b = .lt) :
    compare (p ++ a :: q) (p ++ b :: r) = .lt := by
  induction p with
  | nil => simp [h]
  | cons c p ih => simpa [ReflCmp.compare_self] using ih

theorem compare_append_cons_self (p q : List String) (a : String) :
    compare p (p ++ a :: q) = .lt := by
  induction p with
  | nil => rfl
  | cons c p ih => simpa [ReflCmp.compare_self] using ih

/-- A path comes after the paths that start it. -/
theorem not_prefix_of_lt {p q : List String} (h : compare p q = .lt) : ¬ q <+: p := by
  rintro ⟨rest, rfl⟩
  cases rest with
  | nil => exact ne_of_compare_lt h (List.append_nil q)
  | cons name rest => exact OrientedCmp.not_lt_of_lt h (compare_append_cons_self q rest name)

/-! ### Sweeps -/

section Sweep

variable {σ : Type} (step : σ → Nat → σ) (Inv : List Nat → σ → Prop) {order : List Nat} {s : σ}

/-- A sweep from the front: the invariant speaks of the places met so far. -/
theorem sweep_forward
    (hstep : ∀ before id after s, order = before ++ id :: after → Inv before s →
      Inv (before ++ [id]) (step s id))
    (hstart : Inv [] s) : Inv order (order.foldl step s) := by
  have go : ∀ (after before : List Nat) (s : σ), order = before ++ after → Inv before s →
      Inv order (after.foldl step s) := by
    intro after
    induction after with
    | nil =>
      intro before s hsplit hinv
      rw [List.append_nil] at hsplit
      rw [hsplit]
      exact hinv
    | cons id rest ih =>
      intro before s hsplit hinv
      exact ih (before ++ [id]) (step s id) (by rw [hsplit]; simp)
        (hstep before id rest s hsplit hinv)
  exact go order [] s rfl hstart

/-- A sweep from the back: the invariant speaks of the places met so far. -/
theorem sweep_backward
    (hstep : ∀ before id after s, order = before ++ id :: after → Inv after s →
      Inv (id :: after) (step s id))
    (hstart : Inv [] s) : Inv order (order.reverse.foldl step s) := by
  have go : ∀ (before after : List Nat) (s : σ), order = before.reverse ++ after → Inv after s →
      Inv order (before.foldl step s) := by
    intro before
    induction before with
    | nil =>
      intro after s hsplit hinv
      rw [hsplit]
      exact hinv
    | cons id rest ih =>
      intro after s hsplit hinv
      have hsplit' : order = rest.reverse ++ id :: after := by
        rw [hsplit]
        simp
      exact ih (id :: after) (step s id) hsplit' (hstep rest.reverse id after s hsplit' hinv)
  exact go order.reverse [] s (by simp) hstart

end Sweep

namespace Tree

variable {t : Tree}

/-- The first node is the second or lies above it. -/
def Covers (t : Tree) (m n : Nat) : Prop :=
  m < t.size ∧ n < t.size ∧ (t.node m).path <+: (t.node n).path

theorem SameLinks.covers_iff {u : Tree} (h : SameLinks t u) {m n : Nat} :
    u.Covers m n ↔ t.Covers m n := by
  simp only [Covers, h.size, h.path]

namespace WellFormed

/-! ### Along the sons -/

/-- What holds of a node whenever it holds of its sons holds of every node. -/
theorem sons_induction (h : t.WellFormed) {P : Nat → Prop}
    (step : ∀ id, (∀ son ∈ t.sons id, P son) → P id) (id : Nat) : P id := by
  induction hn : t.size - id using Nat.strongRecOn generalizing id with
  | ind n ih =>
    refine step id fun son hson => ?_
    obtain ⟨hlt, hsize, _⟩ := h.of_mem_sons hson
    exact ih (t.size - son) (by omega) son rfl

/-- On a well-formed tree the walk needs no check of its bounds. -/
theorem subtree_eq (h : t.WellFormed) (id : Nat) :
    t.subtree id = id :: (t.sons id).flatMap t.subtree := by
  rw [subtree.eq_def t id, List.flatMap_def, List.flatMap_def]
  refine congrArg (id :: ·) (congrArg List.flatten (List.map_congr_left fun son hson => ?_))
  obtain ⟨hlt, hsize, _⟩ := h.of_mem_sons hson
  exact if_pos ⟨hlt, hsize⟩

theorem mem_subtree_iff_sons (h : t.WellFormed) {id m : Nat} :
    m ∈ t.subtree id ↔ m = id ∨ ∃ son ∈ t.sons id, m ∈ t.subtree son := by
  rw [h.subtree_eq id, List.mem_cons, List.mem_flatMap]

theorem path_of_mem_subtree (h : t.WellFormed) {id m : Nat} (hid : id < t.size)
    (hm : m ∈ t.subtree id) : m < t.size ∧ (t.node id).path <+: (t.node m).path := by
  induction id using h.sons_induction with
  | step id ih =>
    rcases h.mem_subtree_iff_sons.mp hm with rfl | ⟨son, hson, hm⟩
    · exact ⟨hid, List.prefix_refl _⟩
    · obtain ⟨name, hs⟩ := mem_sons_iff.mp hson
      obtain ⟨hlt, _, hpath⟩ := h.down id name son hs
      obtain ⟨hsize, hpre⟩ := ih son hson hlt hm
      refine ⟨hsize, List.IsPrefix.trans ?_ hpre⟩
      rw [hpath]
      exact List.prefix_append _ _

theorem mem_subtree_of_findBelow? (h : t.WellFormed) {id m : Nat} {path : List String}
    (hf : t.findBelow? id path = some m) : m ∈ t.subtree id := by
  induction path generalizing id with
  | nil =>
    cases hf
    exact self_mem_subtree t _
  | cons name rest ih =>
    obtain ⟨son, hs, hrest⟩ := Option.bind_eq_some_iff.mp hf
    exact h.mem_subtree_iff_sons.mpr (Or.inr ⟨son, mem_sons_iff.mpr ⟨name, hs⟩, ih hrest⟩)

/-- The walk from a node meets the nodes at and below it. -/
theorem mem_subtree_iff (h : t.WellFormed) {id m : Nat} (hid : id < t.size) :
    m ∈ t.subtree id ↔ t.Covers id m := by
  constructor
  · intro hm
    obtain ⟨hsize, hpre⟩ := h.path_of_mem_subtree hid hm
    exact ⟨hid, hsize, hpre⟩
  · intro hex
    obtain ⟨_, hsize, rest, hrest⟩ := hex
    have hf := h.find?_path hsize
    have hstart : t.findBelow? root (t.node id).path = some id := h.find?_path hid
    rw [← hrest, find?, findBelow?_append, hstart, Option.bind_some] at hf
    exact h.mem_subtree_of_findBelow? hf

theorem mem_all_iff (h : t.WellFormed) {id : Nat} : id ∈ t.all ↔ id < t.size := by
  rw [all, h.mem_subtree_iff h.root_lt]
  constructor
  · intro hex
    obtain ⟨_, hid, _⟩ := hex
    exact hid
  · intro hid
    refine ⟨h.root_lt, hid, ?_⟩
    rw [h.path_root]
    exact List.nil_prefix

/-- A node covers those below it through one of its sons. -/
theorem covers_iff_sons (h : t.WellFormed) {id m : Nat} (hid : id < t.size) :
    t.Covers id m ↔ m = id ∨ ∃ son ∈ t.sons id, t.Covers son m := by
  rw [← h.mem_subtree_iff hid, h.mem_subtree_iff_sons]
  refine or_congr_right (exists_congr fun son => and_congr_right fun hson => ?_)
  exact h.mem_subtree_iff (h.of_mem_sons hson).2.1

/-! ### Along the parents -/

theorem covers_self {id : Nat} (hid : id < t.size) : t.Covers id id :=
  ⟨hid, hid, List.prefix_refl _⟩

/-- The root covers every node. -/
theorem covers_root (h : t.WellFormed) {id : Nat} (hid : id < t.size) : t.Covers root id := by
  refine ⟨h.root_lt, hid, ?_⟩
  rw [h.path_root]
  exact List.nil_prefix

/-- A node is covered by itself and by those that cover its parent. -/
theorem covers_iff_parent (h : t.WellFormed) {id m parent : Nat} (hid : id < t.size)
    (hp : (t.node id).parent = some parent) : t.Covers m id ↔ m = id ∨ t.Covers m parent := by
  have hne : id ≠ root := by
    rintro rfl
    rw [h.parent_root] at hp
    cases hp
  obtain ⟨other, name, hlt, hother, hpath, _⟩ := h.exists_parent hid hne
  rw [hp, Option.some.injEq] at hother
  subst hother
  constructor
  · intro hex
    obtain ⟨hm, _, hpre⟩ := hex
    rw [hpath, List.prefix_concat_iff] at hpre
    rcases hpre with heq | hpre
    · exact Or.inl (h.path_injective hm hid (heq.trans hpath.symm))
    · exact Or.inr ⟨hm, Nat.lt_trans hlt hid, hpre⟩
  · intro hor
    rcases hor with rfl | ⟨hm, _, hpre⟩
    · exact covers_self hid
    · refine ⟨hm, hid, hpre.trans ?_⟩
      rw [hpath]
      exact List.prefix_append _ _

theorem covers_iff_of_root (h : t.WellFormed) {id m : Nat} (hid : id < t.size)
    (hp : (t.node id).parent = none) : t.Covers m id ↔ m = id := by
  have hroot : id = root := Decidable.byContradiction fun hne => by
    obtain ⟨parent, _, _, hparent, _⟩ := h.exists_parent hid hne
    rw [hp] at hparent
    cases hparent
  subst hroot
  constructor
  · intro hex
    obtain ⟨hm, _, hpre⟩ := hex
    rw [h.path_root] at hpre
    exact h.path_injective hm hid ((List.prefix_nil.mp hpre).trans h.path_root.symm)
  · rintro rfl
    exact covers_self hid

/-- Nothing lies above a node without a parent. -/
theorem parents_of_none {id : Nat} (hp : (t.node id).parent = none) : t.parents id = [] := by
  rw [parents, hp]

/-- On a well-formed tree the walk to the root needs no check of its bounds either. -/
theorem parents_of_some (h : t.WellFormed) {id parent : Nat} (hid : id < t.size)
    (hp : (t.node id).parent = some parent) : t.parents id = parent :: t.parents parent := by
  rw [parents, hp]
  exact if_pos (h.mem_sons_of_parent hid hp).1

/-- The walk to the root meets the nodes above a node. -/
theorem mem_parents_iff (h : t.WellFormed) {id m : Nat} (hid : id < t.size) :
    m = id ∨ m ∈ t.parents id ↔ t.Covers m id := by
  induction id using Nat.strongRecOn with
  | ind id ih =>
    cases hp : (t.node id).parent with
    | none => simp [parents_of_none hp, h.covers_iff_of_root hid hp]
    | some parent =>
      obtain ⟨hlt, _⟩ := h.mem_sons_of_parent hid hp
      rw [h.parents_of_some hid hp, List.mem_cons, ih parent hlt (Nat.lt_trans hlt hid),
        h.covers_iff_parent hid hp]

/-! ### The order of the walk -/

/-- The paths of the nodes that the walk meets increase. -/
theorem increasing_subtree (h : t.WellFormed) {id : Nat} (hid : id < t.size) :
    (t.subtree id).Pairwise fun a b => compare (t.node a).path (t.node b).path = .lt := by
  induction id using h.sons_induction with
  | step id ih =>
    have hsons : ∀ e ∈ (t.node id).sons.entries,
        e.2 < t.size ∧ (t.node e.2).path = (t.node id).path ++ [e.1] := by
      intro e he
      obtain ⟨hlt, _, hpath⟩ := h.down id e.1 e.2 (SortedMap.mem_entries_iff.mp he)
      exact ⟨hlt, hpath⟩
    rw [h.subtree_eq id, List.pairwise_cons, List.pairwise_flatMap]
    refine ⟨fun m hm => ?_, fun son hson => ?_, ?_⟩
    · -- the node itself comes before everything below it
      obtain ⟨son, hson, hm⟩ := List.mem_flatMap.mp hm
      obtain ⟨e, he, rfl⟩ := List.mem_map.mp hson
      obtain ⟨hlt, hpath⟩ := hsons e he
      obtain ⟨_, rest, hrest⟩ := h.path_of_mem_subtree hlt hm
      rw [← hrest, hpath, List.append_assoc, List.singleton_append]
      exact compare_append_cons_self _ _ _
    · exact ih son hson (h.of_mem_sons hson).2.1
    · -- everything below one son comes before everything below a later one
      refine List.pairwise_map.mpr
        ((t.node id).sons.increasing.imp_of_mem fun he hf hlt x hx y hy => ?_)
      obtain ⟨hes, hepath⟩ := hsons _ he
      obtain ⟨hfs, hfpath⟩ := hsons _ hf
      obtain ⟨_, r, hr⟩ := h.path_of_mem_subtree hes hx
      obtain ⟨_, s, hs⟩ := h.path_of_mem_subtree hfs hy
      rw [← hr, ← hs, hepath, hfpath, List.append_assoc, List.append_assoc, List.singleton_append,
        List.singleton_append]
      exact compare_append_cons_of_lt hlt

theorem nodup_subtree (h : t.WellFormed) {id : Nat} (hid : id < t.size) : (t.subtree id).Nodup :=
  (h.increasing_subtree hid).imp fun hlt heq =>
    ne_of_compare_lt hlt (congrArg (fun m => (t.node m).path) heq)

theorem nodup_all (h : t.WellFormed) : t.all.Nodup := h.nodup_subtree h.root_lt

theorem lt_size_of_split (h : t.WellFormed) {before after : List Nat} {id : Nat}
    (hall : t.all = before ++ id :: after) : id < t.size := by
  rw [← h.mem_all_iff, hall]
  simp

/-- The walk over all nodes meets a node once. -/
theorem not_mem_rest (h : t.WellFormed) {before rest : List Nat} {id : Nat}
    (hall : t.all = before ++ rest) (hmem : id ∈ before) : id ∉ rest := by
  have hnodup := h.nodup_all
  rw [hall, List.nodup_append] at hnodup
  intro hrest
  exact hnodup.2.2 id hmem id hrest rfl

theorem not_mem_before (h : t.WellFormed) {before after : List Nat} {id : Nat}
    (hall : t.all = before ++ id :: after) : id ∉ before := by
  intro hmem
  exact h.not_mem_rest hall hmem List.mem_cons_self

/-- The walk over all nodes meets the sons of a node after the node. -/
theorem son_mem_after (h : t.WellFormed) {before after : List Nat} {id son : Nat}
    (hall : t.all = before ++ id :: after) (hson : son ∈ t.sons id) : son ∈ after := by
  obtain ⟨name, hs⟩ := mem_sons_iff.mp hson
  obtain ⟨hlt, _, hpath⟩ := h.down id name son hs
  have hord : compare (t.node id).path (t.node son).path = .lt := by
    rw [hpath]
    exact compare_append_cons_self _ _ _
  have hinc := h.increasing_subtree h.root_lt
  rw [← all, hall, List.pairwise_append] at hinc
  have hmem : son ∈ t.all := h.mem_all_iff.mpr hlt
  rw [hall, List.mem_append, List.mem_cons] at hmem
  rcases hmem with hbefore | rfl | hafter
  · exact absurd (hinc.2.2 son hbefore id List.mem_cons_self) (OrientedCmp.not_lt_of_lt hord)
  · exact absurd rfl (ne_of_compare_lt hord)
  · exact hafter

/-- The walk over all nodes meets the parent of a node before the node. -/
theorem parent_mem_before (h : t.WellFormed) {before after : List Nat} {id parent : Nat}
    (hall : t.all = before ++ id :: after) (hp : (t.node id).parent = some parent) :
    parent ∈ before := by
  have hid : id < t.size := h.lt_size_of_split hall
  obtain ⟨hlt, hson⟩ := h.mem_sons_of_parent hid hp
  have hmem : parent ∈ t.all := h.mem_all_iff.mpr (Nat.lt_trans hlt hid)
  rw [hall, List.mem_append, List.mem_cons] at hmem
  rcases hmem with hbefore | heq | hafter
  · exact hbefore
  · omega
  · -- a parent that came later would have the node after itself, and the node is met once
    obtain ⟨front, rest, rfl⟩ := List.append_of_mem hafter
    have hall' : t.all = (before ++ id :: front) ++ parent :: rest := by
      rw [hall]
      simp
    have hrest := h.son_mem_after hall' hson
    exact absurd (List.mem_cons_of_mem _ hrest) (h.not_mem_rest hall' (by simp))

end WellFormed

end Tree

end Catalog
