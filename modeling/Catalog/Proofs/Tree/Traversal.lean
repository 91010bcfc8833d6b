import Catalog.Proofs.Load.Families
import Catalog.Proofs.Tree.Preorder

/-!
# The walks taken step by step

The nodes below a node are met with a stack: the node on top is taken off, and its sons are put on
with the first of them on top. The nodes above it are met along the links to parents. On a
well-formed tree both walks come to an end, and what they meet is `Tree.subtree` and `Tree.parents`.

* `Yields` says what is met until nothing is left, `Tree.popNode` and `Tree.climb` are the steps;
* `WellFormed.yields_popNode` carries any stack to the end, `WellFormed.yields_climb` any node to
  the root;
* `WellFormed.map_path_parents` says that the paths above a node are the upper paths of its own;
* `Tree.WalksBelow` and `Tree.WalksAbove` say what a walk has to meet and in which order, and
  `WellFormed.walks_exactly` that the walks do.
-/

namespace Catalog

open Std

/-- Steps are taken as long as there is one, and each yields a value. -/
inductive Yields {σ α : Type} (next? : σ → Option (α × σ)) : σ → List α → Prop
  | done {s : σ} (hnext : next? s = none) : Yields next? s []
  | step {s s' : σ} {a : α} {rest : List α} (hnext : next? s = some (a, s'))
    (hrest : Yields next? s' rest) : Yields next? s (a :: rest)

theorem Yields.unique {σ α : Type} {next? : σ → Option (α × σ)} {s : σ} {xs ys : List α}
    (hxs : Yields next? s xs) (hys : Yields next? s ys) : ys = xs := by
  induction hxs generalizing ys with
  | done hnext =>
    cases hys with
    | done => rfl
    | step hother => cases hnext.symm.trans hother
  | step hnext _ ih =>
    cases hys with
    | done hother => cases hnext.symm.trans hother
    | step hother hrest =>
      cases hnext.symm.trans hother
      rw [ih hrest]

theorem Yields.iff_eq {σ α : Type} {next? : σ → Option (α × σ)} {s : σ} {xs ys : List α}
    (hxs : Yields next? s xs) : Yields next? s ys ↔ ys = xs := by
  constructor
  · exact hxs.unique
  · rintro rfl
    exact hxs

/-! ### Upper paths -/

theorem upperPaths_concat (path : List String) (name : String) :
    upperPaths (path ++ [name]) true = upperPaths path true ++ [path ++ [name]] := by
  have htake : ∀ n ∈ List.range' 0 (path.length + 1), (path ++ [name]).take n = path.take n := by
    intro n hn
    rw [List.mem_range'_1] at hn
    exact List.take_append_of_le_length (by omega)
  simp only [upperPaths, if_true, List.length_append, List.length_singleton]
  rw [List.range'_concat, List.map_append, List.map_congr_left htake]
  simp [List.take_of_length_le]

/-- Only the empty path is left out. -/
theorem upperPaths_without_root (path : List String) :
    upperPaths path false = (upperPaths path true).tail := by
  simp [upperPaths, List.range'_succ]

namespace Tree

variable {t : Tree} {id : Nat}

/-- A node with its path, as the walk below gives it. -/
def withPath (t : Tree) (id : Nat) : List String × Nat := ((t.node id).path, id)

/-- A step of the walk below. The top of the stack is its end. -/
def popNode (t : Tree) (stack : List Nat) : Option ((List String × Nat) × List Nat) :=
  stack.getLast?.map fun id => (t.withPath id, stack.dropLast ++ (t.sons id).reverse)

/-- A step of the walk above. -/
def climb (t : Tree) (next : Option Nat) : Option (Nat × Option Nat) :=
  next.map fun id => (id, (t.node id).parent)

theorem popNode_concat (t : Tree) (stack : List Nat) (id : Nat) :
    t.popNode (stack ++ [id]) = some (t.withPath id, stack ++ (t.sons id).reverse) := by
  simp [popNode]

/-- The walk below a node gives every node whose path goes on from its own, with this path, and in
this order. -/
structure WalksBelow (t : Tree) (id : Nat) (walk : List (List String × Nat)) : Prop where
  mem : ∀ path m, (path, m) ∈ walk ↔ m < t.size ∧ (t.node m).path = path ∧ (t.node id).path <+: path
  nodup : (walk.map Prod.snd).Nodup
  increasing : walk.Pairwise fun a b => compare a.1 b.1 = .lt
  /-- No node comes after one that lies below it. -/
  family_first : walk.Pairwise fun a b => ¬ b.1 <+: a.1

/-- The walk above a node gives the nodes of the proper prefixes of its path, and in this order. -/
structure WalksAbove (t : Tree) (id : Nat) (walk : List Nat) : Prop where
  mem : ∀ m, m ∈ walk ↔ m < t.size ∧ (t.node m).path <+: (t.node id).path ∧
    (t.node m).path ≠ (t.node id).path
  /-- Every proper prefix has a node. -/
  complete : ∀ path, path <+: (t.node id).path → path ≠ (t.node id).path →
    ∃ m ∈ walk, (t.node m).path = path
  longest_first : walk.Pairwise fun a b => (t.node b).path.length < (t.node a).path.length
  /-- Looking the upper paths up finds the same nodes from the other end, and then the node
  itself. -/
  lookup : (upperPaths (t.node id).path true).map t.find? = (walk.reverse ++ [id]).map some
  lookup_without_root :
    (upperPaths (t.node id).path false).map t.find? = (walk.reverse ++ [id]).tail.map some

namespace WellFormed

variable (h : t.WellFormed)

include h

/-! ### Below a node -/

/-- What is on the stack is walked through from its top. -/
theorem yields_popNode (pending : List Nat) :
    Yields t.popNode pending.reverse ((pending.flatMap t.subtree).map t.withPath) := by
  -- each step takes one node from what is still to be met
  induction hn : (pending.flatMap t.subtree).length using Nat.strongRecOn generalizing pending with
  | ind n ih =>
    cases pending with
    | nil => exact .done rfl
    | cons id rest =>
      have hsplit : (id :: rest).flatMap t.subtree =
          id :: (t.sons id ++ rest).flatMap t.subtree := by
        rw [List.flatMap_cons, h.subtree_eq id, List.flatMap_append, List.cons_append]
      have hless : ((t.sons id ++ rest).flatMap t.subtree).length < n := by
        rw [← hn, hsplit]
        exact Nat.lt_succ_self _
      rw [hsplit, List.map_cons, List.reverse_cons]
      refine .step (t.popNode_concat rest.reverse id) ?_
      rw [← List.reverse_append]
      exact ih _ hless _ rfl

theorem walksBelow_subtree (hid : id < t.size) :
    t.WalksBelow id ((t.subtree id).map t.withPath) where
  mem path m := by
    rw [List.mem_map]
    constructor
    · rintro ⟨n, hn, heq⟩
      cases heq
      obtain ⟨hsize, hpre⟩ := h.path_of_mem_subtree hid hn
      exact ⟨hsize, rfl, hpre⟩
    · rintro ⟨hsize, rfl, hpre⟩
      exact ⟨m, (h.mem_subtree_iff hid).mpr ⟨hid, hsize, hpre⟩, rfl⟩
  nodup := by
    have hplaces : ((t.subtree id).map t.withPath).map Prod.snd = t.subtree id := by
      rw [List.map_map]
      exact List.map_id _
    rw [hplaces]
    exact h.nodup_subtree hid
  increasing := List.pairwise_map.mpr (h.increasing_subtree hid)
  family_first := List.pairwise_map.mpr ((h.increasing_subtree hid).imp not_prefix_of_lt)

/-! ### Above a node -/

theorem yields_climb (hid : id < t.size) : Yields t.climb (t.node id).parent (t.parents id) := by
  induction id using Nat.strongRecOn with
  | ind id ih =>
    cases hp : (t.node id).parent with
    | none =>
      rw [parents_of_none hp]
      exact .done rfl
    | some parent =>
      obtain ⟨hlt, _⟩ := h.mem_sons_of_parent hid hp
      rw [h.parents_of_some hid hp]
      exact .step rfl (ih parent hlt (Nat.lt_trans hlt hid))

/-- The paths of the nodes above a node and of itself are the upper paths of its path. -/
theorem map_path_parents (hid : id < t.size) :
    ((t.parents id).reverse ++ [id]).map (fun m => (t.node m).path) =
      upperPaths (t.node id).path true := by
  induction id using Nat.strongRecOn with
  | ind id ih =>
    by_cases hroot : id = root
    · subst hroot
      rw [parents_of_none h.parent_root]
      simp [h.path_root, upperPaths]
    · obtain ⟨parent, name, hlt, hp, hpath, _⟩ := h.exists_parent hid hroot
      have hparent := ih parent hlt (Nat.lt_trans hlt hid)
      rw [h.parents_of_some hid hp, hpath, upperPaths_concat, ← hparent, List.reverse_cons,
        List.map_append, List.map_singleton, hpath]

/-- Looking up the upper paths of a node finds the nodes above it, and then itself. -/
theorem map_find?_upperPaths (hid : id < t.size) :
    (upperPaths (t.node id).path true).map t.find? = ((t.parents id).reverse ++ [id]).map some := by
  rw [← h.map_path_parents hid, List.map_map]
  refine List.map_congr_left ?_
  intro m hm
  refine h.find?_path ?_
  rcases List.mem_append.mp hm with hm | hm
  · exact Nat.lt_trans (lt_of_mem_parents (List.mem_reverse.mp hm)) hid
  · rwa [List.mem_singleton.mp hm]

theorem mem_parents_iff_ne (hid : id < t.size) {m : Nat} :
    m ∈ t.parents id ↔
      m < t.size ∧ (t.node m).path <+: (t.node id).path ∧ (t.node m).path ≠ (t.node id).path := by
  constructor
  · intro hm
    obtain ⟨hsize, _, hpre⟩ := (h.mem_parents_iff hid).mp (Or.inr hm)
    refine ⟨hsize, hpre, fun heq => ?_⟩
    exact Nat.ne_of_lt (lt_of_mem_parents hm) (h.path_injective hsize hid heq)
  · rintro ⟨hsize, hpre, hne⟩
    rcases (h.mem_parents_iff hid).mpr ⟨hsize, hid, hpre⟩ with rfl | hm
    · exact absurd rfl hne
    · exact hm

theorem length_path_of_mem_parents (hid : id < t.size) {m : Nat} (hm : m ∈ t.parents id) :
    (t.node m).path.length < (t.node id).path.length := by
  obtain ⟨_, hpre, hne⟩ := (h.mem_parents_iff_ne hid).mp hm
  exact Nat.lt_of_le_of_ne hpre.length_le (mt hpre.eq_of_length hne)

theorem decreasing_parents (hid : id < t.size) :
    (t.parents id).Pairwise fun a b => (t.node b).path.length < (t.node a).path.length := by
  induction id using Nat.strongRecOn with
  | ind id ih =>
    cases hp : (t.node id).parent with
    | none =>
      rw [parents_of_none hp]
      exact .nil
    | some parent =>
      obtain ⟨hlt, _⟩ := h.mem_sons_of_parent hid hp
      have hparent : parent < t.size := Nat.lt_trans hlt hid
      rw [h.parents_of_some hid hp]
      exact .cons (fun m hm => h.length_path_of_mem_parents hparent hm) (ih parent hlt hparent)

theorem walksAbove_parents (hid : id < t.size) : t.WalksAbove id (t.parents id) where
  mem _ := h.mem_parents_iff_ne hid
  complete path hpre hne := by
    have hmem : path ∈ upperPaths (t.node id).path true := mem_upperPaths_root.mpr hpre
    rw [← h.map_path_parents hid, List.map_append, List.mem_append] at hmem
    rcases hmem with hmem | hmem
    · obtain ⟨m, hm, hpath⟩ := List.mem_map.mp hmem
      exact ⟨m, List.mem_reverse.mp hm, hpath⟩
    · exact absurd (List.mem_singleton.mp hmem) hne
  longest_first := h.decreasing_parents hid
  lookup := h.map_find?_upperPaths hid
  lookup_without_root := by
    rw [upperPaths_without_root, List.map_tail, h.map_find?_upperPaths hid, List.map_tail]

omit h in
/-- Both walks from a node come to an end, and they meet the nodes below and above it in the order
of their paths, so that sorting all families by their paths changes nothing. -/
theorem walks_exactly (h : t.WellFormed) (hid : id < t.size) :
    (∀ walk, Yields t.popNode [id] walk ↔ walk = (t.subtree id).map t.withPath) ∧
      t.WalksBelow id ((t.subtree id).map t.withPath) ∧
      (∀ walk, Yields t.climb (t.node id).parent walk ↔ walk = t.parents id) ∧
      t.WalksAbove id (t.parents id) ∧
      t.byPath = t.all := by
  have hbelow : Yields t.popNode [id] ((t.subtree id).map t.withPath) := by
    simpa using h.yields_popNode [id]
  exact ⟨fun _ => hbelow.iff_eq, h.walksBelow_subtree hid, fun _ => (h.yields_climb hid).iff_eq,
    h.walksAbove_parents hid, h.byPath_eq⟩

end WellFormed

/-- The walks from a family whose sons were made in another order than that of their names. -/
theorem walks_of_family_with_two_sons :
    let t := (((∅ : Tree).create ["Sales", "North"]).1.create ["Sales", "East"]).1
    t.WellFormed ∧ 1 < t.size ∧
      (∀ walk, Yields t.popNode [1] walk ↔
        walk = [(["Sales"], 1), (["Sales", "East"], 3), (["Sales", "North"], 2)]) ∧
      t.WalksBelow 1 [(["Sales"], 1), (["Sales", "East"], 3), (["Sales", "North"], 2)] ∧
      (∀ walk, Yields t.climb (t.node 1).parent walk ↔ walk = [0]) ∧
      t.WalksAbove 1 [0] ∧ t.byPath = t.all := by
  intro t
  have hreachable : t.Reachable := .create _ (.create _ .empty (by decide)) (by decide)
  have h : t.WellFormed := hreachable.wellFormed
  have hsize : 1 < t.size := by decide +kernel
  have hsubtree : (t.subtree 1).map t.withPath =
      [(["Sales"], 1), (["Sales", "East"], 3), (["Sales", "North"], 2)] := by decide +kernel
  have hparents : t.parents 1 = [0] := by decide +kernel
  have hwalks := h.walks_exactly hsize
  rw [hsubtree, hparents] at hwalks
  exact ⟨h, hsize, hwalks⟩

end Tree

end Catalog
