import Catalog.Proofs.Normal.Numbering
import Catalog.Proofs.Tree.SortedSons

/-!
# Sorting by ranks

Only equal ranks compare as equal, so a list of items or of families in the order of their ranks is
determined up to the order of those that share one, and stable sorting leaves no choice at all.

* `IsTotalOrder` collects the laws of an order that an equality agrees with;
* `IsSortedBy` and `IsStablySortedBy` say which lists may come out of sorting, and `SortsUniquely`
  that these differ in nothing that their keys tell apart;
* `eq_of_membersAt_eq` is the reason: of two lists in order, the members of the least key come first
  in both;
* `Rank.ordersUniquely` says that ranks, also missing ones, are in a total order, and that items and
  families are sorted by it in one way.
-/

namespace Catalog

open Std

/-! ### Orders -/

/-- The laws of a total order in which only what is the same compares as equal, and of an equality
that agrees. -/
structure IsTotalOrder {α : Type} (cmp : α → α → Ordering) (equal : α → α → Bool)
    (same : α → α → Prop) : Prop where
  refl : ∀ a, cmp a a = .eq
  swap : ∀ a b, cmp b a = (cmp a b).swap
  antisymm : ∀ a b, (cmp a b).isLE = true → (cmp b a).isLE = true → a = b
  trans : ∀ a b c, (cmp a b).isLE = true → (cmp b c).isLE = true → (cmp a c).isLE = true
  total : ∀ a b, (cmp a b).isLE = true ∨ (cmp b a).isLE = true
  eq_iff : ∀ a b, cmp a b = .eq ↔ same a b
  equal_iff : ∀ a b, equal a b = true ↔ cmp a b = .eq

theorem isTotalOrder_of_lawful {α : Type} {cmp : α → α → Ordering} {equal : α → α → Bool}
    {same : α → α → Prop}
    [TransCmp cmp] [LawfulEqCmp cmp] (hequal : ∀ a b, equal a b = (cmp a b == .eq))
    (hsame : ∀ a b, same a b ↔ a = b) : IsTotalOrder cmp equal same where
  refl _ := ReflCmp.compare_self
  swap _ _ := OrientedCmp.eq_swap
  antisymm _ _ hab hba := LawfulEqCmp.eq_of_compare (OrientedCmp.isLE_antisymm hab hba)
  trans _ _ _ := TransCmp.isLE_trans
  total a b := Bool.or_eq_true_iff.mp (isLE_total cmp a b)
  eq_iff a b := by rw [LawfulEqCmp.compare_eq_iff_eq, hsame]
  equal_iff a b := by rw [hequal, beq_iff_eq]

/-! ### Sorted lists -/

section Sorting

variable {α κ : Type} {cmp : κ → κ → Ordering} {key : α → κ} {xs ys zs : List α} {y z : α} {k : κ}

/-- The members of a list whose keys compare as equal to a given one. -/
def membersAt (cmp : κ → κ → Ordering) (key : α → κ) (k : κ) (xs : List α) : List α :=
  xs.filter fun a => cmp k (key a) == .eq

/-- The second list has the members of the first in the order of their keys. -/
structure IsSortedBy (cmp : κ → κ → Ordering) (key : α → κ) (xs ys : List α) : Prop where
  perm : ys.Perm xs
  sorted : ys.Pairwise fun a b => (cmp (key a) (key b)).isLE = true

/-- Moreover the members of equal keys are in the order in which they were. -/
structure IsStablySortedBy (cmp : κ → κ → Ordering) (key : α → κ) (xs ys : List α) : Prop
    extends IsSortedBy cmp key xs ys where
  stable : ∀ k, membersAt cmp key k ys = membersAt cmp key k xs

/-- However a list is sorted, the keys come out in one order, and stable sorting has one result. -/
structure SortsUniquely (cmp : κ → κ → Ordering) (key : α → κ) (xs result : List α) : Prop where
  keys : ∀ ys, IsSortedBy cmp key xs ys → ys.map key = result.map key
  stable : ∀ ys, IsStablySortedBy cmp key xs ys ↔ ys = result

theorem IsSortedBy.map_key_eq [TransCmp cmp] [LawfulEqCmp cmp] (hys : IsSortedBy cmp key xs ys)
    (hzs : IsSortedBy cmp key xs zs) : ys.map key = zs.map key := by
  have hkeys : ∀ {us : List α}, IsSortedBy cmp key xs us →
      (us.map key).Pairwise fun k l => (cmp k l).isLE = true :=
    fun h => List.pairwise_map.mpr h.sorted
  refine List.Perm.eq_of_pairwise (fun k l _ _ hkl hlk => ?_) (hkeys hys) (hkeys hzs)
    ((hys.perm.trans hzs.perm.symm).map key)
  exact LawfulEqCmp.eq_of_compare (OrientedCmp.isLE_antisymm hkl hlk)

theorem membersAt_cons_of_eq (h : cmp k (key y) = .eq) :
    membersAt cmp key k (y :: ys) = y :: membersAt cmp key k ys :=
  List.filter_cons_of_pos (beq_iff_eq.mpr h)

theorem membersAt_cons_of_ne (h : cmp k (key y) ≠ .eq) :
    membersAt cmp key k (y :: ys) = membersAt cmp key k ys :=
  List.filter_cons_of_neg (mt beq_iff_eq.mp h)

theorem mem_membersAt_iff : y ∈ membersAt cmp key k ys ↔ y ∈ ys ∧ cmp k (key y) = .eq := by
  rw [membersAt, List.mem_filter, beq_iff_eq]

theorem mem_membersAt_key (cmp : κ → κ → Ordering) [TransCmp cmp] (key : α → κ) :
    y ∈ membersAt cmp key (key y) ys ↔ y ∈ ys := by
  rw [mem_membersAt_iff]
  exact and_iff_left ReflCmp.compare_self

/-- The first of a list in order is not behind any member of a list that has the same members at
each key. -/
theorem isLE_head_of_membersAt_eq [TransCmp cmp]
    (hys : (y :: ys).Pairwise fun a b => (cmp (key a) (key b)).isLE = true)
    (h : ∀ k, membersAt cmp key k (y :: ys) = membersAt cmp key k zs) (hz : z ∈ zs) :
    (cmp (key y) (key z)).isLE = true := by
  rw [← mem_membersAt_key cmp key, ← h, mem_membersAt_key] at hz
  rcases List.mem_cons.mp hz with rfl | hz
  · exact ReflCmp.isLE_rfl
  · exact List.rel_of_pairwise_cons hys hz

/-- Two lists in order that have the same members at each key are the same: both start with the
members of the least key. -/
theorem eq_of_membersAt_eq [TransCmp cmp]
    (hys : ys.Pairwise fun a b => (cmp (key a) (key b)).isLE = true)
    (hzs : zs.Pairwise fun a b => (cmp (key a) (key b)).isLE = true)
    (h : ∀ k, membersAt cmp key k ys = membersAt cmp key k zs) : ys = zs := by
  induction ys generalizing zs with
  | nil =>
    refine (List.eq_nil_iff_forall_not_mem.mpr fun z hz => ?_).symm
    rw [← mem_membersAt_key cmp key, ← h] at hz
    cases hz
  | cons y ys ih =>
    cases zs with
    | nil =>
      have hy : y ∈ membersAt cmp key (key y) (y :: ys) :=
        (mem_membersAt_key cmp key).mpr List.mem_cons_self
      rw [h] at hy
      cases hy
    | cons z zs =>
      have hyz : cmp (key y) (key z) = .eq :=
        OrientedCmp.isLE_antisymm (isLE_head_of_membersAt_eq hys h List.mem_cons_self)
          (isLE_head_of_membersAt_eq hzs (fun k => (h k).symm) List.mem_cons_self)
      have hfirst := h (key y)
      rw [membersAt_cons_of_eq ReflCmp.compare_self, membersAt_cons_of_eq hyz] at hfirst
      obtain ⟨rfl, _⟩ := List.cons.inj hfirst
      -- without the first member the two lists still have the same members at each key
      rw [ih hys.of_cons hzs.of_cons fun k => ?_]
      have hk := h k
      by_cases hky : cmp k (key y) = .eq
      · rw [membersAt_cons_of_eq hky, membersAt_cons_of_eq hky] at hk
        exact (List.cons.inj hk).2
      · rw [membersAt_cons_of_ne hky, membersAt_cons_of_ne hky] at hk
        exact hk

/-- A list that may come out of stable sorting is the only one. -/
theorem IsStablySortedBy.sortsUniquely [TransCmp cmp] [LawfulEqCmp cmp]
    (h : IsStablySortedBy cmp key xs zs) : SortsUniquely cmp key xs zs where
  keys _ hys := hys.map_key_eq h.toIsSortedBy
  stable ys := by
    constructor
    · intro hys
      exact eq_of_membersAt_eq hys.sorted h.sorted fun k => (hys.stable k).trans (h.stable k).symm
    · rintro rfl
      exact h

end Sorting

/-! ### Ranks -/

namespace Rank

/-- Two ranks are of one kind and have one value. Floating-point numbers have it bit for bit. -/
def SameValue : Rank → Rank → Prop
  | .bool a, .bool b => a = b
  | .int i, .int j => i = j
  | .float x, .float y => x.bits = y.bits
  | .text s, .text t => s = t
  | _, _ => False

theorem sameValue_iff {a b : Rank} : SameValue a b ↔ a = b := by
  rcases a with _ | _ | ⟨⟨x⟩⟩ | _ <;> rcases b with _ | _ | ⟨⟨y⟩⟩ | _ <;> simp [SameValue]

theorem rel_sameValue_iff {a b : Option Rank} : Option.Rel SameValue a b ↔ a = b := by
  cases a <;> cases b <;> simp [sameValue_iff]

end Rank

/-! ### Items -/

theorem Family.isStablySortedBy_sortItems (items : List Item) :
    IsStablySortedBy Rank.compareOptional Item.rank items (sortItems items) where
  perm := perm_sortItems items
  sorted := pairwise_sortItems items
  stable r := by
    have hrank : ∀ items : List Item,
        membersAt Rank.compareOptional Item.rank r items =
          items.filter fun item => item.rank = r := by
      refine fun items => List.filter_congr fun item _ => ?_
      rw [Bool.eq_iff_iff, beq_iff_eq, LawfulEqCmp.compare_eq_iff_eq, decide_eq_true_eq, eq_comm]
    rw [hrank, hrank, filter_rank_sortItems]

/-! ### Families -/

namespace Tree

variable {t : Tree} {id : Nat}

/-- The rank of a son, which has a name and a place. -/
def sonRank (t : Tree) (son : String × Nat) : Option Rank := (t.family son.2).rank

/-- Sons come in the order of their names, and this is what sorting them by rank and name leaves to
those of one rank. -/
theorem isStablySortedBy_sortedSons (t : Tree) (id : Nat) :
    IsStablySortedBy Rank.compareOptional t.sonRank (t.node id).sons.entries (t.sortedSons id) where
  perm := perm_sortedSons t id
  sorted := by
    refine (t.increasing_sortedSons id).imp fun {a b} hlt => ?_
    rcases compareSons_eq_lt_iff.mp hlt with hrank | ⟨hrank, _⟩
    · rw [sonRank, sonRank, hrank]
      rfl
    · rw [sonRank, sonRank, hrank]
      exact ReflCmp.isLE_rfl
  stable r := by
    have hnames : (membersAt Rank.compareOptional t.sonRank r (t.sortedSons id)).Pairwise fun a b =>
        compare a.1 b.1 = .lt := by
      refine ((t.increasing_sortedSons id).filter _).imp_of_mem fun {a b} ha hb hlt => ?_
      rcases compareSons_eq_lt_iff.mp hlt with hless | ⟨_, hname⟩
      · -- both have the rank `r`, so neither has a lesser one
        have hra : r = (t.family a.2).rank := LawfulEqCmp.eq_of_compare (mem_membersAt_iff.mp ha).2
        have hrb : r = (t.family b.2).rank := LawfulEqCmp.eq_of_compare (mem_membersAt_iff.mp hb).2
        rw [← hra, ← hrb] at hless
        cases hless.symm.trans ReflCmp.compare_self
      · exact hname
    have hentries := (t.node id).sons.increasing.filter fun son =>
        Rank.compareOptional r (t.sonRank son) == .eq
    refine List.Perm.eq_of_pairwise (fun a b _ _ hab hba => ?_)
      hnames hentries ((perm_sortedSons t id).filter _)
    exact absurd hab (OrientedCmp.not_lt_of_lt hba)

/-- No two sons have one name, so by rank and name there is one order only. -/
theorem isSortedBy_compareSons_iff {sons : List (String × Nat)} :
    IsSortedBy t.compareSons (fun son => son) (t.node id).sons.entries sons ↔
      sons = t.sortedSons id := by
  have hsorted : (t.sortedSons id).Pairwise fun a b => (t.compareSons a b).isLE = true :=
    (t.increasing_sortedSons id).imp fun hlt => by rw [hlt]; rfl
  constructor
  · intro h
    have hperm : sons.Perm (t.sortedSons id) := h.perm.trans (perm_sortedSons t id).symm
    refine List.Perm.eq_of_pairwise (fun a b ha hb hab hba => ?_) h.sorted hsorted hperm
    have heq : t.compareSons a b = .eq := OrientedCmp.isLE_antisymm hab hba
    rw [compareSons, Ordering.then_eq_eq] at heq
    have hname : a.1 = b.1 := LawfulEqOrd.eq_of_compare heq.2
    have hplace : t.son? id a.1 = some a.2 := mem_sortedSons_iff.mp (hperm.mem_iff.mp ha)
    rw [hname, mem_sortedSons_iff.mp hb, Option.some.injEq] at hplace
    exact Prod.ext hname hplace.symm
  · rintro rfl
    exact ⟨perm_sortedSons t id, hsorted⟩

end Tree

/-- Ranks are in a total order with the missing rank before them, and only ranks of one kind and one
value are equal. So however items and families are sorted by it, the ranks come out in one order.
Stable sorting has one result, and so has any sorting of families by rank and name. -/
theorem Rank.ordersUniquely :
    IsTotalOrder Rank.compare (fun r q => r == q) SameValue ∧
      IsTotalOrder compareOptional (fun r q => r == q) (Option.Rel SameValue) ∧
      (∀ items, SortsUniquely compareOptional Item.rank items (Family.sortItems items)) ∧
      ∀ (t : Tree) (id : Nat),
        SortsUniquely compareOptional t.sonRank (t.node id).sons.entries (t.sortedSons id) ∧
          ∀ sons, IsSortedBy t.compareSons (fun son => son) (t.node id).sons.entries sons ↔
            sons = t.sortedSons id := by
  refine ⟨isTotalOrder_of_lawful (fun _ _ => rfl) fun _ _ => sameValue_iff,
    isTotalOrder_of_lawful (fun r q => ?_) fun _ _ => rel_sameValue_iff, fun items => ?_,
    fun t id => ⟨?_, fun sons => ?_⟩⟩
  · cases r <;> cases q <;> rfl
  · exact (Family.isStablySortedBy_sortItems items).sortsUniquely
  · exact (t.isStablySortedBy_sortedSons id).sortsUniquely
  · exact Tree.isSortedBy_compareSons_iff

/-- What is no number comes last, or first with a sign, and minus zero comes before zero. -/
example :
    let special : List Binary64 :=
      [⟨0xFFF8000000000000⟩, .infinity true, ⟨0x8000000000000000⟩, ⟨0⟩, .infinity false, .nan]
    special.Pairwise fun x y => Rank.compare (.float x) (.float y) = .lt := by
  decide

end Catalog
