import Catalog.Proofs.Rank.Order
import Catalog.Proofs.Tree.WellFormed

/-!
# Sons in the order of their ranks

Sons are ordered by their ranks, and those of equal rank by their names. No two sons of a node have
one name, so this order is strict and the list of the sons in it is the only one.

* the instance for `Tree.compareSons` is the law of a total order, and `Tree.compareSons_eq_lt_iff`
  says what it is;
* `Tree.ListsSons` says that a list holds every son of a node once and in this order, and
  `Tree.WellFormed.listsSons_sortedSons` that the sorted sons do.
-/

namespace Catalog.Tree

open Std

variable {t : Tree} {id : Nat}

instance (t : Tree) : TransCmp t.compareSons :=
  letI : Ord (Option Rank) := ⟨Rank.compareOptional⟩
  haveI : TransOrd (Option Rank) := inferInstanceAs (TransCmp Rank.compareOptional)
  inferInstanceAs (TransCmp (compareLex (compareOn fun son : String × Nat => (t.family son.2).rank)
    (compareOn Prod.fst)))

/-- The lesser rank comes first, and of equal ranks the lesser name. -/
theorem compareSons_eq_lt_iff {a b : String × Nat} :
    t.compareSons a b = .lt ↔
      Rank.compareOptional (t.family a.2).rank (t.family b.2).rank = .lt ∨
        (t.family a.2).rank = (t.family b.2).rank ∧ compare a.1 b.1 = .lt := by
  rw [compareSons, Ordering.then_eq_lt, LawfulEqCmp.compare_eq_iff_eq]

/-- A list of names and places: every son of a node under its name, once, in the order of ranks and
names. -/
structure ListsSons (t : Tree) (id : Nat) (sons : List (String × Nat)) : Prop where
  mem : ∀ name son, (name, son) ∈ sons ↔ t.son? id name = some son
  nodup : (sons.map Prod.snd).Nodup
  increasing : sons.Pairwise fun a b =>
    Rank.compareOptional (t.family a.2).rank (t.family b.2).rank = .lt ∨
    (t.family a.2).rank = (t.family b.2).rank ∧ compare a.1 b.1 = .lt

theorem mem_sortedSons_iff {name : String} {son : Nat} :
    (name, son) ∈ t.sortedSons id ↔ t.son? id name = some son := by
  rw [(perm_sortedSons t id).mem_iff, SortedMap.mem_entries_iff]
  rfl

/-- The sorted sons have names of their own. -/
theorem names_sortedSons_ne (t : Tree) (id : Nat) :
    (t.sortedSons id).Pairwise fun a b => a.1 ≠ b.1 := by
  have hnames : (t.node id).sons.entries.Pairwise fun a b => a.1 ≠ b.1 :=
    (t.node id).sons.increasing.imp fun hlt => ne_of_compare_lt hlt
  exact ((perm_sortedSons t id).pairwise_iff fun hne => Ne.symm hne).mpr hnames

theorem increasing_sortedSons (t : Tree) (id : Nat) :
    (t.sortedSons id).Pairwise fun a b => t.compareSons a b = .lt := by
  refine pairwise_mergeSort_lt t.compareSons
    ((t.node id).sons.increasing.imp fun {a b} hlt heq => ?_)
  rw [compareSons, Ordering.then_eq_eq, hlt] at heq
  cases heq.2

/-- A son has one name only. -/
theorem WellFormed.name_eq (h : t.WellFormed) {name other : String} {son : Nat}
    (hname : t.son? id name = some son) (hother : t.son? id other = some son) : name = other := by
  have hpath := (h.down id name son hname).2.2
  rw [(h.down id other son hother).2.2] at hpath
  exact (List.singleton_inj.mp (List.append_cancel_left hpath)).symm

theorem WellFormed.listsSons_sortedSons (h : t.WellFormed) (id : Nat) :
    t.ListsSons id (t.sortedSons id) where
  mem name son := mem_sortedSons_iff
  nodup := by
    refine List.pairwise_map.mpr ((t.names_sortedSons_ne id).imp_of_mem ?_)
    intro a b ha hb hne hplace
    have ha' : t.son? id a.1 = some a.2 := mem_sortedSons_iff.mp ha
    have hb' : t.son? id b.1 = some b.2 := mem_sortedSons_iff.mp hb
    rw [← hplace] at hb'
    exact hne (h.name_eq ha' hb')
  increasing := (t.increasing_sortedSons id).imp compareSons_eq_lt_iff.mp

end Catalog.Tree
