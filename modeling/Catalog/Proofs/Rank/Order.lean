import Catalog.Rank

/-!
# The order of ranks

Ranks are ordered first by kind and within a kind by their values, and a missing rank comes before
all others. This is a total order, so sorting by it has one result up to the order of equal ranks.

* `isLE_total` and `pairwise_mergeSort_lt` are about sorting by any such order;
* `Rank.compare_of_kind_ne` says that kinds decide where they differ;
* the instances for `Rank.compare` and `Rank.compareOptional` are the laws of a total order, and
  only equal ranks compare as equal.
-/

namespace Catalog

open Std

/-- An order of which both directions agree puts one of two before the other. -/
theorem isLE_total {α : Type} (cmp : α → α → Ordering) [OrientedCmp cmp] (a b : α) :
    ((cmp a b).isLE || (cmp b a).isLE) = true := by
  have h : cmp a b = (cmp b a).swap := OrientedCmp.eq_swap
  rw [h]
  cases cmp b a <;> rfl

/-- Sorting a list of which no two compare as equal puts it strictly in order. -/
theorem pairwise_mergeSort_lt {α : Type} (cmp : α → α → Ordering) [TransCmp cmp] {xs : List α}
    (h : xs.Pairwise fun a b => cmp a b ≠ .eq) :
    (xs.mergeSort fun a b => (cmp a b).isLE).Pairwise fun a b => cmp a b = .lt := by
  have hsorted : (xs.mergeSort fun a b => (cmp a b).isLE).Pairwise fun a b =>
      (cmp a b).isLE = true :=
    List.pairwise_mergeSort (fun _ _ _ => TransCmp.isLE_trans) (isLE_total cmp) xs
  have hsymm : ∀ {a b : α}, cmp a b ≠ .eq → cmp b a ≠ .eq :=
    fun hne heq => hne (OrientedCmp.eq_symm heq)
  have hapart := ((List.mergeSort_perm xs fun a b => (cmp a b).isLE).pairwise_iff hsymm).mpr h
  refine (hsorted.and hapart).imp ?_
  rintro a b ⟨hle, hne⟩
  exact (Ordering.isLE_iff_eq_lt_or_eq_eq.mp hle).resolve_right hne

namespace RankKind

instance : TransOrd RankKind where
  eq_swap {a b} := by cases a <;> cases b <;> rfl
  isLE_trans {a b c} := by cases a <;> cases b <;> cases c <;> decide

instance : LawfulEqOrd RankKind where
  eq_of_compare {a b} := by cases a <;> cases b <;> decide

end RankKind

namespace Rank

variable {a b c : Rank}

theorem compare_of_kind_ne (h : a.kind ≠ b.kind) : a.compare b = Ord.compare a.kind b.kind := by
  cases a <;> cases b <;> simp_all [Rank.compare, kind]

instance : OrientedCmp Rank.compare where
  eq_swap {a b} := by
    by_cases h : a.kind = b.kind
    · cases a <;> cases b <;> simp only [kind, reduceCtorEq] at h <;> exact OrientedOrd.eq_swap
    · rw [compare_of_kind_ne h, compare_of_kind_ne (Ne.symm h)]
      exact OrientedOrd.eq_swap

theorem isLE_kind (h : (a.compare b).isLE = true) : (Ord.compare a.kind b.kind).isLE = true := by
  by_cases hk : a.kind = b.kind
  · rw [hk]
    exact ReflOrd.isLE_rfl
  · rw [← compare_of_kind_ne hk]
    exact h

instance : TransCmp Rank.compare where
  isLE_trans {a b c} hab hbc := by
    have hkinds : (Ord.compare a.kind c.kind).isLE = true :=
      TransOrd.isLE_trans (isLE_kind hab) (isLE_kind hbc)
    by_cases hac : a.kind = c.kind
    · -- the kind in the middle lies between two equal ones
      have hba : (Ord.compare b.kind a.kind).isLE = true := by
        rw [hac]
        exact isLE_kind hbc
      have hk : a.kind = b.kind :=
        LawfulEqOrd.eq_of_compare (OrientedCmp.isLE_antisymm (isLE_kind hab) hba)
      rw [hk] at hac
      cases a <;> cases b <;> simp only [kind, reduceCtorEq] at hk <;>
        cases c <;> simp only [kind, reduceCtorEq] at hac <;> exact TransOrd.isLE_trans hab hbc
    · rw [compare_of_kind_ne hac]
      exact hkinds

instance : LawfulEqCmp Rank.compare where
  eq_of_compare {a b} h := by
    by_cases hk : a.kind = b.kind
    · cases a <;> cases b <;> simp only [kind, reduceCtorEq] at hk
      · exact congrArg Rank.bool (LawfulEqOrd.eq_of_compare h)
      · exact congrArg Rank.int (LawfulEqOrd.eq_of_compare h)
      · exact congrArg Rank.float (Binary64.orderKey_injective (LawfulEqOrd.eq_of_compare h))
      · exact congrArg Rank.text (LawfulEqOrd.eq_of_compare h)
    · rw [compare_of_kind_ne hk] at h
      exact absurd (LawfulEqOrd.eq_of_compare h) hk

instance : TransCmp compareOptional where
  eq_swap {a b} := by
    cases a <;> cases b
    case some.some a b =>
      show a.compare b = (b.compare a).swap
      exact OrientedCmp.eq_swap
    all_goals rfl
  isLE_trans {a b c} hab hbc := by
    cases a with
    | none => cases c <;> rfl
    | some a =>
      cases b with
      | none => cases hab
      | some b =>
        cases c with
        | none => cases hbc
        | some c =>
          have hab' : (a.compare b).isLE = true := hab
          have hbc' : (b.compare c).isLE = true := hbc
          show (a.compare c).isLE = true
          exact TransCmp.isLE_trans hab' hbc'

instance : LawfulEqCmp compareOptional where
  eq_of_compare {a b} h := by
    cases a <;> cases b
    case none.none => rfl
    case some.some a b =>
      have h' : a.compare b = .eq := h
      exact congrArg some (LawfulEqCmp.eq_of_compare h')
    all_goals cases h

end Rank

end Catalog
