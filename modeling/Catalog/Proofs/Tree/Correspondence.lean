import Catalog.Proofs.Tree.Paths

/-!
# Trees that correspond by paths

Two trees may have come to the same families in different orders. Then a family stands in one place
in the one tree and in another place in the other, and its items may be in another order too.

* `Family.Alike` says that two families differ in the order of their items at most;
* `Tree.Corresponds` says that two trees have families with the same paths, alike in pairs;
* `Tree.Paired` relates the two places of one path: `Corresponds.exists_paired` finds the one from
  the other, and `Corresponds.of_families` is how a change of families in their places keeps the
  correspondence.
-/

namespace Catalog

namespace Family

variable {f g : Family}

/-- The second family differs from the first in the order of its items at most. -/
structure Alike (f g : Family) : Prop where
  frame : g = { f with items := g.items }
  items : f.items.Perm g.items

namespace Alike

theorem refl (f : Family) : Alike f f := ⟨rfl, List.Perm.refl _⟩

theorem symm (h : Alike f g) : Alike g f where
  frame := by rw [h.frame]
  items := h.items.symm

theorem rank_eq (h : Alike f g) : g.rank = f.rank := by rw [h.frame]

end Alike

end Family

namespace Tree

variable {t u v w : Tree} {i j : Nat}

/-- The places of one path in two trees. -/
structure Paired (t u : Tree) (i j : Nat) : Prop where
  left_lt : i < t.size
  right_lt : j < u.size
  path : (u.node j).path = (t.node i).path

/-- The second tree has families with the paths of the first, each of them alike to the one with its
path. -/
structure Corresponds (t u : Tree) : Prop where
  left : t.WellFormed
  right : u.WellFormed
  has_eq : ∀ path, u.has path = t.has path
  alike : ∀ path, (t.familyAt path).Alike (u.familyAt path)

theorem Paired.symm (h : Paired t u i j) : Paired u t j i := ⟨h.right_lt, h.left_lt, h.path.symm⟩

namespace Corresponds

theorem symm (h : Corresponds t u) : Corresponds u t where
  left := h.right
  right := h.left
  has_eq path := (h.has_eq path).symm
  alike path := (h.alike path).symm

/-- A path leads nowhere in both trees or to two places. -/
theorem find?_cases (h : Corresponds t u) (path : List String) :
    (t.find? path = none ∧ u.find? path = none) ∨
      ∃ i j, t.find? path = some i ∧ u.find? path = some j ∧ Paired t u i j := by
  have hhas := h.has_eq path
  cases hi : t.find? path with
  | none =>
    rw [has_eq_false_iff.mpr hi] at hhas
    exact Or.inl ⟨rfl, has_eq_false_iff.mp hhas⟩
  | some i =>
    rw [has, has, hi, Option.isSome_some] at hhas
    obtain ⟨j, hj⟩ := Option.isSome_iff_exists.mp hhas
    obtain ⟨hlt, hpath⟩ := h.left.find?_eq_some_iff.mp hi
    obtain ⟨hlt', hpath'⟩ := h.right.find?_eq_some_iff.mp hj
    exact Or.inr ⟨i, j, rfl, hj, hlt, hlt', hpath'.trans hpath.symm⟩

theorem exists_paired (h : Corresponds t u) (hi : i < t.size) : ∃ j, Paired t u i j := by
  have hhas := h.left.has_path hi
  rw [← h.has_eq] at hhas
  obtain ⟨j, hj, hpath⟩ := h.right.has_iff.mp hhas
  exact ⟨j, hi, hj, hpath⟩

theorem family_alike (h : Corresponds t u) (hij : Paired t u i j) :
    (t.family i).Alike (u.family j) := by
  have halike := h.alike (t.node i).path
  rw [h.left.familyAt_path hij.left_lt, ← hij.path, h.right.familyAt_path hij.right_lt] at halike
  exact halike

/-- Families may be changed in their places, as long as those of one path stay alike. -/
theorem of_families (h : Corresponds t u) (ht : SameLinks t v) (hu : SameLinks u w)
    (halike : ∀ i j, Paired t u i j → (v.family i).Alike (w.family j)) : Corresponds v w where
  left := ht.wellFormed h.left
  right := hu.wellFormed h.right
  has_eq path := by rw [ht.has_eq, hu.has_eq, h.has_eq]
  alike path := by
    rcases h.find?_cases path with ⟨hi, hj⟩ | ⟨i, j, hi, hj, hij⟩
    · rw [familyAt_of_not_has (has_eq_false_iff.mpr ((ht.find? path).trans hi)),
        familyAt_of_not_has (has_eq_false_iff.mpr ((hu.find? path).trans hj))]
      exact Family.Alike.refl _
    · rw [familyAt_of_find? ((ht.find? path).trans hi),
        familyAt_of_find? ((hu.find? path).trans hj)]
      exact halike i j hij

/-- Places of different paths stay apart. -/
theorem paired_iff (h : Corresponds t u) (hij : Paired t u i j) {k l : Nat} (hkl : Paired t u k l) :
    k = i ↔ l = j := by
  constructor
  · rintro rfl
    exact h.right.path_injective hkl.right_lt hij.right_lt (hkl.path.trans hij.path.symm)
  · rintro rfl
    exact h.left.path_injective hkl.left_lt hij.left_lt (hkl.path.symm.trans hij.path)

/-- Two alike families may be put into the two places of a path. -/
theorem modify (h : Corresponds t u) (hij : Paired t u i j) {f g : Family} (hfg : f.Alike g) :
    Corresponds (t.modify i fun _ => f) (u.modify j fun _ => g) := by
  refine h.of_families (sameLinks_modify t i _) (sameLinks_modify u j _) fun k l hkl => ?_
  by_cases e : k = i
  · have e' : l = j := (h.paired_iff hij hkl).mp e
    subst e e'
    rw [family_modify_self hij.left_lt, family_modify_self hij.right_lt]
    exact hfg
  · rw [family_modify_of_ne e, family_modify_of_ne fun e' => e ((h.paired_iff hij hkl).mpr e')]
    exact h.family_alike hkl

end Corresponds

end Tree

end Catalog
