import Mathlib.Data.List.Forall2
import Mathlib.Data.List.Perm.Basic

/-!
# Matching lists

The members of two lists match if they can be paired, one with one, such that a relation holds of
every pair. The order of the lists does not matter.

* `Matches` is this relation between lists. It is weakened by `Matches.imp`, carried along
  permutations and maps, and composed by `Matches.comp`;
* `matches_of_perm_map` says that lists with the same images match by their images.
-/

namespace Catalog

variable {α β γ : Type} {R : α → β → Prop} {S : β → γ → Prop} {xs xs' : List α} {ys ys' : List β}
  {zs : List γ}

/-- Every member of the first list is related to a member of its own of the second, and there are no
others. -/
def Matches (R : α → β → Prop) (xs : List α) (ys : List β) : Prop :=
  ∃ items, List.Forall₂ R xs items ∧ items.Perm ys

theorem matches_of_perm {us : List α} (h : xs.Perm us) : Matches Eq xs us :=
  ⟨xs, List.forall₂_same.mpr fun _ _ => rfl, h⟩

theorem matches_map {f : α → β} (h : ∀ x ∈ xs, R x (f x)) : Matches R xs (xs.map f) :=
  ⟨xs.map f, List.forall₂_map_right_iff.mpr (List.forall₂_same.mpr h), List.Perm.refl _⟩

theorem matches_of_map {f : β → α} (h : ∀ y ∈ ys, R (f y) y) : Matches R (ys.map f) ys :=
  ⟨ys, List.forall₂_map_left_iff.mpr (List.forall₂_same.mpr h), List.Perm.refl _⟩

theorem Matches.imp {T : α → β → Prop} (h : Matches R xs ys) (hT : ∀ x y, R x y → T x y) :
    Matches T xs ys := by
  obtain ⟨us, hxs, hus⟩ := h
  exact ⟨us, hxs.imp hT, hus⟩

theorem Matches.trans_perm (h : Matches R xs ys) (hperm : ys.Perm ys') : Matches R xs ys' := by
  obtain ⟨us, hxs, hus⟩ := h
  exact ⟨us, hxs, hus.trans hperm⟩

theorem forall₂_comp {T : α → γ → Prop} (hT : ∀ x y z, R x y → S y z → T x z)
    (h : List.Forall₂ R xs ys) (h' : List.Forall₂ S ys zs) : List.Forall₂ T xs zs := by
  induction h generalizing zs with
  | nil =>
    cases h'
    exact .nil
  | cons hxy _ ih =>
    cases h' with
    | cons hyz hrest => exact .cons (hT _ _ _ hxy hyz) (ih hrest)

theorem Matches.comp {T : α → γ → Prop} (h : Matches R xs ys) (h' : Matches S ys zs)
    (hT : ∀ x y z, R x y → S y z → T x z) : Matches T xs zs := by
  obtain ⟨us, hxs, hus⟩ := h
  obtain ⟨vs, hys, hvs⟩ := h'
  obtain ⟨ws, hws, hperm⟩ := List.perm_comp_forall₂ hus hys
  exact ⟨ws, forall₂_comp hT hxs hws, hperm.trans hvs⟩

theorem Matches.map {α' β' : Type} {T : α' → β' → Prop} {f : α → α'} {g : β → β'}
    (h : Matches R xs ys) (hT : ∀ x y, R x y → T (f x) (g y)) :
    Matches T (xs.map f) (ys.map g) := by
  obtain ⟨us, hxs, hperm⟩ := h
  refine ⟨us.map g, ?_, hperm.map g⟩
  rw [List.forall₂_map_left_iff, List.forall₂_map_right_iff]
  exact hxs.imp hT

theorem Matches.append (h : Matches R xs ys) (h' : Matches R xs' ys') :
    Matches R (xs ++ xs') (ys ++ ys') := by
  obtain ⟨us, hxs, hus⟩ := h
  obtain ⟨vs, hxs', hvs⟩ := h'
  exact ⟨us ++ vs, List.rel_append hxs hxs', hus.append hvs⟩

theorem matches_flatMap {f : Nat → List α} {g : Nat → List β} {ids : List Nat}
    (h : ∀ id ∈ ids, Matches R (f id) (g id)) : Matches R (ids.flatMap f) (ids.flatMap g) := by
  induction ids with
  | nil => exact ⟨[], .nil, List.Perm.refl _⟩
  | cons id rest ih =>
    exact (h id List.mem_cons_self).append (ih fun other hother =>
      h other (List.mem_cons_of_mem _ hother))

/-- Lists with the same images match by their images. -/
theorem matches_of_perm_map {f : α → γ} {g : β → γ} (h : (xs.map f).Perm (ys.map g)) :
    Matches (fun x y => f x = g y) xs ys := by
  have himages : Matches (fun x c => f x = c) xs (ys.map g) :=
    (matches_map fun _ _ => rfl).comp (matches_of_perm h) fun _ _ _ hx hc => hx.trans hc
  exact himages.comp (matches_of_map (R := fun c y => c = g y) fun _ _ => rfl) fun _ _ _ hx hy =>
    hx.trans hy

theorem Matches.mem_right (h : Matches R xs ys) : Matches (fun x y => y ∈ ys ∧ R x y) xs ys := by
  obtain ⟨us, hxs, hperm⟩ := h
  have hmem : ∀ y ∈ us, y ∈ ys := fun y => hperm.mem_iff.mp
  refine ⟨us, List.Forall₂.flip ?_, hperm⟩
  exact (List.forall₂_and_left us xs).mpr ⟨hmem, List.Forall₂.flip hxs⟩

end Catalog
