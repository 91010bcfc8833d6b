/-!
# Sets in increasing order

A `SortedSet` keeps its members as one strictly increasing list, so two sets with the same members
are equal and every walk over a set visits the members in order.

* `SortedSet.insert` adds one member and leaves a set that already has it as it was;
* `SortedSet.union` and `SortedSet.ofList` are folds of `insert`;
* `mem_insert`, `mem_union` and `mem_ofList` say which members these have;
* `SortedSet.ext_mem` says that a set is determined by its members.
-/

namespace Catalog

open Std

/-- A finite set, kept as the strictly increasing list of its members. -/
structure SortedSet (α : Type) [Ord α] where
  toList : List α
  increasing : toList.Pairwise (fun a b => compare a b = .lt)
  deriving DecidableEq

namespace SortedSet

variable {α : Type} [Ord α]

/-- Puts a member in its place in an increasing list, unless an equal one is there. -/
def place (a : α) : List α → List α
  | [] => [a]
  | b :: rest =>
    match compare a b with
    | .lt => a :: b :: rest
    | .eq => b :: rest
    | .gt => b :: place a rest

theorem mem_place [LawfulEqOrd α] {a c : α} {members : List α} :
    c ∈ place a members ↔ c = a ∨ c ∈ members := by
  induction members with
  | nil => simp [place]
  | cons b rest ih =>
    unfold place
    split
    · simp
    · next h =>
      have hab : a = b := LawfulEqOrd.eq_of_compare h
      simp [hab]
    · simp only [List.mem_cons, ih]
      constructor
      · rintro (h | h | h) <;> simp [h]
      · rintro (h | h | h) <;> simp [h]

theorem increasing_place [TransOrd α] [LawfulEqOrd α] (a : α) {members : List α}
    (h : members.Pairwise (fun a b => compare a b = .lt)) :
    (place a members).Pairwise (fun a b => compare a b = .lt) := by
  induction members with
  | nil => simp [place]
  | cons b rest ih =>
    obtain ⟨hb, hrest⟩ := List.pairwise_cons.mp h
    unfold place
    split
    · next hab =>
      refine List.pairwise_cons.mpr ⟨fun c hc => ?_, h⟩
      rcases List.mem_cons.mp hc with rfl | hc
      · exact hab
      · exact TransCmp.lt_trans hab (hb c hc)
    · exact h
    · next hab =>
      refine List.pairwise_cons.mpr ⟨fun c hc => ?_, ih hrest⟩
      rcases mem_place.mp hc with rfl | hc
      · exact OrientedCmp.lt_of_gt hab
      · exact hb c hc

/-- The set without members. -/
def empty : SortedSet α := ⟨[], List.Pairwise.nil⟩

instance : EmptyCollection (SortedSet α) := ⟨empty⟩
instance : Inhabited (SortedSet α) := ⟨∅⟩
instance : Membership α (SortedSet α) := ⟨fun s a => a ∈ s.toList⟩

instance [DecidableEq α] (a : α) (s : SortedSet α) : Decidable (a ∈ s) :=
  inferInstanceAs (Decidable (a ∈ s.toList))

@[simp] theorem mem_toList {a : α} {s : SortedSet α} : a ∈ s.toList ↔ a ∈ s := Iff.rfl

@[simp] theorem not_mem_empty (a : α) : ¬ a ∈ (∅ : SortedSet α) := by
  intro h
  cases h

/-- Whether the set has no member. -/
def isEmpty (s : SortedSet α) : Bool := s.toList.isEmpty

section Construction

variable [TransOrd α] [LawfulEqOrd α]

/-- The set with one more member. -/
def insert (a : α) (s : SortedSet α) : SortedSet α :=
  ⟨place a s.toList, increasing_place a s.increasing⟩

@[simp] theorem mem_insert {a c : α} {s : SortedSet α} : c ∈ s.insert a ↔ c = a ∨ c ∈ s :=
  mem_place

/-- The set with all members of a list added. -/
def insertAll (s : SortedSet α) (members : List α) : SortedSet α :=
  members.foldl (fun t a => t.insert a) s

@[simp] theorem mem_insertAll {c : α} {s : SortedSet α} {members : List α} :
    c ∈ s.insertAll members ↔ c ∈ s ∨ c ∈ members := by
  induction members generalizing s with
  | nil => simp [insertAll]
  | cons a rest ih =>
    have h : s.insertAll (a :: rest) = (s.insert a).insertAll rest := rfl
    rw [h, ih, mem_insert, List.mem_cons]
    constructor
    · rintro ((h | h) | h) <;> simp [h]
    · rintro (h | h | h) <;> simp [h]

/-- The members of either set. -/
def union (s t : SortedSet α) : SortedSet α := s.insertAll t.toList

instance : Union (SortedSet α) := ⟨union⟩

@[simp] theorem mem_union {c : α} {s t : SortedSet α} : c ∈ s ∪ t ↔ c ∈ s ∨ c ∈ t :=
  mem_insertAll

/-- The set of the members of a list. -/
def ofList (members : List α) : SortedSet α := insertAll ∅ members

@[simp] theorem mem_ofList {c : α} {members : List α} : c ∈ ofList members ↔ c ∈ members := by
  simp [ofList]

end Construction

theorem ext_toList {s t : SortedSet α} (h : s.toList = t.toList) : s = t := by
  cases s
  cases t
  simp_all

/-- Two increasing lists with the same members are the same list. -/
theorem eq_of_increasing [TransOrd α] {xs ys : List α}
    (hx : xs.Pairwise (fun a b => compare a b = .lt))
    (hy : ys.Pairwise (fun a b => compare a b = .lt))
    (h : ∀ a, a ∈ xs ↔ a ∈ ys) : xs = ys := by
  induction xs generalizing ys with
  | nil =>
    cases ys with
    | nil => rfl
    | cons y ys => exact absurd ((h y).mpr (by simp)) (by simp)
  | cons x xs ih =>
    cases ys with
    | nil => exact absurd ((h x).mp (by simp)) (by simp)
    | cons y ys =>
      obtain ⟨hxs, hx'⟩ := List.pairwise_cons.mp hx
      obtain ⟨hys, hy'⟩ := List.pairwise_cons.mp hy
      have irrefl : ∀ a : α, compare a a ≠ .lt := fun a => by simp [ReflCmp.compare_self]
      have hxy : x = y := by
        rcases List.mem_cons.mp ((h x).mp (by simp)) with e | e
        · exact e
        · rcases List.mem_cons.mp ((h y).mpr (by simp)) with e' | e'
          · exact e'.symm
          · exact absurd (TransCmp.lt_trans (hys x e) (hxs y e')) (irrefl y)
      subst hxy
      refine congrArg (x :: ·) (ih hx' hy' fun a => ⟨fun ha => ?_, fun ha => ?_⟩)
      · rcases List.mem_cons.mp ((h a).mp (by simp [ha])) with e | e
        · exact absurd (e ▸ hxs a ha) (irrefl x)
        · exact e
      · rcases List.mem_cons.mp ((h a).mpr (by simp [ha])) with e | e
        · exact absurd (e ▸ hys a ha) (irrefl x)
        · exact e

theorem ext_mem [TransOrd α] {s t : SortedSet α} (h : ∀ a, a ∈ s ↔ a ∈ t) : s = t :=
  ext_toList (eq_of_increasing s.increasing t.increasing h)

end SortedSet

end Catalog
