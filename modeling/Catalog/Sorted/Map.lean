/-!
# Maps in key order

A `SortedMap` keeps its entries as one list with strictly increasing keys, so a walk over a map
visits the keys in order and each key has one value.

* `SortedMap.get?` looks a key up and `SortedMap.insert` sets its value;
* `get?_insert` says how the two meet, and `mem_entries_iff` that the entries say the same;
* `perm_insert` says that a new key adds one entry, and `get?_foldl_insert` what a map says that has
  been filled from a function;
* `SortedMap.ofList` inserts the entries of a list, the last value of a key winning.
-/

namespace Catalog

open Std

/-- What comes before something else is not the same. -/
theorem ne_of_compare_lt {α : Type} {cmp : α → α → Ordering} [ReflCmp cmp] {a b : α}
    (h : cmp a b = .lt) : a ≠ b := by
  rintro rfl
  cases h.symm.trans ReflCmp.compare_self

/-- A finite map, kept as its entries with strictly increasing keys. -/
structure SortedMap (κ β : Type) [Ord κ] where
  entries : List (κ × β)
  increasing : entries.Pairwise (fun a b => compare a.1 b.1 = .lt)

namespace SortedMap

variable {κ β : Type} [Ord κ]

/-- Sets the value of a key in a list of entries with increasing keys. -/
def place (k : κ) (v : β) : List (κ × β) → List (κ × β)
  | [] => [(k, v)]
  | e :: rest =>
    match compare k e.1 with
    | .lt => (k, v) :: e :: rest
    | .eq => (k, v) :: rest
    | .gt => e :: place k v rest

theorem mem_place {k : κ} {v : β} {entries : List (κ × β)} {x : κ × β}
    (h : x ∈ place k v entries) : x = (k, v) ∨ x ∈ entries := by
  induction entries with
  | nil => simpa [place] using h
  | cons e rest ih =>
    unfold place at h
    split at h
    · simpa using h
    · rcases List.mem_cons.mp h with h | h <;> simp [h]
    · rcases List.mem_cons.mp h with h | h
      · simp [h]
      · rcases ih h with h | h <;> simp [h]

theorem increasing_place [TransOrd κ] [LawfulEqOrd κ] (k : κ) (v : β) {entries : List (κ × β)}
    (h : entries.Pairwise (fun a b => compare a.1 b.1 = .lt)) :
    (place k v entries).Pairwise (fun a b => compare a.1 b.1 = .lt) := by
  induction entries with
  | nil => simp [place]
  | cons e rest ih =>
    obtain ⟨he, hrest⟩ := List.pairwise_cons.mp h
    unfold place
    split
    · next hk =>
      refine List.pairwise_cons.mpr ⟨fun x hx => ?_, h⟩
      rcases List.mem_cons.mp hx with rfl | hx
      · exact hk
      · exact TransCmp.lt_trans hk (he x hx)
    · next hk =>
      have hke : k = e.1 := LawfulEqOrd.eq_of_compare hk
      exact List.pairwise_cons.mpr ⟨fun x hx => hke ▸ he x hx, hrest⟩
    · next hk =>
      refine List.pairwise_cons.mpr ⟨fun x hx => ?_, ih hrest⟩
      rcases mem_place hx with rfl | hx
      · exact OrientedCmp.lt_of_gt hk
      · exact he x hx

/-- A new key adds one entry. -/
theorem perm_place [LawfulEqOrd κ] {k : κ} {v : β} {entries : List (κ × β)}
    (h : ∀ e ∈ entries, e.1 ≠ k) : (place k v entries).Perm ((k, v) :: entries) := by
  induction entries with
  | nil => exact List.Perm.refl _
  | cons e rest ih =>
    unfold place
    split
    · exact List.Perm.refl _
    · next hk => exact absurd (LawfulEqOrd.eq_of_compare hk).symm (h e List.mem_cons_self)
    · have hrest := ih fun e he => h e (List.mem_cons_of_mem _ he)
      exact (hrest.cons e).trans (List.Perm.swap (k, v) e rest)

/-- The map without entries. -/
def empty : SortedMap κ β := ⟨[], List.Pairwise.nil⟩

instance : EmptyCollection (SortedMap κ β) := ⟨empty⟩
instance : Inhabited (SortedMap κ β) := ⟨∅⟩

/-- The value of a key. -/
def get? (m : SortedMap κ β) (k : κ) : Option β :=
  (m.entries.find? fun e => compare k e.1 == .eq).map (·.2)

/-- Whether a key has a value. -/
def contains (m : SortedMap κ β) (k : κ) : Bool := (m.get? k).isSome

/-- The keys in increasing order. -/
def keys (m : SortedMap κ β) : List κ := m.entries.map (·.1)

/-- The values in the order of their keys. -/
def values (m : SortedMap κ β) : List β := m.entries.map (·.2)

/-- The number of keys. -/
def size (m : SortedMap κ β) : Nat := m.entries.length

/-- Whether there is no key. -/
def isEmpty (m : SortedMap κ β) : Bool := m.entries.isEmpty

@[simp] theorem get?_empty (k : κ) : (∅ : SortedMap κ β).get? k = none := rfl

theorem find?_place [LawfulEqOrd κ] (k c : κ) (v : β) (entries : List (κ × β)) :
    ((place k v entries).find? fun e => compare c e.1 == .eq).map (·.2) =
      if compare c k = .eq then some v
      else (entries.find? fun e => compare c e.1 == .eq).map (·.2) := by
  induction entries with
  | nil => by_cases h : compare c k = .eq <;> simp [place, h]
  | cons e rest ih =>
    unfold place
    split
    · by_cases h : compare c k = .eq <;> simp [h]
    · next hk =>
      have hke : k = e.1 := LawfulEqOrd.eq_of_compare hk
      by_cases h : compare c k = .eq
      · simp [h]
      · simp [h, ← hke]
    · next hk =>
      by_cases he : compare c e.1 = .eq
      · have hce : c = e.1 := LawfulEqOrd.eq_of_compare he
        have hck : ¬ compare c k = .eq := fun h => by
          have hkc : c = k := LawfulEqOrd.eq_of_compare h
          have hself : compare k e.1 = .eq := by rw [← hkc]; exact he
          rw [hself] at hk
          cases hk
        simp [he, hck]
      · have hb : (compare c e.1 == .eq) = false := by simp [he]
        rw [List.find?_cons, List.find?_cons, hb]
        exact ih

/-- The entries of a map are its keys with their values. -/
theorem mem_entries_iff [LawfulEqOrd κ] {m : SortedMap κ β} {k : κ} {v : β} :
    (k, v) ∈ m.entries ↔ m.get? k = some v := by
  obtain ⟨entries, increasing⟩ := m
  simp only [get?]
  induction entries with
  | nil => simp
  | cons e rest ih =>
    obtain ⟨he, hrest⟩ := List.pairwise_cons.mp increasing
    by_cases hk : compare k e.1 = .eq
    · have hke : k = e.1 := LawfulEqOrd.eq_of_compare hk
      -- the keys of later entries are greater, so this entry is the only one
      have hlater : (k, v) ∉ rest := fun h => by
        have hlt := he _ h
        simp only [hke, ReflCmp.compare_self, reduceCtorEq] at hlt
      simp only [List.mem_cons, hlater, or_false, List.find?_cons, hk, beq_self_eq_true,
        Option.map_some, Option.some.injEq]
      constructor
      · intro h
        rw [← h]
      · intro h
        rw [hke, ← h]
    · have hne : (k, v) ≠ e := fun h => hk (by rw [← h]; exact ReflCmp.compare_self)
      have hb : (compare k e.1 == .eq) = false := by simp [hk]
      simp only [List.mem_cons, hne, false_or, List.find?_cons, hb]
      exact ih hrest

theorem mem_values_iff [LawfulEqOrd κ] {m : SortedMap κ β} {v : β} :
    v ∈ m.values ↔ ∃ k, m.get? k = some v := by
  simp only [values, List.mem_map, Prod.exists, exists_eq_right]
  exact exists_congr fun k => mem_entries_iff

section Construction

variable [TransOrd κ] [LawfulEqOrd κ]

/-- The map with the value of one key set. -/
def insert (m : SortedMap κ β) (k : κ) (v : β) : SortedMap κ β :=
  ⟨place k v m.entries, increasing_place k v m.increasing⟩

/-- The map with the entries of a list inserted one after the other. -/
def ofList (entries : List (κ × β)) : SortedMap κ β :=
  entries.foldl (fun m e => m.insert e.1 e.2) ∅

theorem get?_insert (m : SortedMap κ β) (k c : κ) (v : β) :
    (m.insert k v).get? c = if compare c k = .eq then some v else m.get? c :=
  find?_place k c v m.entries

theorem perm_insert {m : SortedMap κ β} {k : κ} {v : β} (h : m.get? k = none) :
    (m.insert k v).entries.Perm ((k, v) :: m.entries) := by
  refine perm_place fun e he heq => ?_
  have hsome : m.get? k = some e.2 := mem_entries_iff.mp (heq ▸ he)
  rw [h] at hsome
  cases hsome

/-- A map that takes up the values of a function at some keys says what the function says there. -/
theorem get?_foldl_insert (f : κ → β) {keys : List κ} {m : SortedMap κ β} {k : κ} {v : β} :
    (keys.foldl (fun m c => m.insert c (f c)) m).get? k = some v ↔
      (k ∈ keys ∧ f k = v) ∨ (k ∉ keys ∧ m.get? k = some v) := by
  induction keys generalizing m with
  | nil => simp
  | cons c rest ih =>
    rw [List.foldl_cons, ih, get?_insert]
    by_cases hc : k = c
    · subst hc
      by_cases hrest : k ∈ rest <;> simp [hrest, ReflCmp.compare_self]
    · have hne : compare k c ≠ .eq := fun h => hc (LawfulEqOrd.eq_of_compare h)
      simp [hc, hne]

end Construction

end SortedMap

end Catalog
