import Catalog.Proofs.Load.Tree
import Catalog.Proofs.Record.Family
import Catalog.Proofs.Text.Pieces
import Catalog.Proofs.Tree.Preorder
import Catalog.Proofs.Tree.WellFormed

/-!
# Families documents

A families document changes ranks and pending values and nothing else. The entries that show the
families of a tree name every family once, so applying them to a fresh tree changes each family
there by its own entry.

* `Tree.describe` applies documents, and `Tree.Describes` holds of what they lead to;
* `Tree.reload` applies the entries that show a tree: `Tree.ReloadedUpTo` says how far this has
  come, and `Overlies.family_reload` what becomes of a family;
* `Describes.reload_eq` says that a tree that only documents have told about comes back without the
  values that say nothing.
-/

namespace Catalog

/-- A path without `/` is read back from the list of its names. -/
theorem Record.value_familyPath_list {path : List String} (h : ∀ name ∈ path, '/' ∉ name.toList) :
    (Record.familyPath (.list (path.map .text))).value = path := by
  have hmembers : (Value.list (path.map .text)).members = path.map .text := by
    refine List.filter_eq_self.mpr fun v hv => ?_
    obtain ⟨name, _, rfl⟩ := List.mem_map.mp hv
    rfl
  rw [value_familyPath, hmembers, List.map_map,
    List.map_congr_left (g := id) fun name hmem => ?_, List.map_id]
  exact Text.replaceChar_of_not_mem (h name hmem)

namespace Tree

variable {fresh t u : Tree}

/-! ### Applying -/

/-- The tree after families documents have been applied to it, one after the other. -/
def describe (t : Tree) (documents : List Value) : Tree :=
  documents.foldl (fun t document => (t.applyFamilies document).value.1) t

/-- The second tree is the first with records applied to its families. -/
structure Describes (fresh t : Tree) : Prop where
  links : SameLinks fresh t
  described : ∀ id, (t.family id).IsDescribed
  items : ∀ id, t.items id = fresh.items id

theorem IsFresh.describes (h : fresh.IsFresh) : Describes fresh fresh where
  links := SameLinks.refl fresh
  described id := by
    rw [h.bare id]
    exact Family.isDescribed_bare _
  items _ := rfl

theorem Describes.modify (h : Describes fresh t) {id : Nat} (hid : id < t.size) {f : Family}
    (hf : f.IsDescribed) (hitems : f.items = t.items id) :
    Describes fresh (t.modify id fun _ => f) := by
  refine ⟨h.links.trans (sameLinks_modify t id _), fun other => ?_, fun other => ?_⟩
  · by_cases e : other = id
    · rw [e, family_modify_self hid]
      exact hf
    · rw [family_modify_of_ne e]
      exact h.described other
  · rw [Tree.items]
    by_cases e : other = id
    · rw [e, family_modify_self hid, hitems]
      exact h.items id
    · rw [family_modify_of_ne e]
      exact h.items other

theorem Describes.applyFamily (hfresh : fresh.IsFresh) (h : Describes fresh t) (n : Nat)
    (entry : Value) : Describes fresh (Tree.applyFamily (t, n) entry).value.1 := by
  unfold Tree.applyFamily
  split
  · split
    · exact h
    · next family fields _ =>
      simp only [Logged.value_bind]
      split
      · exact h
      · next id hfind =>
        have hid : id < t.size :=
          ((h.links.wellFormed hfresh.wellFormed).find?_eq_some_iff.mp hfind).1
        exact h.modify hid ((h.described id).merge fields) (Family.items_merge _ fields)
  · exact h

theorem Describes.applyFamilies (hfresh : fresh.IsFresh) (h : Describes fresh t)
    (document : Value) : Describes fresh (t.applyFamilies document).value.1 := by
  unfold Tree.applyFamilies
  split
  · rw [Logged.value_foldList]
    refine List.foldlRecOn (motive := fun p : Tree × Nat => Describes fresh p.1) _ _ h
      fun p hp entry _ => ?_
    exact hp.applyFamily hfresh p.2 entry
  · exact h

/-- Families documents tell about families and change nothing else. -/
theorem IsFresh.describes_describe (h : fresh.IsFresh) (documents : List Value) :
    Describes fresh (fresh.describe documents) :=
  List.foldlRecOn (motive := Describes fresh) documents _ h.describes fun _ ht document _ =>
    ht.applyFamilies h document

/-! ### Reloading -/

/-- The tree without the values that say nothing, which are not exported. -/
def exported (t : Tree) : Tree := t.mapFamilies fun id => (t.family id).reloaded

theorem family_exported (t : Tree) (id : Nat) : t.exported.family id = (t.family id).reloaded := by
  by_cases hid : id < t.size
  · exact family_mapFamilies _ _ hid
  · have hsize : t.exported.size = t.size := size_mapFamilies t _
    rw [family_of_size_le (t := t) (by omega), family_of_size_le (by omega)]
    rfl

/-- The tree with the entries that show another one applied to it. -/
def reload (fresh t : Tree) : Tree := (fresh.applyFamilies (.list t.familyEntries)).value.1

/-- The entry that shows a family is applied to the family with its path. -/
theorem applyFamily_familyEntry (hu : u.WellFormed) {id : Nat} (hid : id < u.size)
    (hpath : (t.node id).path = (u.node id).path)
    (hplain : ∀ name ∈ (t.node id).path, '/' ∉ name.toList) (n : Nat) :
    (applyFamily (u, n) (t.familyEntry id)).value.1 = u.modify id fun _ =>
      ((u.family id).merge (Value.lastFirst (t.family id).toEntries)).value := by
  have hfind : u.find? (t.node id).path = some id := by
    rw [hpath]
    exact hu.find?_path hid
  have hkey : (Value.text "family").same (.text "family") = true := rfl
  simp only [applyFamily, familyEntry, Value.extract?_head hkey, Logged.value_bind,
    Record.value_familyPath_list hplain, hfind]
  rfl

/-- The entry of a family that is not there is passed over. -/
theorem applyFamily_familyEntry_of_none {id : Nat}
    (hplain : ∀ name ∈ (t.node id).path, '/' ∉ name.toList)
    (hfind : u.find? (t.node id).path = none) (n : Nat) :
    (applyFamily (u, n) (t.familyEntry id)).value.1 = u := by
  have hkey : (Value.text "family").same (.text "family") = true := rfl
  simp only [applyFamily, familyEntry, Value.extract?_head hkey, Logged.value_bind,
    Record.value_familyPath_list hplain, hfind]
  rfl

/-- The walk over all families goes in the order of their paths, so sorting by paths changes
nothing. -/
theorem WellFormed.byPath_eq (h : t.WellFormed) : t.byPath = t.all := by
  refine List.mergeSort_of_pairwise ((h.increasing_subtree h.root_lt).imp fun {a b} hlt => ?_)
  rw [hlt]
  rfl

/-- The second tree has the families of the first in their places, and no name in it holds `/`. -/
structure Overlies (fresh t : Tree) : Prop where
  wellFormed : t.WellFormed
  plain : t.IsPlain
  size_le : fresh.size ≤ t.size
  path : ∀ id < fresh.size, (t.node id).path = (fresh.node id).path

theorem Describes.overlies (ht : Describes fresh t) (hfresh : fresh.IsFresh) :
    Overlies fresh t where
  wellFormed := ht.links.wellFormed hfresh.wellFormed
  plain := ht.links.isPlain fun id _ => hfresh.plain id
  size_le := Nat.le_of_eq ht.links.size.symm
  path id _ := ht.links.path id

/-- A family that the first tree does not have has a path that is not there. -/
theorem Overlies.find?_eq_none (h : Overlies fresh t) (hfresh : fresh.WellFormed) {id : Nat}
    (hid : id < t.size) (hnew : fresh.size ≤ id) : fresh.find? (t.node id).path = none := by
  rw [Option.eq_none_iff_forall_ne_some]
  intro other hfind
  obtain ⟨hother, hpath⟩ := hfresh.find?_eq_some_iff.mp hfind
  rw [← h.path other hother] at hpath
  have heq := h.wellFormed.path_injective (Nat.lt_of_lt_of_le hother h.size_le) hid hpath
  omega

/-- How far reloading has come: the families met are read again, and the others are as they were. -/
structure ReloadedUpTo (fresh t : Tree) (met : List Nat) (u : Tree) : Prop where
  links : SameLinks fresh u
  family_met : ∀ id ∈ met, id < fresh.size → u.family id = (t.family id).reread (fresh.items id)
  family_rest : ∀ id, id ∉ met → u.family id = fresh.family id

theorem reloadedUpTo_start (fresh t : Tree) : ReloadedUpTo fresh t [] fresh where
  links := SameLinks.refl fresh
  family_met := by simp
  family_rest _ _ := rfl

theorem reloadedUpTo_step (hfresh : fresh.IsFresh) (ht : Overlies fresh t) {before after : List Nat}
    {id n : Nat} (hu : ReloadedUpTo fresh t before u) (hall : t.all = before ++ id :: after) :
    ReloadedUpTo fresh t (before ++ [id]) (applyFamily (u, n) (t.familyEntry id)).value.1 := by
  have hid : id < t.size := ht.wellFormed.lt_size_of_split hall
  have hnew : id ∉ before := ht.wellFormed.not_mem_before hall
  have hplain := ht.plain id hid
  rcases Nat.lt_or_ge id fresh.size with hold | hmade
  · have hidu : id < u.size := by
      rw [hu.links.size]
      exact hold
    have hpath : (t.node id).path = (u.node id).path := by
      rw [ht.path id hold, hu.links.path]
    -- the family is still as bare as in the fresh tree
    have hmerge : ((u.family id).merge (Value.lastFirst (t.family id).toEntries)).value =
        (t.family id).reread (fresh.items id) := by
      rw [hu.family_rest id hnew, hfresh.bare, Family.merge_toEntries]
    rw [applyFamily_familyEntry (hu.links.wellFormed hfresh.wellFormed) hidu hpath hplain, hmerge]
    refine ⟨hu.links.trans (sameLinks_modify u id _),
      fun other hmem hother => ?_, fun other hmem => ?_⟩
    · by_cases e : other = id
      · rw [e, family_modify_self hidu]
      · rw [family_modify_of_ne e]
        exact hu.family_met other (by simpa [e] using hmem) hother
    · have hboth : other ∉ before ∧ other ≠ id := by simpa using hmem
      rw [family_modify_of_ne hboth.2]
      exact hu.family_rest other hboth.1
  · have hfind : u.find? (t.node id).path = none := by
      rw [hu.links.find?]
      exact ht.find?_eq_none hfresh.wellFormed hid hmade
    rw [applyFamily_familyEntry_of_none hplain hfind]
    refine ⟨hu.links, fun other hmem hother => ?_, fun other hmem => ?_⟩
    · have hne : other ≠ id := by omega
      exact hu.family_met other (by simpa [hne] using hmem) hother
    · exact hu.family_rest other fun hbefore => hmem (List.mem_append_left _ hbefore)

theorem Overlies.reloadedUpTo_all (ht : Overlies fresh t) (hfresh : fresh.IsFresh) :
    ReloadedUpTo fresh t t.all (fresh.reload t) := by
  rw [reload, Tree.applyFamilies, Logged.value_foldList, familyEntries, List.foldl_map,
    ht.wellFormed.byPath_eq]
  exact sweep_forward (fun (p : Tree × Nat) id => (Tree.applyFamily p (t.familyEntry id)).value)
    (fun met p => ReloadedUpTo fresh t met p.1)
    (fun _ _ _ _ hall hp => reloadedUpTo_step hfresh ht hp hall)
    (reloadedUpTo_start fresh t)

theorem Overlies.sameLinks_reload (ht : Overlies fresh t) (hfresh : fresh.IsFresh) :
    SameLinks fresh (fresh.reload t) := (ht.reloadedUpTo_all hfresh).links

/-- Reloading makes each family of the fresh tree what is read again of the one that was
exported. -/
theorem Overlies.family_reload (ht : Overlies fresh t) (hfresh : fresh.IsFresh) {id : Nat}
    (hid : id < fresh.size) : (fresh.reload t).family id = (t.family id).reread (fresh.items id) :=
  (ht.reloadedUpTo_all hfresh).family_met id
    (ht.wellFormed.mem_all_iff.mpr (Nat.lt_of_lt_of_le hid ht.size_le)) hid

/-- Reloading gives the families of the tree that was exported without the values that say
nothing. -/
theorem Describes.reload_eq (ht : Describes fresh t) (hfresh : fresh.IsFresh) :
    fresh.reload t = t.exported := by
  have hover := ht.overlies hfresh
  have hlinks := sameLinks_mapFamilies t fun id => (t.family id).reloaded
  refine (hlinks.symm.trans (ht.links.symm.trans (hover.sameLinks_reload hfresh))).eq_of_family
    fun id hid => ?_
  rw [hlinks.size] at hid
  have hold : id < fresh.size := by
    rw [← ht.links.size]
    exact hid
  rw [family_mapFamilies _ _ hid, hover.family_reload hfresh hold, ← ht.items]
  exact (ht.described id).reread_eq

end Tree

end Catalog
