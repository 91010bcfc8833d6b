import Catalog.Load.Tree
import Catalog.Proofs.Tree.WellFormed

/-!
# Trees of records

Records tell about items and name the families that these belong to. They say nothing about the
families themselves, and the names that they give to families are free of `/`.

* `Tree.IsFresh` says so of a tree, and `IsFresh.addItem` and `IsFresh.create` keep it;
* `Tree.isFresh_ofRecordFiles` and `FileSystem.isFresh_buildTree` say that it holds of every tree of
  records.
-/

namespace Catalog

namespace Tree

variable {t : Tree}

/-- Nothing has been said about the families of the tree, and no name of a family holds `/`. -/
structure IsFresh (t : Tree) : Prop where
  wellFormed : t.WellFormed
  plain : ∀ id, ∀ name ∈ (t.node id).path, '/' ∉ name.toList
  bare : ∀ id, t.family id = { items := t.items id }

theorem isFresh_empty : (∅ : Tree).IsFresh where
  wellFormed := wellFormed_empty
  plain id name hmem := by
    have hpath : ((∅ : Tree).node id).path = [] := by
      cases id <;> rfl
    rw [hpath] at hmem
    cases hmem
  bare id := by
    cases id <;> rfl

theorem IsFresh.addSon (h : t.IsFresh) {id : Nat} {name : String} (hid : id < t.size)
    (hnew : t.son? id name = none) (hname : '/' ∉ name.toList) : (t.addSon id name).1.IsFresh where
  wellFormed := h.wellFormed.addSon hid hnew
  plain other n hmem := by
    rcases Nat.lt_trichotomy other t.size with hlt | heq | hgt
    · rw [path_addSon hlt] at hmem
      exact h.plain other n hmem
    · rw [heq, node_addSon_new, List.mem_append, List.mem_singleton] at hmem
      rcases hmem with hmem | rfl
      · exact h.plain id n hmem
      · exact hname
    · rw [node_of_size_le (by rw [size_addSon]; omega)] at hmem
      cases hmem
  bare other := by
    rw [items, family_addSon]
    exact h.bare other

theorem IsFresh.create (h : t.IsFresh) {path : List String}
    (hpath : ∀ name ∈ path, '/' ∉ name.toList) :
    (t.create path).1.IsFresh ∧ (t.create path).2 < (t.create path).1.size := by
  have hmade := createBelow_induction (P := IsFresh) h.wellFormed h.wellFormed.root_lt h
    fun _ _ name hmem _ hid hnew hu => hu.addSon hid hnew (hpath name hmem)
  exact ⟨hmade.2.2, hmade.2.1⟩

theorem IsFresh.addItem (h : t.IsFresh) {id : Nat} (hid : id < t.size) (item : Item) :
    (t.addItem id item).IsFresh where
  wellFormed := (sameLinks_modify t id _).wellFormed h.wellFormed
  plain other name hmem := by
    rw [Tree.addItem, (sameLinks_modify t id _).path] at hmem
    exact h.plain other name hmem
  bare other := by
    rw [items, Tree.addItem]
    by_cases e : other = id
    · subst e
      rw [family_modify_self hid, h.bare other]
    · rw [family_modify_of_ne e]
      exact h.bare other

theorem IsFresh.place (h : t.IsFresh) {path : List String}
    (hpath : ∀ name ∈ path, '/' ∉ name.toList) (item : Item) : (t.place path item).IsFresh := by
  obtain ⟨hmade, hend⟩ := h.create hpath
  exact hmade.addItem hend item

end Tree

/-- The path that a record names for its family is free of `/`. -/
theorem Record.not_slash_mem_takeFamily {record : Entries} {name : String}
    (h : name ∈ (Record.takeFamily record).value.1.getD []) : '/' ∉ name.toList := by
  unfold Record.takeFamily at h
  split at h
  · cases h
  · exact Record.not_slash_mem_familyPath h

namespace Tree

variable {t : Tree}

theorem IsFresh.addRecord (h : t.IsFresh) (record : Entries) (file root : String) :
    (t.addRecord record file root).value.IsFresh :=
  h.place (fun _ => Record.not_slash_mem_takeFamily) _

theorem IsFresh.addRecordFile (h : t.IsFresh) (fs : FileSystem) (root file : String) :
    (Tree.addRecordFile fs root t file).value.IsFresh := by
  unfold Tree.addRecordFile
  split
  · exact h.addRecord _ file root
  · exact h

/-- Records make fresh trees. -/
theorem isFresh_ofRecordFiles (fs : FileSystem) (root : String) (files : List String) :
    (ofRecordFiles fs root files).value.IsFresh := by
  rw [ofRecordFiles, Logged.value_foldList]
  refine List.foldlRecOn files _ isFresh_empty fun t ht file _ => ?_
  exact ht.addRecordFile fs root file

end Tree

/-- The structured loader makes fresh trees. -/
theorem FileSystem.isFresh_buildTree (fs : FileSystem) (root : String) :
    (fs.buildTree root .records).value.IsFresh := by
  unfold FileSystem.buildTree
  split
  · exact Tree.isFresh_ofRecordFiles fs root _
  · exact Tree.isFresh_empty

end Catalog
