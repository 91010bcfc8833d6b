import Catalog.Proofs.Load.Families
import Catalog.Proofs.Record.Labels

/-!
# Labels of exported families

A family is exported with the labels that it bears, each as the mapping of its fields. Loading the
export into a fresh tree leaves these mappings pending, and settling them gives the set of labels
again, whatever values the labels came from in the first place.

* `Family.labels_settle_reread` is one family;
* `Tree.sameLabels_reload_settle` is the label of any value, and a whole tree.
-/

namespace Catalog

/-- A family with labels that were read has them again once it is read again and settled. -/
theorem Family.labels_settle_reread {f : Family} (hpending : f.pending.labels = none)
    (hread : ∀ l ∈ f.labels, l.HasKeyword) (items : List Item) :
    (f.reread items).settle.value.labels = f.labels := by
  rw [← givenLabels_reread hpending hread items]
  show (f.reread items).settledLabels.value.1 = _
  rw [settledLabels, givenLabels]
  cases (f.reread items).pending.labels <;> rfl

namespace Tree

/-- Whatever value a label is read from, the mapping of its fields is read as the same label, and
without a warning. So take a tree with the families of a fresh one. Where a family has no pending
labels and each label that it bears was read from some value, loading the export of the tree into
the fresh one and settling values gives the same set of labels. -/
theorem sameLabels_reload_settle (v : Value) :
    Label.ofValue (Label.ofValue v).value.toValue = pure (Label.ofValue v).value ∧
      ∀ fresh t : Tree, fresh.IsFresh → Overlies fresh t →
        ∀ id < fresh.size, (t.family id).pending.labels = none →
        (∀ l ∈ (t.family id).labels, ∃ w, (Label.ofValue w).value = l) →
          ((fresh.reload t).settle.value.family id).labels = (t.family id).labels := by
  refine ⟨Label.ofValue_toValue_eq_pure (Label.hasKeyword_ofValue v), ?_⟩
  intro fresh t hfresh hover id hid hpending hread
  have hsize : id < (fresh.reload t).size := by
    rw [(hover.sameLinks_reload hfresh).size]
    exact hid
  rw [settle, value_mapLogged, family_mapFamilies _ _ hsize, hover.family_reload hfresh hid]
  exact Family.labels_settle_reread hpending (fun l hl => Label.hasKeyword_iff.mpr (hread l hl)) _

/-- A label of a name with a space and without tooltip, a well-known one and one of a list, borne by
one family. -/
theorem sameLabels_reload_settle_of_odd_values :
    let partly : Value :=
      .map [(.tagged "!k" (.text "name"), .text "to do"), (.text "tooltip", .null)]
    let given : Value := .list [partly, .text "new", .list [.int 1]]
    let fresh := ((∅ : Tree).create ["Ops"]).1
    let t := fresh.modify 1 fun f => { f with labels := given.toLabels.value }
    (fresh.IsFresh ∧ Overlies fresh t ∧ 1 < fresh.size ∧ (t.family 1).pending.labels = none ∧
      ∀ l ∈ (t.family 1).labels, ∃ w, (Label.ofValue w).value = l) ∧
      Label.ofValue (Label.ofValue partly).value.toValue = pure (Label.ofValue partly).value ∧
      ((fresh.reload t).settle.value.family 1).labels = (t.family 1).labels ∧
      (t.family 1).labels.toList.map Label.name = ["#-_1", "#new", "#to_do"] := by
  intro partly given fresh t
  have hplain : ∀ name ∈ ["Ops"], '/' ∉ name.toList := by decide
  have hfresh : fresh.IsFresh := (isFresh_empty.create hplain).1
  have hsize : 1 < fresh.size := by decide
  have hlinks : SameLinks fresh t := sameLinks_modify fresh 1 _
  have hover : Overlies fresh t :=
    ⟨hlinks.wellFormed hfresh.wellFormed, hlinks.isPlain fun id _ => hfresh.plain id,
      Nat.le_of_eq hlinks.size.symm, fun id _ => hlinks.path id⟩
  have hfamily : t.family 1 = { fresh.family 1 with labels := given.toLabels.value } :=
    family_modify_self hsize _
  have hpending : (t.family 1).pending.labels = none := by
    rw [hfamily, hfresh.bare]
  have hread : ∀ l ∈ (t.family 1).labels, ∃ w, (Label.ofValue w).value = l := by
    rw [hfamily]
    intro l hl
    exact Label.hasKeyword_iff.mp (Value.hasKeyword_of_mem_toLabels hl)
  obtain ⟨hone, hall⟩ := sameLabels_reload_settle partly
  exact ⟨⟨hfresh, hover, hsize, hpending, hread⟩, hone,
    hall fresh t hfresh hover 1 hsize hpending hread, by decide +kernel⟩

end Tree

end Catalog
