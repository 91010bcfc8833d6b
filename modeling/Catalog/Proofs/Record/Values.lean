import Catalog.Normal.Settling
import Catalog.Proofs.Record.Family

/-!
# What the values of a family come to

A family that only records have told about shows what its pending values come to, or a default where
there is none. Leaving out a value that says nothing makes no difference exactly if the value comes
to the default.

* `Family.shownText`, `Family.shownAlias` and `Family.givenLabels` are what the values come to, and
  the lemmas on `IsDescribed` say that settling and filling in lead there;
* `shownText_reloaded_eq_iff`, `shownAlias_reloaded_eq_iff` and `mem_givenLabels_iff` say what
  difference it makes to leave values out.
-/

namespace Catalog

namespace Family

/-- The text that the values of a family come to. -/
def shownText (f : Family) : String := (f.pending.text.map Value.toText).getD ""

/-- The alias that the values of a family with a name come to. -/
def shownAlias (name : String) (f : Family) : String :=
  (f.pending.aliasName.map fun v => v.textUnlessNull.getD name).getD name

/-- The labels that the values of a family come to. -/
def givenLabels (f : Family) : SortedSet Label :=
  (f.pending.labels.map fun v => v.toLabels.value).getD ∅

variable {f : Family}

theorem mem_givenLabels {l : Label} :
    l ∈ f.givenLabels ↔ ∃ v, f.pending.labels = some v ∧ l ∈ v.toLabels.value := by
  rw [givenLabels]
  cases f.pending.labels with
  | none => exact ⟨nofun, nofun⟩
  | some v => simp

theorem IsDescribed.reloaded (h : f.IsDescribed) : f.reloaded.IsDescribed where
  frame := by
    rw [Family.reloaded, h.frame]
  rank := h.rank

theorem IsDescribed.moveItems (h : f.IsDescribed) (items : List Item) :
    IsDescribed { f with items := items } where
  frame := by
    rw [h.frame]
  rank := h.rank

section Prepared

variable (h : f.IsDescribed) (name : String)

include h

theorem IsDescribed.text_prepared : (f.settle.value.fillDefaults name).text = f.shownText := by
  have htext : f.text = "" := by rw [h.frame]
  show (f.pending.text.map Value.toText).getD f.text = f.shownText
  rw [htext, shownText]

theorem IsDescribed.aliasName_prepared :
    (f.settle.value.fillDefaults name).aliasName = some (f.shownAlias name) := by
  have halias : f.aliasName = none := by rw [h.frame]
  show some (((f.pending.aliasName.map Value.textUnlessNull).getD f.aliasName).getD name) =
    some (f.shownAlias name)
  rw [halias, shownAlias]
  cases f.pending.aliasName <;> rfl

theorem IsDescribed.labels_prepared :
    (f.settle.value.fillDefaults name).ownLabels.getD (f.settle.value.fillDefaults name).labels =
      f.givenLabels := by
  have hlabels : f.labels = ∅ := by rw [h.frame]
  have hown : f.ownLabels = none := by rw [h.frame]
  show f.settledLabels.value.2.getD f.settledLabels.value.1 = f.givenLabels
  rw [settledLabels, givenLabels]
  cases f.pending.labels with
  | none =>
    show f.ownLabels.getD f.labels = ∅
    rw [hown, hlabels]
    rfl
  | some v => rfl

end Prepared

/-! ### Values that say nothing -/

/-- What a value that may be absent comes to stays the same when values that say nothing are left
out, exactly if the value comes to the same as no value. -/
theorem filter_getD_eq_iff {α : Type} (g : Value → α) (d : α) (v : Option Value) :
    ((v.filter Value.isFilled).map g).getD d = (v.map g).getD d ↔
      ∀ w, v = some w → w.isFilled = false → g w = d := by
  cases v with
  | none => simp
  | some w =>
    rw [Option.filter_some]
    cases hw : w.isFilled with
    | true => simp [hw]
    | false =>
      constructor
      · intro heq w' hw' _
        cases hw'
        exact heq.symm
      · intro hall
        exact (hall w rfl hw).symm

/-- Of the values that say nothing, empty collections have a text all the same. -/
theorem shownText_reloaded_eq_iff :
    f.reloaded.shownText = f.shownText ↔
      f.pending.text ≠ some (.list []) ∧ f.pending.text ≠ some (.map []) := by
  have hlist : Value.toText (.list []) ≠ "" := by decide +kernel
  have hmap : Value.toText (.map []) ≠ "" := by decide +kernel
  rw [shownText, shownText, reloaded, filter_getD_eq_iff]
  constructor
  · intro hall
    exact ⟨fun e => hlist (hall _ e rfl), fun e => hmap (hall _ e rfl)⟩
  · intro hne v hv hempty
    rcases Value.isFilled_eq_false_iff.mp hempty with rfl | rfl | rfl | rfl
    · rfl
    · rfl
    · exact absurd hv hne.1
    · exact absurd hv hne.2

theorem shownAlias_reloaded_eq_iff {name : String} :
    f.reloaded.shownAlias name = f.shownAlias name ↔
      ∀ v, f.pending.aliasName = some v → v.isFilled = false → v.isNull = false →
        v.toText = name := by
  rw [shownAlias, shownAlias, reloaded, filter_getD_eq_iff]
  refine forall_congr' fun v => forall_congr' fun _ => forall_congr' fun _ => ?_
  rw [Value.textUnlessNull]
  cases v.isNull <;> simp

/-- A label is given by a value that is exported, or by one that says nothing. -/
theorem mem_givenLabels_iff {l : Label} :
    l ∈ f.givenLabels ↔ l ∈ f.reloaded.givenLabels ∨
      ∃ v, f.pending.labels = some v ∧ v.isFilled = false ∧ l ∈ v.toLabels.value := by
  rw [givenLabels, givenLabels, reloaded]
  cases f.pending.labels with
  | none => simp
  | some v =>
    rw [Option.filter_some]
    cases hv : v.isFilled <;> simp [hv]

end Family

end Catalog
