import Catalog.Record.Basic
import Catalog.Tree.Walk

/-!
# Settling values

The pending values of items and families become texts, keywords and labels. Then defaults stand in
for what is missing: a family without alias is shown under its name, and what has no rank is ordered
by its alias or title, whatever the case of the letters.

* `Item.settle` and `Family.settle` settle one record, and `Tree.settle` all of them;
* `pending_settle` says that nothing is pending afterwards;
* `Tree.fillDefaults` fills what is missing and leaves what is there.
-/

namespace Catalog

/-! ### Settling values -/

namespace Value

/-- The labels that a value stands for. -/
def toLabels (v : Value) : Logged (SortedSet Label) :=
  SortedSet.ofList <$> Logged.mapList Label.ofValue v.members

/-- The keywords that a value stands for. -/
def toKeywords (v : Value) : Logged (SortedSet String) :=
  SortedSet.ofList <$> Logged.mapList (fun word => Keyword.ofText word.toText) v.members

theorem startsWith_of_mem_toKeywords {v : Value} {keyword : String}
    (h : keyword ∈ v.toKeywords.value) : Text.startsWith '#' keyword = true := by
  simp only [toKeywords, Logged.value_map, SortedSet.mem_ofList, Logged.value_mapList,
    List.mem_map] at h
  obtain ⟨w, _, rfl⟩ := h
  exact Keyword.startsWith_ofText _

end Value

namespace Item

/-- The item with its pending values settled. -/
def settle (item : Item) : Logged Item := do
  let index ← (item.pending.index.map Value.toKeywords).getD (pure item.index)
  let labels ← (item.pending.labels.map Value.toLabels).getD (pure item.labels)
  return { item with
    title := (item.pending.title.map Value.toText).getD item.title
    text := (item.pending.text.map Value.toText).getD item.text
    pretext := (item.pending.pretext.map Value.toText).getD item.pretext
    index := index
    labels := labels
    pending := {} }

@[simp] theorem pending_settle (item : Item) : item.settle.value.pending = {} := rfl

end Item

namespace Family

/-- The labels that a family is given, with the note of its own labels. Labels from a record are not
noted yet. -/
def settledLabels (f : Family) : Logged (SortedSet Label × Option (SortedSet Label)) :=
  match f.pending.labels with
  | some v => (fun labels => (labels, none)) <$> v.toLabels
  | none => pure (f.labels, f.ownLabels)

/-- The family with its pending values and those of its items settled. -/
def settle (f : Family) : Logged Family := do
  let labels ← f.settledLabels
  let items ← Logged.mapList Item.settle f.items
  return { f with
    text := (f.pending.text.map Value.toText).getD f.text
    aliasName := (f.pending.aliasName.map Value.textUnlessNull).getD f.aliasName
    labels := labels.1
    ownLabels := labels.2
    items := items
    pending := {} }

@[simp] theorem pending_settle (f : Family) : f.settle.value.pending = {} := rfl

@[simp] theorem rank_settle (f : Family) : f.settle.value.rank = f.rank := rfl

end Family

/-- The tree with all pending values settled. -/
def Tree.settle (t : Tree) : Logged Tree := t.mapLogged fun id => (t.family id).settle

/-! ### Defaults -/

namespace Item

/-- The item with a rank, by its title if need be. -/
def fillRank (item : Item) : Item :=
  { item with rank := some (item.rank.getD (.text (Text.lower item.title))) }

end Item

namespace Family

/-- The family with an alias and a rank, and its items with ranks. -/
def fillDefaults (name : String) (f : Family) : Family :=
  let shown := f.aliasName.getD name
  { f with
    aliasName := some shown
    rank := some (f.rank.getD (.text (Text.lower shown)))
    items := f.items.map Item.fillRank }

end Family

namespace Tree

/-- The tree with all defaults filled in. The root has an empty name. -/
def fillDefaults (t : Tree) : Tree :=
  t.mapFamilies fun id => (t.family id).fillDefaults ((t.node id).name?.getD "")

theorem aliasName_fillDefaults (t : Tree) {id : Nat} (h : id < t.size) :
    (t.fillDefaults.family id).aliasName =
      some ((t.family id).aliasName.getD ((t.node id).name?.getD "")) := by
  rw [fillDefaults, family_mapFamilies _ _ h]
  rfl

theorem isSome_rank_fillDefaults (t : Tree) {id : Nat} (h : id < t.size) :
    (t.fillDefaults.family id).rank.isSome = true := by
  rw [fillDefaults, family_mapFamilies _ _ h]
  rfl

end Tree

end Catalog
