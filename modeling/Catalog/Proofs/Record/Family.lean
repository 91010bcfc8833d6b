import Catalog.Load.Families

/-!
# Families read back

What records say about a family is its rank and its pending values. An exported entry repeats both,
except for the values that say nothing.

* `Family.IsDescribed` holds of a family that only records have told about, and merging records
  keeps it;
* `Family.reread` is what the exported fields of a family make of a bare one, as `merge_toEntries`
  says;
* `Family.reloaded` is the family without the values that say nothing, and `IsDescribed.reread_eq`
  says that this is what is read again of a family that only records have told about.
-/

namespace Catalog

/-! ### Entries -/

/-- The rest of a mapping once its first entry has been taken out: the last entry stands first. -/
def Value.lastFirst (entries : Entries) : Entries :=
  match entries.getLast? with
  | some last => last :: entries.dropLast
  | none => []

theorem Value.extract?_head {key v : Value} (h : key.same key = true) (rest : Entries) :
    Value.extract? key ((key, v) :: rest) = some (v, Value.lastFirst rest) := by
  cases rest with
  | nil => simp [extract?, lastFirst, List.findIdx?_cons, h]
  | cons e rest => simp [extract?, lastFirst, List.findIdx?_cons, h, List.getLast?_cons]

/-- What says nothing is nothing, the empty text or an empty collection. -/
theorem Value.isFilled_eq_false_iff {v : Value} :
    v.isFilled = false ↔ v = .null ∨ v = .text "" ∨ v = .list [] ∨ v = .map [] := by
  cases v <;> simp [isFilled]

/-! ### Ranks -/

/-- A rank that has been read from a value is read from its own value again. -/
theorem Rank.ofValue?_toValue {v : Value} {r : Rank} (h : Rank.ofValue? v = some r) :
    Rank.ofValue? r.toValue = some r := by
  cases v with
  | null => cases h
  | int i =>
    rw [ofValue?, Option.some.injEq] at h
    by_cases hi : i < 0x8000000000000000
    · rw [if_pos hi] at h
      subst h
      rw [toValue, ofValue?, if_pos hi]
    · rw [if_neg hi] at h
      subst h
      rfl
  | _ =>
    cases h
    rfl

namespace Family

variable {f g : Family}

/-! ### Families that records tell about -/

/-- Only records have told about the family: it has items, a rank that was read from a value, and
pending values. -/
structure IsDescribed (f : Family) : Prop where
  frame : f = { items := f.items, rank := f.rank, pending := f.pending }
  rank : ∀ r, f.rank = some r → Rank.ofValue? r.toValue = some r

theorem isDescribed_bare (items : List Item) : IsDescribed { items := items } where
  frame := rfl
  rank r h := by cases h

theorem IsDescribed.setField (h : f.IsDescribed) (key : String) (v : Value) :
    (setField f key v).value.IsDescribed := by
  unfold Family.setField
  split
  case h_4 =>
    refine ⟨?_, fun r hr => Rank.ofValue?_toValue hr⟩
    rw [h.frame]
    rfl
  case h_5 => exact h
  all_goals
    refine ⟨?_, h.rank⟩
    rw [h.frame]
    rfl

theorem IsDescribed.foldEntry (h : f.IsDescribed) (entry : Value × Value) :
    (Record.foldEntry Family.setField f entry).value.IsDescribed := by
  unfold Record.foldEntry
  split
  · exact h.setField _ entry.2
  · exact h

theorem IsDescribed.merge (h : f.IsDescribed) (record : Entries) :
    (f.merge record).value.IsDescribed := by
  simp only [Family.merge, Record.foldEntries, Logged.value_foldList]
  induction record generalizing f with
  | nil => exact h
  | cons entry rest ih => exact ih (h.foldEntry entry)

/-! ### Exported fields -/

/-- The family without the pending values that say nothing. -/
def reloaded (f : Family) : Family :=
  { f with pending :=
    { text := f.pending.text.filter Value.isFilled
      aliasName := f.pending.aliasName.filter Value.isFilled
      labels := f.pending.labels.filter Value.isFilled } }

/-- The entry of a field that may be absent. -/
def optionalField (key : String) (v : Option Value) : Entries :=
  (v.map fun v => (.text key, v)).toList

theorem fieldIfFilled_eq (key : String) (v : Value) :
    fieldIfFilled key v = optionalField key ((some v).filter Value.isFilled) := by
  rw [fieldIfFilled, Option.filter_some]
  split <;> rfl

theorem filter_getD_isFilled {v : Option Value} {w : Value} (h : w.isFilled = false) :
    (some (v.getD w)).filter Value.isFilled = v.filter Value.isFilled := by
  cases v with
  | none => simp [Option.filter, h]
  | some v => rfl

/-- The rank of a family and those of its values that say something are exported. -/
theorem toEntries_eq (f : Family) :
    f.toEntries =
      optionalField "text" ((some f.textValue).filter Value.isFilled) ++
        optionalField "rank" (f.rank.map Rank.toValue) ++
          optionalField "alias" ((some f.aliasValue).filter Value.isFilled) ++
            optionalField "labels" ((some f.labelsValue).filter Value.isFilled) := by
  have hrank : (f.rank.map fun r => (Value.text "rank", r.toValue)).toList =
      optionalField "rank" (f.rank.map Rank.toValue) := by
    rw [optionalField, Option.map_map]
    rfl
  rw [toEntries, fieldIfFilled_eq, fieldIfFilled_eq, fieldIfFilled_eq, hrank]

theorem merge_optionalFields (items : List Item) (text rank aliasName labels : Option Value) :
    (merge { items := items } (Value.lastFirst
      (optionalField "text" text ++ optionalField "rank" rank ++ optionalField "alias" aliasName ++
        optionalField "labels" labels))).value =
      { items := items
        rank := rank.bind Rank.ofValue?
        pending := { text := text, aliasName := aliasName, labels := labels } } := by
  cases text <;> cases rank <;> cases aliasName <;> cases labels <;> rfl

/-- What the exported fields of a family make of a bare family with some items. -/
def reread (f : Family) (items : List Item) : Family :=
  { items := items
    rank := (f.rank.map Rank.toValue).bind Rank.ofValue?
    pending :=
      { text := (some f.textValue).filter Value.isFilled
        aliasName := (some f.aliasValue).filter Value.isFilled
        labels := (some f.labelsValue).filter Value.isFilled } }

theorem merge_toEntries (f : Family) (items : List Item) :
    (merge { items := items } (Value.lastFirst f.toEntries)).value = f.reread items := by
  rw [f.toEntries_eq, merge_optionalFields, reread]

theorem isDescribed_reread (f : Family) (items : List Item) : (f.reread items).IsDescribed where
  frame := rfl
  rank r h := by
    obtain ⟨v, _, hv⟩ := Option.bind_eq_some_iff.mp h
    exact Rank.ofValue?_toValue hv

/-- A family that only records have told about is read again without the values that say nothing. -/
theorem IsDescribed.reread_eq (h : f.IsDescribed) : f.reread f.items = f.reloaded := by
  have htext : f.text = "" := by rw [h.frame]
  have halias : f.aliasName = none := by rw [h.frame]
  have hlabels : f.labels = ∅ := by rw [h.frame]
  have hreloaded : f.reloaded =
      { items := f.items, rank := f.rank, pending := f.reloaded.pending } := by
    rw [reloaded, h.frame]
  have hrank : (f.rank.map Rank.toValue).bind Rank.ofValue? = f.rank := by
    cases hr : f.rank with
    | none => rfl
    | some r => exact h.rank r hr
  rw [hreloaded, reread, hrank, textValue, aliasValue, labelsValue, htext, halias, hlabels,
    filter_getD_isFilled rfl, filter_getD_isFilled rfl, filter_getD_isFilled rfl, reloaded]

end Family

end Catalog
