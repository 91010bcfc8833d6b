import Catalog.Load.Tree
import Catalog.Proofs.Record.Item

/-!
# Records in another order

Taking the family out of a record moves its last entry, and a record may have entries that say
nothing about its item. No two keys of a record name the same field, so neither the order of the
entries nor those that name no field make a difference to the item.

* `Item.fieldEntries` are the entries of a record that name a field, and `entry?_eq_of_perm` says
  that they decide what is found under these names;
* `Item.IsReadInAnyOrder` says that the item of a record stays the same in another order and with
  other entries beside these, and `isReadInAnyOrder` that this holds of every record.
-/

namespace Catalog

namespace Record

/-- The family of a record is found under its name. -/
theorem value_takeFamily {record : Entries} (h : Value.IsKeyed record) :
    (takeFamily record).value.1 = (Record.entry? record "family").map fun v =>
      (familyPath v).value := by
  unfold takeFamily
  split
  · next hnone =>
    rw [Record.entry?, Value.lookup?_of_extract?_eq_none hnone]
    rfl
  · next v rest hextract =>
    rw [Record.entry?, h.lookup?_of_extract? hextract]
    rfl

end Record

namespace Item

variable {record other : Entries}

/-- Whether an entry of a record names a field of an item. -/
def isFieldEntry (entry : Value × Value) : Bool :=
  (Record.keyName? entry.1).any fun key => key ∈ fieldNames

/-- The entries of a record that name a field of an item. -/
def fieldEntries (record : Entries) : Entries := record.filter isFieldEntry

theorem isFieldEntry_text {k : String} {v : Value} :
    isFieldEntry (.text k, v) = true ↔ k ∈ fieldNames := by
  show decide (k ∈ fieldNames) = true ↔ k ∈ fieldNames
  rw [decide_eq_true_iff]

theorem mem_fieldEntries_iff {k : String} (hk : k ∈ fieldNames) {v : Value} :
    (Value.text k, v) ∈ fieldEntries record ↔ (Value.text k, v) ∈ record := by
  rw [fieldEntries, List.mem_filter, isFieldEntry_text]
  exact and_iff_left hk

/-- What is found under the names of fields depends on the entries with these names, and not on
their order. -/
theorem entry?_eq_of_perm (h : Value.IsKeyed record) (hother : Value.IsKeyed other)
    (hperm : (fieldEntries other).Perm (fieldEntries record)) {k : String} (hk : k ∈ fieldNames) :
    Record.entry? other k = Record.entry? record k := by
  refine Option.ext fun v => ?_
  calc Record.entry? other k = some v
      ↔ (Value.text k, v) ∈ other := hother.lookup?_eq_some_iff
    _ ↔ (Value.text k, v) ∈ fieldEntries other := (mem_fieldEntries_iff hk).symm
    _ ↔ (Value.text k, v) ∈ fieldEntries record := hperm.mem_iff
    _ ↔ (Value.text k, v) ∈ record := mem_fieldEntries_iff hk
    _ ↔ Record.entry? record k = some v := h.lookup?_eq_some_iff.symm

/-- Records that agree in the entries with the names of fields describe the same item. -/
theorem value_ofRecord_eq_of_perm (h : Value.IsKeyed record) (hother : Value.IsKeyed other)
    (hperm : (fieldEntries other).Perm (fieldEntries record)) (recordFile root : String) :
    (ofRecord other recordFile root).value = (ofRecord record recordFile root).value := by
  rw [value_ofRecord hother, value_ofRecord h]
  exact congrArg _ (ofFields_congr fun _ hk => entry?_eq_of_perm h hother hperm hk)

/-- A record without its family, the other entries in their order. -/
def withoutFamily (record : Entries) : Entries := record.filter fun e => !e.1.same (.text "family")

theorem isKeyed_withoutFamily (h : Value.IsKeyed record) : Value.IsKeyed (withoutFamily record) :=
  h.sublist (List.filter_sublist.filterMap _)

/-- The family names no field of an item. -/
theorem fieldEntries_withoutFamily (record : Entries) :
    fieldEntries (withoutFamily record) = fieldEntries record := by
  rw [fieldEntries, withoutFamily, List.filter_filter, fieldEntries]
  refine List.filter_congr fun e _ => ?_
  cases hkey : e.1.same (.text "family") with
  | false => simp
  | true =>
    have hfamily : isFieldEntry e = false := by
      rw [isFieldEntry, Value.same_text_iff.mp hkey]
      decide
    simp [hfamily]

/-- Whatever its order, a record describes the same item, and so do all records that have the same
entries with the names of fields beside any others. This goes for the record that is left when the
family has been taken out, and the tree that takes up the item is the same too. -/
structure IsReadInAnyOrder (record : Entries) : Prop where
  rearranged : ∀ other : Entries, Value.IsKeyed other →
    (fieldEntries other).Perm (fieldEntries record) → ∀ recordFile root,
      (ofRecord other recordFile root).value = (ofRecord record recordFile root).value
  /-- The last entry moves into the place of the family. -/
  family_taken : ∀ recordFile root,
    (ofRecord (Record.takeFamily record).value.2 recordFile root).value =
      (ofRecord (withoutFamily record) recordFile root).value
  placed : ∀ other : Entries, other.Perm record → ∀ (t : Tree) (recordFile root),
    (t.addRecord other recordFile root).value = (t.addRecord record recordFile root).value

/-- A record, which has no key twice, is read in any order and with any other entries beside its
fields. -/
theorem isReadInAnyOrder (h : Value.IsKeyed record) : IsReadInAnyOrder record where
  rearranged other hother hperm := value_ofRecord_eq_of_perm h hother hperm
  family_taken recordFile root := by
    have hsame : (fieldEntries (withoutFamily record)).Perm (fieldEntries record) := by
      rw [fieldEntries_withoutFamily]
    rw [value_ofRecord_takeFamily h, ← value_ofRecord h]
    exact (value_ofRecord_eq_of_perm h (isKeyed_withoutFamily h) hsame recordFile root).symm
  placed other hperm t recordFile root := by
    have hother : Value.IsKeyed other := h.of_perm hperm
    have hfamily : Record.entry? other "family" = Record.entry? record "family" := by
      refine Option.ext fun v => ?_
      rw [Record.entry?, hother.lookup?_eq_some_iff, hperm.mem_iff, Record.entry?,
        h.lookup?_eq_some_iff]
    have hitem := value_ofRecord_eq_of_perm h hother (hperm.filter _) recordFile root
    rw [value_ofRecord hother, value_ofRecord h] at hitem
    simp only [Tree.addRecord, Logged.value_bind, Logged.value_pure, Record.value_takeFamily hother,
      Record.value_takeFamily h, hfamily, value_ofRecord_takeFamily hother,
      value_ofRecord_takeFamily h, hitem]

/-- A record with a family in front, a number and a tagged name among its keys, and another one with
the entries of its fields turned around, a truth value and nothing else beside them. -/
theorem isReadInAnyOrder_of_odd_keys :
    let record : Entries :=
      [(.text "family", .text "Ops"), (.text "title", .text "Load"), (.int 3, .text "title"),
      (.tagged "!k" (.text "title"), .text "no"), (.text "name", .text "a.png")]
    let other : Entries :=
      [(.text "name", .text "a.png"), (.bool true, .null), (.text "title", .text "Load")]
    (Value.IsKeyed record ∧ Value.IsKeyed other ∧ (fieldEntries other).Perm (fieldEntries record)) ∧
      IsReadInAnyOrder record ∧
      (ofRecord other "data/x.txt" "data").value = (ofRecord record "data/x.txt" "data").value ∧
      (Record.takeFamily record).value.2.map (fun e => e.1.asText?) =
        [some "name", some "title", none, some "title"] := by
  intro record other
  have h : Value.IsKeyed record := by decide
  have hother : Value.IsKeyed other := by decide
  have hperm : (fieldEntries other).Perm (fieldEntries record) := List.Perm.swap _ _ _
  have hread := isReadInAnyOrder h
  exact ⟨⟨h, hother, hperm⟩, hread, hread.rearranged other hother hperm _ _, by decide +kernel⟩

end Item

end Catalog
