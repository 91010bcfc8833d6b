import Catalog.Proofs.Record.Values
import Catalog.Proofs.Text.Pieces

/-!
# Labels read back

An exported family shows its labels as mappings of five texts. The name of a label that was read is
a keyword, and a keyword stays as it is when it is read again, so such a label is read back from its
mapping.

* `Label.HasKeyword` says that the name of a label is a keyword, as it is for every label that was
  read;
* `Label.ofValue_toValue` reads one label back, and `Value.toLabels_list` a set of them;
  `Label.hasKeyword_iff` says that no other labels are read from values;
* `Family.givenLabels_reread` says that the labels of a family are all given to it when it is read
  again.
-/

namespace Catalog

theorem Keyword.ofText_of_startsWith {s : String} (hhash : Text.startsWith '#' s = true)
    (hspace : ' ' ∉ s.toList) : (ofText s).value = s := by
  rw [ofText, Logged.value_map, Text.value_exchange, Text.replaceChar_of_not_mem hspace, withHash,
    if_pos hhash]

namespace Label

variable {l : Label}

/-- The name of the label is a keyword. -/
structure HasKeyword (l : Label) : Prop where
  hash : Text.startsWith '#' l.name = true
  space : ' ' ∉ l.name.toList

theorem hasKeyword_ofValue (v : Value) : (ofValue v).value.HasKeyword where
  hash := by
    rw [name_ofValue]
    exact Keyword.startsWith_ofText _
  space := by
    rw [name_ofValue]
    exact Keyword.not_space_mem_ofText _

theorem value_toLabel (d : Draft) :
    d.toLabel.value = ⟨(Keyword.ofText d.name).value, d.text, d.color, d.textColor,
      d.tooltip.getD ("Use " ++ (Keyword.ofText d.name).value ++ " to search for this label.")⟩ :=
        rfl

/-- A label whose name is a keyword is read back from the mapping of its fields. -/
theorem ofValue_toValue (h : l.HasKeyword) : (ofValue l.toValue).value = l := by
  have hdraft : (Draft.ofValue l.toValue).value =
      ⟨l.name, l.text, l.color, l.textColor, some l.tooltip⟩ := rfl
  rw [ofValue, Logged.value_bind, hdraft, value_toLabel,
    Keyword.ofText_of_startsWith h.hash h.space, Option.getD_some]

/-- The labels that are read from values are those whose names are keywords. -/
theorem hasKeyword_iff : l.HasKeyword ↔ ∃ v, (ofValue v).value = l := by
  constructor
  · intro h
    exact ⟨l.toValue, ofValue_toValue h⟩
  · rintro ⟨v, rfl⟩
    exact hasKeyword_ofValue v

/-- Reading the mapping of its fields notes no warning either. -/
theorem ofValue_toValue_eq_pure (h : l.HasKeyword) : ofValue l.toValue = pure l := by
  have hname : Keyword.ofText l.name = pure (Keyword.withHash l.name) := by
    have hspace : ¬ l.name.toList.contains ' ' = true := mt List.contains_iff_mem.mp h.space
    rw [Keyword.ofText, Text.exchange, if_neg hspace]
    rfl
  have hdraft : Draft.ofValue l.toValue =
      pure ⟨l.name, l.text, l.color, l.textColor, some l.tooltip⟩ := rfl
  refine Logged.ext (ofValue_toValue h) ?_
  rw [ofValue, hdraft, pure_bind, Draft.toLabel, hname]
  rfl

end Label

namespace Value

theorem hasKeyword_of_mem_toLabels {v : Value} {l : Label} (h : l ∈ v.toLabels.value) :
    l.HasKeyword := by
  rw [toLabels, Logged.value_map, SortedSet.mem_ofList, Logged.value_mapList, List.mem_map] at h
  obtain ⟨w, _, rfl⟩ := h
  exact Label.hasKeyword_ofValue w

/-- Labels whose names are keywords are read back from the list of their mappings. -/
theorem toLabels_list {labels : SortedSet Label} (h : ∀ l ∈ labels, l.HasKeyword) :
    (Value.list (labels.toList.map Label.toValue)).toLabels.value = labels := by
  have hmembers : (Value.list (labels.toList.map Label.toValue)).members =
      labels.toList.map Label.toValue := by
    refine List.filter_eq_self.mpr fun v hv => ?_
    obtain ⟨l, _, rfl⟩ := List.mem_map.mp hv
    rfl
  have hread : (labels.toList.map Label.toValue).map (fun v => (Label.ofValue v).value) =
      labels.toList := by
    rw [List.map_map]
    exact (List.map_congr_left fun l hl => Label.ofValue_toValue (h l hl)).trans (List.map_id' _)
  refine SortedSet.ext_mem fun l => ?_
  rw [toLabels, Logged.value_map, SortedSet.mem_ofList, Logged.value_mapList, hmembers, hread,
    SortedSet.mem_toList]

end Value

namespace Family

variable {f : Family}

theorem hasKeyword_of_mem_givenLabels {l : Label} (h : l ∈ f.givenLabels) : l.HasKeyword := by
  obtain ⟨v, _, hl⟩ := mem_givenLabels.mp h
  exact Value.hasKeyword_of_mem_toLabels hl

/-- All labels of a family without pending ones are given to it when it is read again. -/
theorem givenLabels_reread (hpending : f.pending.labels = none) (h : ∀ l ∈ f.labels, l.HasKeyword)
    (items : List Item) : (f.reread items).givenLabels = f.labels := by
  have hvalue : f.labelsValue = .list (f.labels.toList.map Label.toValue) := by
    rw [labelsValue, hpending]
    rfl
  rw [givenLabels, reread, hvalue, Option.filter_some]
  cases hlabels : f.labels.toList with
  | nil =>
    have hempty : f.labels = ∅ := SortedSet.ext_toList hlabels
    rw [hempty]
    rfl
  | cons l rest =>
    have hread := Value.toLabels_list h
    rw [hlabels] at hread
    exact hread

end Family

end Catalog
