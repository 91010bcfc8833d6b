import Catalog.Normal.Settling
import Catalog.Proofs.Text.Pieces
import Catalog.Record.Basic
import Mathlib.Data.List.Induction

/-!
# What values mean

A record may give a text as a number, one label as a list of them, and a keyword without its `#`.
What each kind of value stands for is told here by relations, case by case and apart from the
functions that read values, and every relation is shown to be what its reader does.

* `Value.IsWritten` relates a value to its text, `Value.StandsFor` a list to its members,
  `Value.IsNo` holds of the values that mean no, and `Rank.IsGivenBy` relates ranks to values;
* `Keyword.IsFor` relates a text to its keyword, `Value.GivesKeyword` and `Value.GivesLabelName` a
  value to the keywords and the names of labels that it gives;
* `Value.mem_toKeywords_iff` and `Value.exists_mem_toLabels_iff` say what reading keywords and
  labels gives.
-/

namespace Catalog

namespace Value

variable {v w : Value} {s : String}

/-! ### Texts -/

/-- Whether a value is a list, a mapping or under a tag. -/
def isNested : Value → Bool
  | .list _ => true
  | .map _ => true
  | .tagged _ _ => true
  | _ => false

/-- A value and the text that shows it. A nested value is shown by its document, which ends without
blanks, or by no text if it has none. -/
inductive IsWritten : Value → String → Prop
  | null : IsWritten .null ""
  | yes : IsWritten (.bool true) "true"
  | no : IsWritten (.bool false) "false"
  | int (i : Int) : IsWritten (.int i) (toString i)
  | float (x : Binary64) : IsWritten (.float x) (FloatNotation.document.render x)
  | text (s : String) : IsWritten (.text s) s
  | document {v : Value} {written : String} (hv : v.isNested = true)
    (h : Yaml.document v = some written) : IsWritten v (Text.trimEnd written)
  | undocumented {v : Value} (hv : v.isNested = true) (h : Yaml.document v = none) : IsWritten v ""

theorem toText_of_isNested (h : v.isNested = true) :
    v.toText = Text.trimEnd ((Yaml.document v).getD "") := by
  cases v with
  | list items => rfl
  | map entries => rfl
  | tagged tag content => rfl
  | _ => cases h

theorem isWritten_of_isNested (h : v.isNested = true) : v.IsWritten v.toText := by
  rw [toText_of_isNested h]
  cases hdocument : Yaml.document v with
  | none => exact .undocumented h hdocument
  | some written => exact .document h hdocument

theorem isWritten_toText (v : Value) : v.IsWritten v.toText := by
  cases v with
  | null => exact .null
  | bool b =>
    cases b with
    | true => exact .yes
    | false => exact .no
  | int i => exact .int i
  | float x => exact .float x
  | text s => exact .text s
  | list items => exact isWritten_of_isNested rfl
  | map entries => exact isWritten_of_isNested rfl
  | tagged tag content => exact isWritten_of_isNested rfl

/-- Every value is shown by one text. -/
theorem isWritten_iff : v.IsWritten s ↔ v.toText = s := by
  constructor
  · intro h
    cases h with
    | document hv h => rw [toText_of_isNested hv, h, Option.getD_some]
    | undocumented hv h =>
      rw [toText_of_isNested hv, h]
      rfl
    | _ => rfl
  · rintro rfl
    exact isWritten_toText v

/-- A value that is a text, perhaps under tags. -/
inductive Spells : Value → String → Prop
  | text (s : String) : Spells (.text s) s
  | tagged {tag : String} {v : Value} {s : String} (h : Spells v s) : Spells (.tagged tag v) s

theorem spells_iff : v.Spells s ↔ v.asText? = some s := by
  constructor
  · intro h
    induction h with
    | text s => rfl
    | tagged _ ih => exact ih
  · intro h
    fun_induction asText? v with
    | case1 =>
      cases h
      exact .text s
    | case2 tag v ih => exact .tagged (ih h)
    | case3 => cases h

/-! ### Members -/

/-- A list stands for its members, and any other value for itself, but nothing never counts. -/
inductive StandsFor : Value → Value → Prop
  | member {items : List Value} {w : Value} (h : w ∈ items) (hw : w ≠ .null) :
    StandsFor (.list items) w
  | self {v : Value} (hlist : ∀ items, v ≠ .list items) (hv : v ≠ .null) : StandsFor v v

theorem isNull_iff : v.isNull = true ↔ v = .null := by
  cases v <;> simp [isNull]

theorem isNull_eq_false_iff : v.isNull = false ↔ v ≠ .null := by
  rw [← Bool.not_eq_true, isNull_iff]

theorem standsFor_iff : v.StandsFor w ↔ w ∈ v.members := by
  constructor
  · intro h
    cases h with
    | member h hw =>
      exact List.mem_filter.mpr ⟨h, by rw [isNull_eq_false_iff.mpr hw, Bool.not_false]⟩
    | self hlist hv =>
      cases v with
      | null => exact absurd rfl hv
      | list items => exact absurd rfl (hlist items)
      | _ => exact List.mem_singleton.mpr rfl
  · intro h
    cases v with
    | null => cases h
    | list items =>
      obtain ⟨hmem, hw⟩ := List.mem_filter.mp h
      exact .member hmem (isNull_eq_false_iff.mp (Bool.not_eq_eq_eq_not.mp hw))
    | _ =>
      cases List.mem_singleton.mp h
      exact .self nofun nofun

/-! ### Yes and no -/

/-- The values that mean no: nothing, `false`, a zero, and what is empty, also under tags. -/
inductive IsNo : Value → Prop
  | null : IsNo .null
  | no : IsNo (.bool false)
  | zero : IsNo (.int 0)
  | floatZero {x : Binary64} (h : x.isZero = true) : IsNo (.float x)
  | text : IsNo (.text "")
  | list : IsNo (.list [])
  | map : IsNo (.map [])
  | tagged {tag : String} {v : Value} (h : IsNo v) : IsNo (.tagged tag v)

theorem isNo_iff : v.IsNo ↔ v.isTruthy = false := by
  constructor
  · intro h
    induction h with
    | floatZero h => simp [isTruthy, h]
    | tagged _ ih => exact ih
    | _ => rfl
  · intro h
    fun_induction isTruthy v with
    | case1 => exact .null
    | case2 b =>
      cases h
      exact .no
    | case3 i =>
      rw [bne_eq_false_iff_eq] at h
      rw [h]
      exact .zero
    | case4 x => exact .floatZero (by simpa using h)
    | case5 s =>
      rw [bne_eq_false_iff_eq] at h
      rw [h]
      exact .text
    | case6 items =>
      obtain rfl : items = [] := by simpa using h
      exact .list
    | case7 entries =>
      obtain rfl : entries = [] := by simpa using h
      exact .map
    | case8 tag content ih => exact .tagged (ih h)

end Value

/-! ### Ranks -/

/-- A rank and a value that gives it. Integers of 64 bits with a sign stay integers, and what is no
scalar ranks by its text. -/
inductive Rank.IsGivenBy : Value → Rank → Prop
  | bool (b : Bool) : IsGivenBy (.bool b) (.bool b)
  | int {i : Int} (h : i < 0x8000000000000000) : IsGivenBy (.int i) (.int i)
  | wide {i : Int} (h : 0x8000000000000000 ≤ i) : IsGivenBy (.int i) (.float (Binary64.ofInt i))
  | float (x : Binary64) : IsGivenBy (.float x) (.float x)
  | text (s : String) : IsGivenBy (.text s) (.text s)
  | nested {v : Value} {s : String} (hv : v.isNested = true) (hs : v.IsWritten s) :
    IsGivenBy v (.text s)

theorem Rank.ofValue?_of_isGivenBy {v : Value} {r : Rank} (h : IsGivenBy v r) :
    ofValue? v = some r := by
  cases h with
  | int h => exact congrArg some (if_pos h)
  | wide h => exact congrArg some (if_neg (Int.not_lt.mpr h))
  | nested hv hs =>
    rw [← Value.isWritten_iff.mp hs]
    cases v with
    | list items => rfl
    | map entries => rfl
    | tagged tag content => rfl
    | _ => cases hv
  | _ => rfl

/-! ### Keywords -/

namespace Keyword

/-- Characters with `_` in the place of spaces. -/
def underscored (cs : List Char) : List Char := cs.map fun c => if c = ' ' then '_' else c

/-- A text and its keyword: `_` takes the place of spaces, and `#` comes in front unless it is
there. -/
inductive IsFor : String → String → Prop
  | marked (cs : List Char) :
    IsFor (String.ofList ('#' :: cs)) (String.ofList ('#' :: underscored cs))
  | unmarked {cs : List Char} (h : cs.head? ≠ some '#') :
    IsFor (String.ofList cs) (String.ofList ('#' :: underscored cs))

theorem value_ofText_ofList (cs : List Char) :
    (ofText (String.ofList cs)).value = withHash (String.ofList (underscored cs)) := by
  rw [ofText, Logged.value_map, Text.value_exchange, Text.replaceChar, String.toList_ofList]
  rfl

/-- A space is no `#`, and neither is what takes its place. -/
theorem head?_underscored_eq_some_iff {cs : List Char} :
    (underscored cs).head? = some '#' ↔ cs.head? = some '#' := by
  cases cs with
  | nil => exact Iff.rfl
  | cons c rest =>
    show some (if c = ' ' then '_' else c) = some '#' ↔ some c = some '#'
    split
    · next h =>
      rw [h]
      decide
    · exact Iff.rfl

theorem value_ofText_of_isFor {s keyword : String} (h : IsFor s keyword) :
    (ofText s).value = keyword := by
  cases h with
  | marked cs =>
    rw [value_ofText_ofList, withHash, if_pos]
    · rfl
    · rw [Text.startsWith, String.toList_ofList]
      rfl
  | unmarked h =>
    rw [value_ofText_ofList, withHash, if_neg]
    · apply String.toList_inj.mp
      rw [Text.toList_hash_append, String.toList_ofList, String.toList_ofList]
    · rw [Text.startsWith, String.toList_ofList, beq_iff_eq, head?_underscored_eq_some_iff]
      exact h

/-- Every text has one keyword. -/
theorem isFor_iff {s keyword : String} : IsFor s keyword ↔ (ofText s).value = keyword := by
  refine ⟨value_ofText_of_isFor, ?_⟩
  rintro rfl
  obtain ⟨keyword, h⟩ : ∃ keyword, IsFor s keyword := by
    rw [← String.ofList_toList (s := s)]
    by_cases hhash : s.toList.head? = some '#'
    · obtain ⟨rest, hrest⟩ := List.head?_eq_some_iff.mp hhash
      rw [hrest]
      exact ⟨_, .marked rest⟩
    · exact ⟨_, .unmarked hhash⟩
  rwa [value_ofText_of_isFor h]

theorem IsFor.startsWith {s keyword : String} (h : IsFor s keyword) :
    Text.startsWith '#' keyword = true := by
  rw [← isFor_iff.mp h]
  exact startsWith_ofText s

theorem isFor_hash_append_iff {s b name : String} (h : (ofText s).value = "#" ++ b) :
    IsFor s ("#" ++ name) ↔ name = b := by
  rw [isFor_iff, h]
  constructor
  · intro heq
    rw [← bare_hash name, ← heq, bare_hash]
  · rintro rfl
    rfl

end Keyword

namespace Value

variable {v w : Value} {s keyword : String}

/-- One of the keywords that a value gives. -/
def GivesKeyword (v : Value) (keyword : String) : Prop :=
  ∃ w s, v.StandsFor w ∧ w.IsWritten s ∧ Keyword.IsFor s keyword

theorem mem_toKeywords_iff : keyword ∈ v.toKeywords.value ↔ v.GivesKeyword keyword := by
  rw [toKeywords, Logged.value_map, SortedSet.mem_ofList, Logged.value_mapList, List.mem_map]
  constructor
  · rintro ⟨w, hw, rfl⟩
    exact ⟨w, w.toText, standsFor_iff.mpr hw, isWritten_toText w, Keyword.isFor_iff.mpr rfl⟩
  · rintro ⟨w, s, hw, hs, hkeyword⟩
    rw [← isWritten_iff.mp hs] at hkeyword
    exact ⟨w, standsFor_iff.mp hw, Keyword.isFor_iff.mp hkeyword⟩

/-- A text gives its own keyword. -/
theorem givesKeyword_text_iff : (text s).GivesKeyword keyword ↔ Keyword.IsFor s keyword := by
  simp [GivesKeyword, standsFor_iff, members, isWritten_iff, toText]

/-! ### Labels -/

/-- A value and the name of the label that it gives. A mapping names it in the last of its entries
for the name, and may name none, and any other value is the name. -/
inductive NamesLabel : Value → String → Prop
  | entry {before after : Entries} {key v : Value} {s : String} (hkey : key.Spells "name")
    (hv : v.IsWritten s) (hlast : ∀ e ∈ after, ¬ e.1.Spells "name") :
    NamesLabel (.map (before ++ (key, v) :: after)) s
  | unnamed {entries : Entries} (h : ∀ e ∈ entries, ¬ e.1.Spells "name") :
    NamesLabel (.map entries) "no_name_provided"
  | written {v : Value} {s : String} (hmap : ∀ entries, v ≠ .map entries) (hv : v.IsWritten s) :
    NamesLabel v s

/-- An entry of a mapping changes the name of a label only if it is the entry for the name. -/
theorem name_setField (d : Label.Draft) (e : Value × Value) :
    (d.setField e).value.name = if e.1.asText? = some "name" then e.2.toText else d.name := by
  unfold Label.Draft.setField
  split <;> simp_all

theorem name_foldl_setField (d : Label.Draft) {entries : Entries}
    (h : ∀ e ∈ entries, ¬ e.1.Spells "name") :
    (entries.foldl (fun d e => (d.setField e).value) d).name = d.name := by
  induction entries generalizing d with
  | nil => rfl
  | cons e rest ih =>
    have hkey : ¬ e.1.asText? = some "name" := mt spells_iff.mpr (h e List.mem_cons_self)
    rw [List.foldl_cons, ih _ fun other hother => h other (List.mem_cons_of_mem _ hother),
      name_setField, if_neg hkey]

/-- What is no mapping is the name of its label, whether the name is well known or not. -/
theorem name_ofName (name : String) : (Label.Draft.ofName name).value.name = name := by
  unfold Label.Draft.ofName
  split <;> rfl

theorem name_ofValue_of_not_map (h : ∀ entries, v ≠ .map entries) :
    (Label.Draft.ofValue v).value.name = v.toText := by
  cases v with
  | map entries => exact absurd rfl (h entries)
  | _ => exact name_ofName _

theorem name_ofValue_of_namesLabel (h : v.NamesLabel s) :
    (Label.Draft.ofValue v).value.name = s := by
  cases h with
  | entry hkey hv hlast =>
    rw [Label.Draft.ofValue, Logged.value_foldList, List.foldl_append, List.foldl_cons,
      name_foldl_setField _ hlast, name_setField, if_pos (spells_iff.mp hkey)]
    exact isWritten_iff.mp hv
  | unnamed h =>
    rw [Label.Draft.ofValue, Logged.value_foldList]
    exact name_foldl_setField {} h
  | written hmap hv => rw [name_ofValue_of_not_map hmap, isWritten_iff.mp hv]

theorem exists_namesLabel_map (entries : Entries) : ∃ s, NamesLabel (.map entries) s := by
  induction entries using List.reverseRecOn with
  | nil => exact ⟨_, .unnamed nofun⟩
  | append_singleton front e ih =>
    obtain ⟨key, v⟩ := e
    by_cases hkey : key.Spells "name"
    · exact ⟨_, .entry hkey (isWritten_toText v) nofun⟩
    · -- the entry comes behind the one that counts
      obtain ⟨s, h⟩ := ih
      have hbehind : ∀ after : Entries, (∀ e ∈ after, ¬ e.1.Spells "name") →
          ∀ e ∈ after ++ [(key, v)], ¬ e.1.Spells "name" := by
        intro after hafter e he
        rcases List.mem_append.mp he with hmem | hlast
        · exact hafter e hmem
        · rw [List.mem_singleton.mp hlast]
          exact hkey
      cases h with
      | entry hname hv hlast =>
        rw [List.append_assoc, List.cons_append]
        exact ⟨_, .entry hname hv (hbehind _ hlast)⟩
      | unnamed h => exact ⟨_, .unnamed (hbehind _ h)⟩
      | written hmap => exact absurd rfl (hmap front)

/-- Every value names one label. -/
theorem namesLabel_iff : v.NamesLabel s ↔ (Label.Draft.ofValue v).value.name = s := by
  refine ⟨name_ofValue_of_namesLabel, ?_⟩
  rintro rfl
  obtain ⟨s, h⟩ : ∃ s, v.NamesLabel s := by
    cases v with
    | map entries => exact exists_namesLabel_map entries
    | _ => exact ⟨_, .written nofun (isWritten_toText _)⟩
  rwa [name_ofValue_of_namesLabel h]

/-- The name of one of the labels that a value gives. -/
def GivesLabelName (v : Value) (keyword : String) : Prop :=
  ∃ w s, v.StandsFor w ∧ w.NamesLabel s ∧ Keyword.IsFor s keyword

theorem exists_mem_toLabels_iff :
    (∃ l ∈ v.toLabels.value, l.name = keyword) ↔ v.GivesLabelName keyword := by
  have hmem : ∀ l, l ∈ v.toLabels.value ↔ ∃ w ∈ v.members, (Label.ofValue w).value = l := by
    intro l
    rw [toLabels, Logged.value_map, SortedSet.mem_ofList, Logged.value_mapList, List.mem_map]
  constructor
  · rintro ⟨l, hl, rfl⟩
    obtain ⟨w, hw, rfl⟩ := (hmem l).mp hl
    exact ⟨w, _, standsFor_iff.mpr hw, namesLabel_iff.mpr rfl, Keyword.isFor_iff.mpr rfl⟩
  · rintro ⟨w, s, hw, hs, hkeyword⟩
    rw [← namesLabel_iff.mp hs] at hkeyword
    exact ⟨_, (hmem _).mpr ⟨w, standsFor_iff.mp hw, rfl⟩, Keyword.isFor_iff.mp hkeyword⟩

/-- A text names its own label. -/
theorem givesLabelName_text_iff : (text s).GivesLabelName keyword ↔ Keyword.IsFor s keyword := by
  simp [GivesLabelName, standsFor_iff, members, namesLabel_iff, name_ofValue_of_not_map, toText]

end Value

end Catalog
