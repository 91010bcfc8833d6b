import Catalog.Proofs.Normal.Conservation
import Catalog.Proofs.Record.Meaning
import Catalog.Proofs.Yaml.Keys

/-!
# Items read from records

A record sets the fields of an item one by one. No key comes twice and no number is written like the
name of a field, so each field says what the entry of its name says, or its default if there is
none.

* `Record.keyName?_eq_some_iff` says that only a text has the name of a field, and
  `Record.field_foldEntries` what reading a record does to one field;
* `Record.lookup?_takeFamily` says that taking the family out of a record leaves the other entries
  as they were;
* `Item.ofFields` is an item that says what the values with the names of its fields say, and
  `Item.value_ofRecord` says that the item of a record is of this kind;
* `Record.GivesLocator` and `Record.GivesText` say what a record gives as a locator and as a text;
* `Item.Carries` says that an item shows the locators, the flag, the remark and the rank of a
  record: `Item.carries_ofRecord` says so of the item that is read, and `Carries.keeps` of what
  becomes of it.
-/

namespace Catalog

/-! ### Written numbers -/

/-- The text starts with something else than a letter. -/
def StartsWithoutLetter (cs : List Char) : Prop := ∃ c rest, cs = c :: rest ∧ c.isAlpha = false

namespace StartsWithoutLetter

theorem append {cs : List Char} (h : StartsWithoutLetter cs) (more : List Char) :
    StartsWithoutLetter (cs ++ more) := by
  obtain ⟨c, rest, rfl, hc⟩ := h
  exact ⟨c, rest ++ more, rfl, hc⟩

theorem take {cs : List Char} (h : StartsWithoutLetter cs) {n : Nat} (hn : 0 < n) :
    StartsWithoutLetter (cs.take n) := by
  obtain ⟨c, rest, rfl, hc⟩ := h
  obtain ⟨m, rfl⟩ := Nat.exists_eq_add_one.mpr hn
  exact ⟨c, rest.take m, rfl, hc⟩

theorem digitsOf (n : Nat) : StartsWithoutLetter (Decimal.digitsOf n) := by
  cases hdigits : Decimal.digitsOf n with
  | nil => exact absurd hdigits Nat.toDigits_ne_nil
  | cons c rest =>
    have hmem : c ∈ Nat.toDigits 10 n := by
      rw [← Decimal.digitsOf, hdigits]
      exact List.mem_cons_self
    have hdigit : c.isDigit = true := Nat.isDigit_of_mem_toDigits (by decide) (by decide) hmem
    have hrange : (decide (48 ≤ c.val) && decide (c.val ≤ 57)) = true := hdigit
    have hletter : (decide (65 ≤ c.val ∧ c.val ≤ 90) ||
        (decide (97 ≤ c.val) && decide (c.val ≤ 122))) = false := by
      grind
    exact ⟨c, rest, rfl, hletter⟩

theorem positional (style : FloatNotation) (d : Decimal) :
    StartsWithoutLetter (style.positional d) := by
  unfold FloatNotation.positional
  split
  · exact ((digitsOf _).append _).append _
  · dsimp only
    split
    · next hplaces => exact (((digitsOf _).take (by omega)).append _).append _
    · exact ⟨'0', _, rfl, rfl⟩

theorem scientific (d : Decimal) : StartsWithoutLetter (FloatNotation.scientific d) := by
  have hdigits := digitsOf d.digits
  unfold FloatNotation.scientific
  refine ((StartsWithoutLetter.append ?_ _).append _).append _
  split
  · next first second rest heq =>
    obtain ⟨c, more, hc, halpha⟩ := heq ▸ hdigits
    cases hc
    exact ⟨_, _, rfl, halpha⟩
  · exact hdigits

theorem ofInt (i : Int) : StartsWithoutLetter (Value.int i).toText.toList := by
  show StartsWithoutLetter (toString i).toList
  rw [Int.toString_eq_repr, Int.repr_eq_if]
  split
  · rw [Nat.toList_repr]
    exact digitsOf _
  · rw [String.toList_append]
    exact ⟨'-', _, rfl, rfl⟩

theorem ofFloat (x : Binary64) : StartsWithoutLetter (Value.float x).toText.toList := by
  show StartsWithoutLetter (FloatNotation.document.render x).toList
  unfold FloatNotation.render
  split
  · exact ⟨'.', _, rfl, rfl⟩
  · split
    · exact ⟨'-', _, rfl, rfl⟩
    · exact ⟨'.', _, rfl, rfl⟩
  · next negative mantissa exponent _ =>
    rw [String.toList_ofList]
    cases negative with
    | true => exact ⟨'-', _, rfl, rfl⟩
    | false =>
      show StartsWithoutLetter ([] ++ _)
      rw [List.nil_append]
      split
      · exact positional _ _
      · split
        · exact positional _ _
        · exact scientific _

end StartsWithoutLetter

namespace Record

/-! ### Names of fields -/

/-- Whether a text starts with a letter and is no truth value. -/
def isFieldName (k : String) : Bool :=
  k.toList.head?.any Char.isAlpha && k != "true" && k != "false"

theorem ne_of_startsWithoutLetter {k s : String} (hk : isFieldName k = true)
    (hs : StartsWithoutLetter s.toList) : s ≠ k := by
  rintro rfl
  obtain ⟨c, rest, heq, hc⟩ := hs
  simp [isFieldName, heq, hc] at hk

/-- Only a text is a key with the name of a field. -/
theorem keyName?_eq_some_iff {k : String} (hk : isFieldName k = true) {key : Value} :
    keyName? key = some k ↔ key = .text k := by
  constructor
  · intro h
    cases key with
    | text s =>
      cases h
      rfl
    | bool b =>
      rw [keyName?, Option.some.injEq] at h
      subst h
      cases b <;> cases hk
    | int i =>
      rw [keyName?, Option.some.injEq] at h
      exact absurd h (ne_of_startsWithoutLetter hk (StartsWithoutLetter.ofInt i))
    | float x =>
      rw [keyName?, Option.some.injEq] at h
      exact absurd h (ne_of_startsWithoutLetter hk (StartsWithoutLetter.ofFloat x))
    | _ => cases h
  · rintro rfl
    rfl

/-! ### One field -/

/-- What reading a record does to a field: the entry of its name sets it, and the others leave it
alone. -/
theorem field_foldEntries {α γ : Type} {f : α → String → Value → Logged α} {field : α → γ}
    {k : String} {g : Value → γ} (hk : isFieldName k = true)
    (hset : ∀ a v, field (f a k v).value = g v)
    (hframe : ∀ a key v, key ≠ k → field (f a key v).value = field a) {record : Entries}
    (h : Value.IsKeyed record) (a : α) :
    field (foldEntries f a record).value =
      ((Value.lookup? (.text k) record).map g).getD (field a) := by
  rw [foldEntries, Logged.value_foldList]
  induction record generalizing a with
  | nil => rfl
  | cons e rest ih =>
    rw [List.foldl_cons, ih h.of_cons]
    by_cases hkey : e.1 = .text k
    · obtain ⟨key, v⟩ := e
      cases hkey
      have hnone : Value.lookup? (.text k) rest = none :=
        Value.lookup?_eq_none_iff.mpr (List.nodup_cons.mp h).1
      rw [Value.lookup?_cons_text, hnone]
      exact hset a v
    · have hentry : field (foldEntry f a e).value = field a := by
        unfold foldEntry
        split
        · next key hname =>
          refine hframe a key e.2 fun heq => hkey ?_
          exact (keyName?_eq_some_iff hk).mp (heq ▸ hname)
        · rfl
      rw [Value.lookup?_cons_of_ne hkey, hentry]

/-! ### The family of a record -/

theorem isKeyed_takeFamily {record : Entries} (h : Value.IsKeyed record) :
    Value.IsKeyed (takeFamily record).value.2 := by
  unfold takeFamily
  split
  · exact h
  · next v rest hextract => exact h.of_extract? hextract

/-- Taking the family out of a record leaves the other entries as they were. -/
theorem lookup?_takeFamily {record : Entries} (h : Value.IsKeyed record) {k : String}
    (hk : k ≠ "family") :
    Value.lookup? (.text k) (takeFamily record).value.2 = Value.lookup? (.text k) record := by
  unfold takeFamily
  split
  · rfl
  · next v rest hextract => exact h.lookup?_rest hextract hk

/-! ### Entries with the name of a field -/

/-- The value of the entry with the name of a field. -/
def entry? (record : Entries) (k : String) : Option Value := Value.lookup? (.text k) record

theorem entry?_eq_none_iff {record : Entries} {k : String} :
    entry? record k = none ↔ ∀ v, (Value.text k, v) ∉ record := by
  rw [Record.entry?, Value.lookup?_eq_none_iff, Value.mem_textKeys, not_exists]

theorem entry?_eq_some_iff {record : Entries} (h : Value.IsKeyed record) {k : String} {v : Value} :
    entry? record k = some v ↔ (Value.text k, v) ∈ record := h.lookup?_eq_some_iff

/-- What a record in a file gives as the locator of a name. Without entry, or with nothing in it,
there is none. The empty locator stays as it is, and any other one is as seen from the data root. -/
inductive GivesLocator (record : Entries) (recordFile root k : String) : Option String → Prop
  | missing (h : ∀ v, (Value.text k, v) ∉ record) : GivesLocator record recordFile root k none
  | nothing (h : (Value.text k, Value.null) ∈ record) : GivesLocator record recordFile root k none
  | empty {v : Value} (h : (Value.text k, v) ∈ record) (hv : v ≠ .null) (hs : v.IsWritten "") :
    GivesLocator record recordFile root k (some "")
  | rebased {v : Value} {s : String} (h : (Value.text k, v) ∈ record) (hv : v ≠ .null)
    (hs : v.IsWritten s) (hne : s ≠ "") :
    GivesLocator record recordFile root k (some (Path.rebase s recordFile root))

/-- What a record gives as the text of a name, where `otherwise` stands if it has no entry for
it. -/
inductive GivesText (record : Entries) (k otherwise : String) : String → Prop
  | missing (h : ∀ v, (Value.text k, v) ∉ record) : GivesText record k otherwise otherwise
  | entry {v : Value} {s : String} (h : (Value.text k, v) ∈ record) (hs : v.IsWritten s) :
    GivesText record k otherwise s

theorem givesLocator_entry? {record : Entries} (h : Value.IsKeyed record)
    (recordFile root k : String) : GivesLocator record recordFile root k
      (((Record.entry? record k).bind Value.textUnlessNull).map
        (Item.rebaseLocator recordFile root)) := by
  cases hentry : entry? record k with
  | none => exact .missing (Record.entry?_eq_none_iff.mp hentry)
  | some v =>
    have hmem := (Record.entry?_eq_some_iff h).mp hentry
    rw [Option.bind_some, Value.textUnlessNull]
    split
    · next hnull =>
      obtain rfl := Value.isNull_iff.mp hnull
      exact .nothing hmem
    · next hnull =>
      have hv : v ≠ .null := mt Value.isNull_iff.mpr hnull
      rw [Option.map_some, Item.rebaseLocator]
      split
      · next hempty =>
        have htext := v.isWritten_toText
        rw [beq_iff_eq.mp hempty] at htext ⊢
        exact .empty hmem hv htext
      · next hne => exact .rebased hmem hv v.isWritten_toText (mt beq_iff_eq.mpr hne)

/-- Every record gives one locator for every name, or none. -/
theorem givesLocator_iff {record : Entries} (h : Value.IsKeyed record) {recordFile root k : String}
    {locator : Option String} : GivesLocator record recordFile root k locator ↔
      ((Record.entry? record k).bind Value.textUnlessNull).map
        (Item.rebaseLocator recordFile root) = locator := by
  constructor
  · intro hgives
    cases hgives with
    | missing hnone => rw [Record.entry?_eq_none_iff.mpr hnone, Option.bind_none, Option.map_none]
    | nothing hmem =>
      rw [(Record.entry?_eq_some_iff h).mpr hmem]
      rfl
    | empty hmem hv hs =>
      rw [(Record.entry?_eq_some_iff h).mpr hmem, Option.bind_some, Value.textUnlessNull,
        if_neg (mt Value.isNull_iff.mp hv), Value.isWritten_iff.mp hs]
      rfl
    | rebased hmem hv hs hne =>
      rw [(Record.entry?_eq_some_iff h).mpr hmem, Option.bind_some, Value.textUnlessNull,
        if_neg (mt Value.isNull_iff.mp hv), Value.isWritten_iff.mp hs, Option.map_some,
        Item.rebaseLocator, if_neg (mt beq_iff_eq.mp hne)]
  · rintro rfl
    exact givesLocator_entry? h recordFile root k

theorem givesText_entry? {record : Entries} (h : Value.IsKeyed record) (k otherwise : String) :
    GivesText record k otherwise (((Record.entry? record k).map Value.toText).getD otherwise) := by
  cases hentry : entry? record k with
  | none => exact .missing (Record.entry?_eq_none_iff.mp hentry)
  | some v => exact .entry ((Record.entry?_eq_some_iff h).mp hentry) v.isWritten_toText

end Record

namespace Item

/-! ### The item of a record -/

/-- The item shows the locators, the flag, the remark and the rank of a record in a file. A record
without rank leaves the rank open. -/
structure Carries (record : Entries) (recordFile root : String) (item : Item) : Prop where
  name : Record.GivesLocator record recordFile root "name" item.name
  file : Record.GivesLocator record recordFile root "file" item.file
  exportFile : Record.GivesLocator record recordFile root "export" item.exportFile
  showTitle : item.showTitle = true ↔ ∃ v, (Value.text "showtitle", v) ∈ record ∧ ¬ v.IsNo
  other : ∀ v, item.other = some v ↔ (Value.text "other", v) ∈ record ∧ v ≠ .null
  rank : ∀ v r, (Value.text "rank", v) ∈ record → Rank.IsGivenBy v r → item.rank = some r

variable {record : Entries} {recordFile root : String} {before after : Item}

theorem Carries.keeps (h : Carries record recordFile root before) (hkeeps : Keeps before after) :
    Carries record recordFile root after where
  name := by
    rw [hkeeps.name]
    exact h.name
  file := by
    rw [hkeeps.file]
    exact h.file
  exportFile := by
    rw [hkeeps.exportFile]
    exact h.exportFile
  showTitle := by
    rw [hkeeps.showTitle]
    exact h.showTitle
  other := by
    rw [hkeeps.other]
    exact h.other
  rank v r hv hr := hkeeps.rank r (h.rank v r hv hr)

/-- The names by which a record sets a field of an item. -/
def fieldNames : List String :=
  ["name", "file", "export", "title", "index", "pretext", "text", "labels", "rank",
    "showtitle", "other"]

theorem isFieldName_of_mem {k : String} (h : k ∈ fieldNames) : Record.isFieldName k = true :=
  List.all_eq_true.mp (by decide : fieldNames.all Record.isFieldName = true) k h

/-- The item whose fields say what the values with their names say, or nothing where there is no
value. -/
def ofFields (value? : String → Option Value) : Item where
  name := (value? "name").bind Value.textUnlessNull
  file := (value? "file").bind Value.textUnlessNull
  exportFile := (value? "export").bind Value.textUnlessNull
  rank := (value? "rank").bind Rank.ofValue?
  showTitle := ((value? "showtitle").map Value.isTruthy).getD false
  other := (value? "other").bind fun v => if v.isNull then none else some v
  pending :=
    { title := value? "title"
      text := value? "text"
      pretext := value? "pretext"
      index := value? "index"
      labels := value? "labels" }

/-- No other names count. -/
theorem ofFields_congr {f g : String → Option Value} (h : ∀ k ∈ fieldNames, f k = g k) :
    ofFields f = ofFields g := by
  simp only [fieldNames, List.forall_mem_cons] at h
  obtain ⟨hname, hfile, hexport, htitle, hindex, hpretext, htext, hlabels, hrank, hshow,
    hother, _⟩ := h
  simp only [ofFields, hname, hfile, hexport, htitle, hindex, hpretext, htext, hlabels, hrank,
    hshow, hother]

/-- An entry gives one more value, by its name. -/
theorem setField_ofFields (value? : String → Option Value) (key : String) (v : Value) :
    (setField (ofFields value?) key v).value = ofFields (Function.update value? key (some v)) := by
  unfold setField
  split
  case h_12 =>
    -- the entry is passed over, and its name is none of those that count
    refine ofFields_congr fun k hk => (Function.update_of_ne ?_ _ _).symm
    rintro rfl
    simp_all [fieldNames]
  all_goals simp [ofFields]

theorem foldEntry_ofFields (value? : String → Option Value) (entry : Value × Value) :
    (Record.foldEntry setField (ofFields value?) entry).value =
      ofFields (((Record.keyName? entry.1).map fun key =>
        Function.update value? key (some entry.2)).getD value?) := by
  unfold Record.foldEntry
  split
  · next key hkey =>
    rw [hkey]
    exact setField_ofFields value? key entry.2
  · next hkey =>
    rw [hkey]
    rfl

/-- Going through the entries of a record gives the values that the record has, in the place of
those before. -/
theorem foldEntries_ofFields (h : Value.IsKeyed record) (value? : String → Option Value) :
    (Record.foldEntries setField (ofFields value?) record).value =
      ofFields fun k => (Record.entry? record k).or (value? k) := by
  rw [Record.foldEntries, Logged.value_foldList]
  induction record generalizing value? with
  | nil => rfl
  | cons e rest ih =>
    rw [List.foldl_cons, foldEntry_ofFields, ih h.of_cons]
    refine ofFields_congr fun k hk => ?_
    have hname : Record.keyName? e.1 = some k ↔ e.1 = .text k :=
      Record.keyName?_eq_some_iff (isFieldName_of_mem hk)
    by_cases hkey : e.1 = .text k
    · obtain ⟨key, v⟩ := e
      cases hkey
      have hnone : Record.entry? rest k = none :=
        Value.lookup?_eq_none_iff.mpr (List.nodup_cons.mp h).1
      have hsome : Record.entry? ((.text k, v) :: rest) k = some v :=
        Value.lookup?_cons_text k v rest
      rw [hnone, hsome]
      exact Function.update_self k (some v) value?
    · have hrest : Record.entry? (e :: rest) k = Record.entry? rest k :=
        Value.lookup?_cons_of_ne hkey
      rw [hrest]
      cases hother : Record.keyName? e.1 with
      | none => rfl
      | some key =>
        have hne : k ≠ key := by
          rintro rfl
          exact hkey (hname.mp hother)
        show (Record.entry? rest k).or (Function.update value? key (some e.2) k) = _
        rw [Function.update_of_ne hne]

/-- The item of a record says in each field what the entry of its name says. -/
theorem value_ofRecord (h : Value.IsKeyed record) (recordFile root : String) :
    (ofRecord record recordFile root).value =
      mapLocators (rebaseLocator recordFile root) (ofFields (Record.entry? record)) := by
  have hfields : (Record.foldEntries setField {} record).value =
      ofFields (Record.entry? record) := by
    refine (foldEntries_ofFields h fun _ => none).trans ?_
    simp only [Option.or_none]
  rw [ofRecord, Logged.value_map, hfields]

/-- The family of a record says nothing about its item. -/
theorem value_ofRecord_takeFamily (h : Value.IsKeyed record) (recordFile root : String) :
    (ofRecord (Record.takeFamily record).value.2 recordFile root).value =
      mapLocators (rebaseLocator recordFile root) (ofFields (Record.entry? record)) := by
  rw [value_ofRecord (Record.isKeyed_takeFamily h)]
  refine congrArg _ (ofFields_congr fun k hk => Record.lookup?_takeFamily h ?_)
  rintro rfl
  exact absurd hk (by decide)

/-- The item of a record carries what the record says. -/
theorem carries_ofRecord (h : Value.IsKeyed record) (recordFile root : String) :
    Carries record recordFile root
      (ofRecord (Record.takeFamily record).value.2 recordFile root).value := by
  rw [value_ofRecord_takeFamily h]
  have hentry : ∀ k v, Record.entry? record k = some v ↔ (Value.text k, v) ∈ record := fun _ _ =>
    Record.entry?_eq_some_iff h
  refine {
    name := Record.givesLocator_entry? h recordFile root "name"
    file := Record.givesLocator_entry? h recordFile root "file"
    exportFile := Record.givesLocator_entry? h recordFile root "export"
    showTitle := ?_
    other := fun v => ?_
    rank := fun v r hv hr => ?_ }
  · show ((Record.entry? record "showtitle").map Value.isTruthy).getD false = true ↔ _
    simp only [← hentry, Value.isNo_iff]
    cases Record.entry? record "showtitle" <;> simp
  · show ((Record.entry? record "other").bind fun v => if v.isNull then none else some v) = some v ↔
      _
    rw [← hentry, Option.bind_eq_some_iff]
    constructor
    · rintro ⟨w, hw, hif⟩
      split at hif
      · cases hif
      · next hnull =>
        cases hif
        exact ⟨hw, mt Value.isNull_iff.mpr hnull⟩
    · rintro ⟨hv, hnull⟩
      exact ⟨v, hv, if_neg (mt Value.isNull_iff.mp hnull)⟩
  · show (Record.entry? record "rank").bind Rank.ofValue? = some r
    rw [(hentry "rank" v).mpr hv, Option.bind_some, Rank.ofValue?_of_isGivenBy hr]

/-! ### Marks -/

/-- A record only names keywords and labels, and the item has none before they are settled. -/
theorem marks_ofRecord (record : Entries) (recordFile root : String) :
    (ofRecord record recordFile root).value.index = ∅ ∧
      (ofRecord record recordFile root).value.labels = ∅ := by
  have hfields : ∃ value?, (Record.foldEntries setField {} record).value = ofFields value? := by
    rw [Record.foldEntries, Logged.value_foldList]
    refine List.foldlRecOn (motive := fun item : Item => ∃ value?, item = ofFields value?) record _
      ⟨fun _ => none, rfl⟩ fun item hitem e _ => ?_
    obtain ⟨value?, rfl⟩ := hitem
    exact ⟨_, foldEntry_ofFields value? e⟩
  obtain ⟨value?, hvalue⟩ := hfields
  rw [ofRecord, Logged.value_map, hvalue]
  exact ⟨rfl, rfl⟩

end Item

end Catalog
