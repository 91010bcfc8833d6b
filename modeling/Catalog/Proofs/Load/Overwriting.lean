import Catalog.Proofs.Load.Families
import Catalog.Proofs.Record.Item
import Mathlib.Data.List.Induction

/-!
# The last entry wins

A families document may tell about one family in several entries, and an entry may be no mapping,
name no family or name one that is not there. Of the values that the entries about a family give to
one of its fields the last one counts, and what no entry mentions stays as it is.

* `Family.overwrite` puts given values in the place of what is known about a family, and
  `Family.value_merge` says that merging a record does so;
* `Tree.subject?` is the family that an entry is about, and `Tree.lastGiven` what the last of the
  entries about a family gives to a field;
* `Tree.OverwrittenBy` says how far applying a document has come: `overwrittenBy_step` is the step
  and `overwrittenBy_foldl` the run;
* `WellFormed.overwrites_applyFamilies` says what a document does to a tree, and
  `WellFormed.family_describe` what several do to its families.
-/

namespace Catalog

/-! ### Values given to a family -/

namespace Family

variable {f : Family} {record : Entries}

/-- The family with given values in the place of what was known before. What is not given stays as
it is, and nothing given as a rank takes the rank away. -/
def overwrite (f : Family) (given : String → Option Value) : Family :=
  { f with
    rank := ((given "rank").map Rank.ofValue?).getD f.rank
    pending :=
      { text := (given "text").or f.pending.text
        aliasName := (given "alias").or f.pending.aliasName
        labels := (given "labels").or f.pending.labels } }

/-- Values that are given later come first. -/
theorem overwrite_overwrite (f : Family) (given later : String → Option Value) :
    (f.overwrite given).overwrite later = f.overwrite fun field =>
      (later field).or (given field) := by
  have hrank : ((later "rank").map Rank.ofValue?).getD
      (((given "rank").map Rank.ofValue?).getD f.rank) =
      (((later "rank").or (given "rank")).map Rank.ofValue?).getD f.rank := by
    cases later "rank" <;> rfl
  simp only [overwrite, Option.or_assoc, hrank]

/-- An entry changes the field that it names, and the others are left alone. -/
theorem setField_frame (f : Family) (key : String) (v : Value) :
    (setField f key v).value =
      { f with
        rank := (setField f key v).value.rank, pending := (setField f key v).value.pending } ∧
    (key ≠ "rank" → (setField f key v).value.rank = f.rank) ∧
    (key ≠ "text" → (setField f key v).value.pending.text = f.pending.text) ∧
    (key ≠ "alias" → (setField f key v).value.pending.aliasName = f.pending.aliasName) ∧
    (key ≠ "labels" → (setField f key v).value.pending.labels = f.pending.labels) := by
  unfold setField
  split <;> simp [Record.passOver]

/-- A record changes the rank and the pending values and nothing else. -/
theorem merge_frame (f : Family) (record : Entries) :
    (f.merge record).value =
      { f with
        rank := (f.merge record).value.rank, pending := (f.merge record).value.pending } := by
  rw [merge, Record.foldEntries, Logged.value_foldList]
  refine List.foldlRecOn (motive := fun g : Family =>
    g = { f with rank := g.rank, pending := g.pending }) record _ rfl
    fun g hg e _ => ?_
  unfold Record.foldEntry
  split
  · next key _ =>
    have hset := (setField_frame g key e.2).1
    rw [hg] at hset ⊢
    exact hset
  · exact hg

/-- A pending value is what the entry of its name says, or what it was before if there is none. -/
theorem pending_merge (h : Value.IsKeyed record) (f : Family) (field : Family → Option Value)
    {k : String} (hk : Record.isFieldName k = true)
    (hset : ∀ f v, field (setField f k v).value = some v)
    (hframe : ∀ f key v, key ≠ k → field (setField f key v).value = field f) :
    field (f.merge record).value = (Value.lookup? (.text k) record).or (field f) := by
  rw [merge, Record.field_foldEntries hk hset hframe h]
  cases Value.lookup? (.text k) record <;> rfl

/-- Merging a record puts its entries in the place of what was known before. -/
theorem value_merge (h : Value.IsKeyed record) (f : Family) :
    (f.merge record).value = f.overwrite fun field => Value.lookup? (.text field) record := by
  have hrank : (f.merge record).value.rank =
      ((Value.lookup? (.text "rank") record).map Rank.ofValue?).getD f.rank :=
    Record.field_foldEntries rfl (fun _ _ => rfl) (fun f key v => (setField_frame f key v).2.1) h f
  have htext := pending_merge h f (fun f => f.pending.text) rfl (fun _ _ => rfl)
    fun f key v => (setField_frame f key v).2.2.1
  have halias := pending_merge h f (fun f => f.pending.aliasName) rfl (fun _ _ => rfl)
    fun f key v => (setField_frame f key v).2.2.2.1
  have hlabels := pending_merge h f (fun f => f.pending.labels) rfl (fun _ _ => rfl)
    fun f key v => (setField_frame f key v).2.2.2.2
  rw [merge_frame, overwrite, hrank, ← htext, ← halias, ← hlabels]

end Family

/-! ### Entries of a document -/

namespace Value

/-- The entries of a families document. One that is no list has none. -/
def listed : Value → List Value
  | .list entries => entries
  | _ => []

/-- The value that an entry gives to a field. One that is no mapping gives none. -/
def field? (entry : Value) (field : String) : Option Value :=
  match entry with
  | .map fields => lookup? (.text field) fields
  | _ => none

/-- No mapping among the entries has a key twice. -/
def AreKeyed (entries : List Value) : Prop := ∀ fields, .map fields ∈ entries → IsKeyed fields

theorem areKeyed_nil : AreKeyed [] := fun _ hmem => absurd hmem List.not_mem_nil

theorem areKeyed_map_cons {fields : Entries} {entries : List Value} :
    AreKeyed (.map fields :: entries) ↔ IsKeyed fields ∧ AreKeyed entries := by
  simp [AreKeyed, or_imp, forall_and]

end Value

namespace Tree

variable {t u : Tree} {entries : List Value} {n : Nat}

/-- The family that an entry is about: it is a mapping, and what it names as its family is the path
of one. -/
def subject? (t : Tree) (entry : Value) : Option Nat :=
  (entry.field? "family").bind fun v => t.find? (Record.familyPath v).value

/-- What the last of the entries that are about a family and mention a field gives to this field. -/
def lastGiven (t : Tree) (entries : List Value) (id : Nat) (field : String) : Option Value :=
  ((entries.filter fun entry => t.subject? entry = some id).filterMap fun entry =>
    entry.field? field).getLast?

theorem lastGiven_append (t : Tree) (entries others : List Value) (id : Nat) (field : String) :
    t.lastGiven (entries ++ others) id field =
      (t.lastGiven others id field).or (t.lastGiven entries id field) := by
  rw [lastGiven, List.filter_append, List.filterMap_append, List.getLast?_append]
  rfl

theorem lastGiven_concat (t : Tree) (entries : List Value) (entry : Value) (id : Nat)
    (field : String) : t.lastGiven (entries ++ [entry]) id field =
      if t.subject? entry = some id then (entry.field? field).or (t.lastGiven entries id field)
      else t.lastGiven entries id field := by
  have hone : t.lastGiven [entry] id field = if t.subject? entry = some id then entry.field? field
      else none := by
    rw [lastGiven]
    by_cases hsubject : t.subject? entry = some id
    · cases hfield : entry.field? field <;> simp [hsubject, hfield]
    · simp [hsubject]
  rw [lastGiven_append, hone]
  split <;> rfl

theorem SameLinks.subject? (h : SameLinks t u) (entry : Value) :
    u.subject? entry = t.subject? entry :=
  congrArg _ (funext fun v => h.find? (Record.familyPath v).value)

theorem WellFormed.lt_size_of_subject? (h : t.WellFormed) {entry : Value} {id : Nat}
    (hid : t.subject? entry = some id) : id < t.size := by
  obtain ⟨v, _, hfind⟩ := Option.bind_eq_some_iff.mp hid
  exact (h.find?_eq_some_iff.mp hfind).1

/-! ### Applying a document -/

/-- An entry overwrites the family that it is about, and one that is about none does nothing. -/
theorem value_applyFamily (u : Tree) (n : Nat) {entry : Value}
    (hkeyed : ∀ fields, entry = .map fields → Value.IsKeyed fields) :
    (applyFamily (u, n) entry).value =
      match u.subject? entry with
      | some id => (u.modify id fun _ => (u.family id).overwrite entry.field?, n + 1)
      | none => (u, n) := by
  cases entry with
  | map fields =>
    have h := hkeyed fields rfl
    cases hextract : Value.extract? (.text "family") fields with
    | none =>
      have hsubject : u.subject? (.map fields) = none := by
        rw [subject?, Value.field?, Value.lookup?_of_extract?_eq_none hextract]
        rfl
      simp only [applyFamily, hextract, hsubject, Logged.value_bind, Logged.value_pure]
    | some taken =>
      obtain ⟨v, rest⟩ := taken
      have hsubject : u.subject? (.map fields) = u.find? (Record.familyPath v).value := by
        rw [subject?, Value.field?, h.lookup?_of_extract? hextract]
        rfl
      have hmerge : ∀ f : Family, (f.merge rest).value = f.overwrite (Value.map fields).field? := by
        intro f
        rw [Family.value_merge (h.of_extract? hextract)]
        simp only [Family.overwrite, Value.field?]
        rw [h.lookup?_rest hextract, h.lookup?_rest hextract, h.lookup?_rest hextract,
          h.lookup?_rest hextract]
        all_goals decide
      simp only [applyFamily, hextract, hsubject, Logged.value_bind]
      cases u.find? (Record.familyPath v).value with
      | none => rfl
      | some id => simp only [Logged.value_bind, Logged.value_pure, hmerge]
  | _ => rfl

/-- How far applying a document has come: every family is overwritten by the last entries about it,
and those that are about some family are counted. -/
structure OverwrittenBy (t : Tree) (entries : List Value) (u : Tree) (n : Nat) : Prop where
  links : SameLinks t u
  family : ∀ id, u.family id = (t.family id).overwrite (t.lastGiven entries id)
  count : n = entries.countP fun entry => (t.subject? entry).isSome

theorem overwrittenBy_start (t : Tree) : OverwrittenBy t [] t 0 where
  links := SameLinks.refl t
  family _ := rfl
  count := rfl

theorem overwrittenBy_step (h : t.WellFormed) (hu : OverwrittenBy t entries u n) {entry : Value}
    (hkeyed : ∀ fields, entry = .map fields → Value.IsKeyed fields) :
    OverwrittenBy t (entries ++ [entry])
      (applyFamily (u, n) entry).value.1 (applyFamily (u, n) entry).value.2 := by
  rw [value_applyFamily u n hkeyed, hu.links.subject?]
  cases hsubject : t.subject? entry with
  | none =>
    refine ⟨hu.links, fun id => ?_, ?_⟩
    · have hgiven : t.lastGiven (entries ++ [entry]) id = t.lastGiven entries id := by
        funext field
        rw [lastGiven_concat, hsubject, if_neg nofun]
      rw [hu.family, hgiven]
    · rw [hu.count, List.countP_append, List.countP_singleton, hsubject]
      rfl
  | some id =>
    have hid : id < u.size := by
      rw [hu.links.size]
      exact h.lt_size_of_subject? hsubject
    refine ⟨hu.links.trans (sameLinks_modify u id fun _ => (u.family id).overwrite entry.field?),
      fun other => ?_, ?_⟩
    · show (u.modify id fun _ => (u.family id).overwrite entry.field?).family other = _
      by_cases e : other = id
      · have hgiven : t.lastGiven (entries ++ [entry]) id =
            fun field => (entry.field? field).or (t.lastGiven entries id field) := by
          funext field
          rw [lastGiven_concat, if_pos hsubject]
        rw [e, family_modify_self hid, hu.family, Family.overwrite_overwrite, hgiven]
      · have hgiven : t.lastGiven (entries ++ [entry]) other = t.lastGiven entries other := by
          funext field
          rw [lastGiven_concat, hsubject, if_neg fun heq => e (Option.some.inj heq).symm]
        rw [family_modify_of_ne e, hu.family, hgiven]
    · rw [hu.count, List.countP_append, List.countP_singleton, hsubject]
      rfl

theorem overwrittenBy_foldl (h : t.WellFormed) (hkeyed : Value.AreKeyed entries) :
    let after := entries.foldl (fun counted entry => (applyFamily counted entry).value) (t, 0)
    OverwrittenBy t entries after.1 after.2 := by
  induction entries using List.reverseRecOn with
  | nil => exact overwrittenBy_start t
  | append_singleton before entry ih =>
    rw [List.foldl_append]
    refine overwrittenBy_step h (ih fun fields hmem => hkeyed fields (List.mem_append_left _ hmem))
      fun fields heq => ?_
    exact hkeyed fields (by simp [heq])

theorem WellFormed.overwrittenBy_applyFamilies (h : t.WellFormed) {document : Value}
    (hkeyed : Value.AreKeyed document.listed) :
    OverwrittenBy t document.listed (t.applyFamilies document).value.1
      (t.applyFamilies document).value.2 := by
  cases document with
  | list entries =>
    have hrun : (t.applyFamilies (.list entries)).value =
        entries.foldl (fun counted entry => (applyFamily counted entry).value) (t, 0) :=
      Logged.value_foldList _ _ _
    rw [hrun]
    exact overwrittenBy_foldl h hkeyed
  | _ => exact overwrittenBy_start t

/-- A families document leaves the families where they are and their items as they were. It
overwrites the rank and the pending values of every family with what the last entry gives that is
about the family and mentions the field, and counts the entries that are about a family. -/
theorem WellFormed.overwrites_applyFamilies (h : t.WellFormed) {document : Value}
    (hkeyed : Value.AreKeyed document.listed) :
    let after := (t.applyFamilies document).value
    SameLinks t after.1 ∧ (∀ id, after.1.items id = t.items id) ∧
      (∀ id, after.1.family id = (t.family id).overwrite (t.lastGiven document.listed id)) ∧
      after.2 = document.listed.countP fun entry => (t.subject? entry).isSome := by
  intro after
  have hafter : OverwrittenBy t document.listed after.1 after.2 :=
    h.overwrittenBy_applyFamilies hkeyed
  refine ⟨hafter.links, fun id => ?_, hafter.family, hafter.count⟩
  rw [items, hafter.family]
  rfl

/-- Of two entries about one family the second one gives another alias and takes the rank away, and
an entry about another family gives it a rank. Entries that are no mapping, name no family or name
one that is not there do nothing. -/
theorem overwrites_applyFamilies_of_two_entries :
    let made := (((∅ : Tree).create ["Sales"]).1.create ["Ops"]).1
    let t := made.modify 1 fun f => { f with rank := some (.int 7) }
    let document : Value := .list [.text "Sales", .map [(.text "text", .text "nobody")],
      .map [(.text "family", .text "Costs"), (.text "text", .text "nothing")],
      .map [(.text "family", .text "Sales"), (.text "alias", .text "Trade"),
        (.text "labels", .text "new")],
      .map [(.text "rank", .int 3), (.text "family", .text "Ops")],
      .map [(.text "rank", .null), (.text "family", .list [.text "Sales"]),
        (.text "alias", .text "Turnover")]]
    let after := (t.applyFamilies document).value
    t.WellFormed ∧ Value.AreKeyed document.listed ∧
      after.1.family 1 =
        { pending := { aliasName := some (.text "Turnover"), labels := some (.text "new") } } ∧
      after.1.family 2 = { rank := some (.int 3) } ∧ after.2 = 3 := by
  intro made t document after
  have hreachable : t.Reachable :=
    .change 1 _ (.create _ (.create _ .empty (by decide)) (by decide))
  have hkeyed : Value.AreKeyed document.listed := by
    intro fields hmem
    simp only [document, Value.listed, List.mem_cons, Value.map.injEq, reduceCtorEq,
      List.not_mem_nil, or_false, false_or] at hmem
    rcases hmem with rfl | rfl | rfl | rfl | rfl <;> decide
  obtain ⟨_, _, hfamily, hcount⟩ := hreachable.wellFormed.overwrites_applyFamilies hkeyed
  refine ⟨hreachable.wellFormed, hkeyed, ?_, ?_, ?_⟩
  · rw [hfamily]
    rfl
  · rw [hfamily]
    rfl
  · rw [hcount]
    rfl

/-! ### Several documents -/

theorem SameLinks.lastGiven (h : SameLinks t u) (entries : List Value) (id : Nat) :
    u.lastGiven entries id = t.lastGiven entries id := by
  funext field
  simp only [Tree.lastGiven, h.subject?]

/-- Of the entries of several documents, too, the last one counts. -/
theorem WellFormed.family_describe (h : t.WellFormed) {documents : List Value}
    (hkeyed : ∀ document ∈ documents, Value.AreKeyed document.listed) :
    SameLinks t (t.describe documents) ∧ ∀ id,
      (t.describe documents).family id =
        (t.family id).overwrite (t.lastGiven (documents.flatMap Value.listed) id) := by
  induction documents using List.reverseRecOn with
  | nil => exact ⟨SameLinks.refl t, fun _ => rfl⟩
  | append_singleton before document ih =>
    obtain ⟨hlinks, hfamily⟩ := ih fun d hd => hkeyed d (List.mem_append_left _ hd)
    have hafter := (hlinks.wellFormed h).overwrittenBy_applyFamilies (hkeyed document (by simp))
    have hdescribe : t.describe (before ++ [document]) =
        ((t.describe before).applyFamilies document).value.1 :=
      List.foldl_append
    rw [hdescribe]
    refine ⟨hlinks.trans hafter.links, fun id => ?_⟩
    have hgiven : t.lastGiven ((before ++ [document]).flatMap Value.listed) id = fun field =>
        (t.lastGiven document.listed id field).or
          (t.lastGiven (before.flatMap Value.listed) id field) := by
      funext field
      rw [List.flatMap_append, List.flatMap_singleton, lastGiven_append]
    rw [hafter.family, hfamily, hlinks.lastGiven, Family.overwrite_overwrite, hgiven]

end Tree

end Catalog
