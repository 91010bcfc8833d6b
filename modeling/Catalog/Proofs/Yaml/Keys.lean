import Catalog.FileSystem.Files
import Mathlib.Data.List.Nodup
import Mathlib.Data.List.Perm.Basic

/-!
# Keys of mappings

A mapping in a document has no key twice. So each of its keys that are texts has one value, wherever
its entry stands.

* `Value.textKeys` lists the keys of a mapping that are texts, and `Value.IsKeyed` says that none
  comes twice;
* `IsKeyed.lookup?_eq_some_iff` says what looking a key up finds, and `perm_of_extract?` what taking
  an entry out leaves;
* `Resolver.isKeyed_value` says that the reader makes such mappings only, and
  `FileSystem.isKeyed_of_readRecord` that records are such mappings.
-/

namespace Catalog

namespace Value

variable {entries rest : Entries} {k : String} {v : Value}

/-! ### Entries -/

theorem same_text_iff {key : Value} : key.same (.text k) = true ↔ key = .text k := by
  cases key <;> simp [same]

/-- The keys of a mapping that are texts. -/
def textKeys (entries : Entries) : List String :=
  entries.filterMap fun e =>
    match e.1 with
    | .text s => some s
    | _ => none

/-- No text is the key of two entries. -/
def IsKeyed (entries : Entries) : Prop := (textKeys entries).Nodup

instance : Decidable (IsKeyed entries) := inferInstanceAs (Decidable (textKeys entries).Nodup)

theorem mem_textKeys : k ∈ textKeys entries ↔ ∃ v, (Value.text k, v) ∈ entries := by
  simp only [textKeys, List.mem_filterMap]
  constructor
  · rintro ⟨⟨key, v⟩, hmem, heq⟩
    cases key <;> simp only [reduceCtorEq, Option.some.injEq] at heq
    exact ⟨v, heq ▸ hmem⟩
  · rintro ⟨v, hmem⟩
    exact ⟨(.text k, v), hmem, rfl⟩

theorem IsKeyed.of_perm {others : Entries} (h : IsKeyed entries) (hperm : others.Perm entries) :
    IsKeyed others :=
  (hperm.filterMap _).nodup_iff.mpr h

theorem IsKeyed.of_cons {e : Value × Value} (h : IsKeyed (e :: entries)) : IsKeyed entries :=
  h.sublist ((List.sublist_cons_self e entries).filterMap _)

theorem lookup?_eq_none_iff : lookup? (.text k) entries = none ↔ k ∉ textKeys entries := by
  simp only [lookup?, Option.map_eq_none_iff, List.find?_eq_none, same_text_iff,
    mem_textKeys, not_exists]
  constructor
  · intro h v hmem
    exact h _ hmem rfl
  · rintro h ⟨key, v⟩ hmem rfl
    exact h v hmem

theorem lookup?_cons_text (k : String) (v : Value) (entries : Entries) :
    lookup? (.text k) ((.text k, v) :: entries) = some v := by
  simp [lookup?, same]

theorem lookup?_cons_of_ne {e : Value × Value} (h : e.1 ≠ .text k) :
    lookup? (.text k) (e :: entries) = lookup? (.text k) entries := by
  have hkey : e.1.same (.text k) = false := Bool.eq_false_iff.mpr (mt same_text_iff.mp h)
  simp [lookup?, hkey]

/-- Looking a key up finds its only value. -/
theorem IsKeyed.lookup?_eq_some_iff (h : IsKeyed entries) :
    lookup? (.text k) entries = some v ↔ (Value.text k, v) ∈ entries := by
  induction entries with
  | nil => simp [lookup?]
  | cons e rest ih =>
    by_cases hkey : e.1 = .text k
    · obtain ⟨key, w⟩ := e
      cases hkey
      have hnew : k ∉ textKeys rest := (List.nodup_cons.mp h).1
      rw [lookup?_cons_text, List.mem_cons, Option.some.injEq]
      constructor
      · rintro rfl
        exact Or.inl rfl
      · intro hor
        rcases hor with heq | hmem
        · exact (Prod.mk.inj heq).2.symm
        · exact absurd (mem_textKeys.mpr ⟨v, hmem⟩) hnew
    · rw [lookup?_cons_of_ne hkey, ih h.of_cons, List.mem_cons]
      exact (or_iff_right fun heq => hkey (congrArg Prod.fst heq).symm).symm

/-! ### Taking entries out -/

theorem perm_dropLast_set {entries : Entries} {i : Nat} {e last : Value × Value}
    (hget : entries[i]? = some e) (hlast : entries.getLast? = some last) :
    (e :: if i + 1 = entries.length then entries.dropLast else (entries.set i last).dropLast).Perm
      entries := by
  obtain ⟨before, rfl⟩ := List.getLast?_eq_some_iff.mp hlast
  split
  · next hend =>
    have hi : i = before.length := by simpa using hend
    subst hi
    rw [List.getElem?_concat_length, Option.some.injEq] at hget
    rw [← hget, List.dropLast_concat]
    exact (List.perm_append_singleton _ _).symm
  · next hne =>
    obtain ⟨hi, _⟩ := List.getElem?_eq_some_iff.mp hget
    have hi : i < before.length := by
      simp only [List.length_append, List.length_singleton] at hi hne
      omega
    rw [List.getElem?_append_left hi] at hget
    rw [List.set_append_left _ _ hi, List.dropLast_concat, List.set_eq_take_append_cons_drop,
      if_pos hi]
    have hsplit : before = before.take i ++ e :: before.drop (i + 1) := by
      rw [← List.getElem_eq_iff hi] at hget
      rw [← hget, List.getElem_cons_drop, List.take_append_drop]
    calc
      (e :: (before.take i ++ last :: before.drop (i + 1))).Perm
          (last :: (before.take i ++ e :: before.drop (i + 1))) :=
        ((List.perm_middle.cons e).trans (List.Perm.swap _ _ _)).trans
          (List.perm_middle.symm.cons last)
      List.Perm _ (before ++ [last]) := by
        rw [← hsplit]
        exact (List.perm_append_singleton _ _).symm

/-- What is taken out and what is left are the entries that were there. -/
theorem perm_of_extract? (h : extract? (.text k) entries = some (v, rest)) :
    ((Value.text k, v) :: rest).Perm entries := by
  unfold extract? at h
  split at h
  · cases h
  · next i hfind =>
    split at h
    · next e last hget hlast =>
      rw [Option.some.injEq, Prod.mk.injEq] at h
      obtain ⟨rfl, rfl⟩ := h
      have hsame := (List.findIdx?_eq_some_iff_getElem.mp hfind)
      obtain ⟨hi, hkey, _⟩ := hsame
      rw [List.getElem?_eq_getElem hi, Option.some.injEq] at hget
      rw [hget, same_text_iff] at hkey
      have he : e = (Value.text k, e.2) := by rw [← hkey]
      rw [← he]
      exact perm_dropLast_set (by rw [List.getElem?_eq_getElem hi, hget]) hlast
    · cases h

/-- A key without entry is not found by looking it up either. -/
theorem lookup?_of_extract?_eq_none {key : Value} (h : extract? key entries = none) :
    lookup? key entries = none := by
  rw [lookup?, Option.map_eq_none_iff, List.find?_eq_none]
  unfold extract? at h
  split at h
  · next hfind => simpa using hfind
  · next i hfind =>
    obtain ⟨hi, _⟩ := List.findIdx?_eq_some_iff_getElem.mp hfind
    have hne : entries ≠ [] := List.ne_nil_of_length_pos (Nat.zero_lt_of_lt hi)
    rw [List.getElem?_eq_getElem hi, List.getLast?_eq_some_getLast hne] at h
    cases h

section Extract

variable (h : IsKeyed entries) (hextract : extract? (.text k) entries = some (v, rest))

include h hextract

theorem IsKeyed.of_extract? : IsKeyed rest := (h.of_perm (perm_of_extract? hextract)).of_cons

/-- Taking an entry out finds what looking its key up finds. -/
theorem IsKeyed.lookup?_of_extract? : lookup? (.text k) entries = some v :=
  h.lookup?_eq_some_iff.mpr ((perm_of_extract? hextract).mem_iff.mp List.mem_cons_self)

/-- Taking an entry out leaves the other entries as they were. -/
theorem IsKeyed.lookup?_rest {other : String} (hne : other ≠ k) :
    lookup? (.text other) rest = lookup? (.text other) entries := by
  refine Option.ext fun w => ?_
  rw [(h.of_extract? hextract).lookup?_eq_some_iff, h.lookup?_eq_some_iff,
    ← (perm_of_extract? hextract).mem_iff, List.mem_cons]
  exact (or_iff_right fun heq => hne (Value.text.inj (congrArg Prod.fst heq))).symm

end Extract

end Value

/-! ### Reading -/

theorem Except.exists_of_bind_eq_ok {ε α β : Type} {x : Except ε α} {f : α → Except ε β} {b : β}
    (h : x >>= f = .ok b) : ∃ a, x = .ok a ∧ f a = .ok b := by
  cases x with
  | error e => cases h
  | ok a => exact ⟨a, rfl, h⟩

/-- What holds at the start of a loop and is kept by each of its steps holds at its end. -/
theorem foldlM_invariant {ε σ α β : Type} {step : β → α → StateT σ (Except ε) β} {P : β → Prop}
    (hstep : ∀ b a s b' s', P b → (step b a).run s = .ok (b', s') → P b') {xs : List α}
    {b b' : β} {s s' : σ} (hb : P b) (h : (xs.foldlM step b).run s = .ok (b', s')) : P b' := by
  induction xs generalizing b s with
  | nil =>
    cases h
    exact hb
  | cons a rest ih =>
    rw [List.foldlM_cons, StateT.run_bind] at h
    obtain ⟨⟨mid, smid⟩, hfirst, hrest⟩ := Except.exists_of_bind_eq_ok h
    exact ih (hstep b a s mid smid hb hfirst) hrest

namespace Yaml

open Value

theorem plainValue_ne_map {s : String} {entries : Entries} :
    plainValue s ≠ some (.map entries) := by
  intro h
  unfold plainValue at h
  repeat' split at h
  all_goals cases h

theorem plainScalarValue_ne_map {s : String} {entries : Entries} :
    plainScalarValue s ≠ .ok (.map entries) := by
  intro h
  unfold plainScalarValue at h
  split at h
  · next v hv =>
    cases h
    exact plainValue_ne_map hv
  · cases h

theorem coreScalarValue_ne_map {tag s : String} {entries : Entries} :
    coreScalarValue tag s ≠ .ok (.map entries) := by
  intro h
  unfold coreScalarValue at h
  repeat' split at h
  all_goals cases h

/-- A scalar is no mapping. -/
theorem scalarValue_ne_map {tag : Option String} {s : String} {isPlain : Bool} {entries : Entries} :
    scalarValue tag s isPlain ≠ .ok (.map entries) := by
  intro h
  cases tag with
  | none =>
    have h : (if isPlain then plainScalarValue s else .ok (.text s)) = .ok (.map entries) := h
    split at h
    · exact plainScalarValue_ne_map h
    · cases h
  | some t =>
    let untagged : Except Fault Value := if isPlain then plainScalarValue s else .ok (.text s)
    have h : (if isLocalTag t then untagged >>= fun v => .ok (.tagged (Value.tagName t) v)
      else coreScalarValue t s) = .ok (.map entries) := h
    split at h
    · obtain ⟨v, _, hv⟩ := Except.exists_of_bind_eq_ok h
      cases hv
    · exact coreScalarValue_ne_map h

theorem eq_map_of_withTag {tag : Option String} {v : Value} {entries : Entries}
    (h : withTag tag v = .map entries) : v = .map entries := by
  unfold withTag at h
  split at h
  · split at h
    · cases h
    · exact h
  · exact h

namespace Resolver

variable {r : Resolver} {depth : Nat} {n : BoundNode} {s s' : Nat} {entries entries' : Entries}

theorem isKeyed_addEntry {k v : Value} (h : IsKeyed entries)
    (hadd : addEntry entries k v = .ok entries') : IsKeyed entries' := by
  unfold addEntry at hadd
  split at hadd
  · cases hadd
  · next hnew =>
    cases hadd
    have hcons : IsKeyed ((k, v) :: entries) := by
      cases k with
      | text key =>
        refine List.nodup_cons.mpr ⟨fun hmem => hnew ?_, h⟩
        obtain ⟨w, hmem⟩ := mem_textKeys.mp hmem
        exact List.any_eq_true.mpr ⟨_, hmem, same_text_iff.mpr rfl⟩
      | _ => exact h
    exact hcons.of_perm (List.perm_append_singleton _ _)

/-- Reads one entry of a mapping. -/
def readEntry (r : Resolver) (depth : Nat) (es : Entries) (e : BoundNode × BoundNode) :
    Counting Entries := do
  let k ← r.value depth e.1
  let v ← r.value depth e.2
  addEntry es k v

theorem isKeyed_readEntry {e : BoundNode × BoundNode} (h : IsKeyed entries)
    (hread : (r.readEntry depth entries e).run s = .ok (entries', s')) : IsKeyed entries' := by
  rw [readEntry, StateT.run_bind] at hread
  obtain ⟨⟨k, _⟩, _, hread⟩ := Except.exists_of_bind_eq_ok hread
  rw [StateT.run_bind] at hread
  obtain ⟨⟨v, _⟩, _, hread⟩ := Except.exists_of_bind_eq_ok hread
  obtain ⟨es, hadd, hread⟩ := Except.exists_of_bind_eq_ok hread
  cases hread
  exact isKeyed_addEntry h hadd

/-- The value of a node that is no alias. -/
def content (r : Resolver) : Nat → BoundNode → Counting Value
  | _, .scalar tag s isPlain => scalarValue tag s isPlain
  | depth + 1, .list tag items => do
    let vs ← items.mapM (r.value depth)
    return withTag tag (.list vs)
  | depth + 1, .map tag entries => do
    let es ← entries.foldlM (r.readEntry depth) []
    return withTag tag (.map es)
  | 0, _ => throw .tooDeep
  | _, .aliasOf _ => throw .unknownAlias

/-- The value of a node is that of the node it stands for. -/
theorem value_eq (r : Resolver) (depth : Nat) (n : BoundNode) :
    r.value depth n = r.target n >>= r.content depth := by
  -- the recursion is in a match below a bind, which has no equations of its own
  cases depth with
  | zero =>
    delta content value
    show Bind.bind (r.target n) _ = _
    refine bind_congr fun m => ?_
    cases m <;> rfl
  | succ depth =>
    delta content readEntry value
    show Bind.bind (r.target n) _ = _
    refine bind_congr fun m => ?_
    cases m <;> rfl

theorem isKeyed_content (h : (r.content depth n).run s = .ok (.map entries, s')) :
    IsKeyed entries := by
  unfold content at h
  split at h
  · obtain ⟨v, hscalar, hrest⟩ := Except.exists_of_bind_eq_ok h
    cases hrest
    exact absurd hscalar scalarValue_ne_map
  · rw [StateT.run_bind] at h
    obtain ⟨⟨vs, _⟩, _, hrest⟩ := Except.exists_of_bind_eq_ok h
    rw [StateT.run_pure] at hrest
    injection hrest with hrest
    cases eq_map_of_withTag (congrArg Prod.fst hrest)
  · rw [StateT.run_bind] at h
    obtain ⟨⟨es, _⟩, hloop, hrest⟩ := Except.exists_of_bind_eq_ok h
    rw [StateT.run_pure] at hrest
    injection hrest with hrest
    cases eq_map_of_withTag (congrArg Prod.fst hrest)
    exact foldlM_invariant (fun _ _ _ _ _ hes hread => isKeyed_readEntry hes hread)
      (show IsKeyed [] from List.nodup_nil) hloop
  · cases h
  · cases h

/-- Mappings that the reader makes have no key twice. -/
theorem isKeyed_value (h : (r.value depth n).run s = .ok (.map entries, s')) : IsKeyed entries := by
  rw [value_eq, StateT.run_bind] at h
  obtain ⟨⟨m, _⟩, _, hcontent⟩ := Except.exists_of_bind_eq_ok h
  exact isKeyed_content hcontent

end Resolver

theorem isKeyed_read {text : String} {entries : Entries} (h : read text = .ok (.map entries)) :
    IsKeyed entries := by
  unfold read at h
  obtain ⟨tokens, _, h⟩ := Except.exists_of_bind_eq_ok h
  obtain ⟨node, _, h⟩ := Except.exists_of_bind_eq_ok h
  cases node with
  | none => cases h
  | some node =>
    obtain ⟨⟨bound, table⟩, _, h⟩ := Except.exists_of_bind_eq_ok h
    obtain ⟨⟨v, _⟩, hvalue, h⟩ := Except.exists_of_bind_eq_ok h
    cases h
    exact Resolver.isKeyed_value hvalue

end Yaml

/-- A record has no key twice. -/
theorem FileSystem.isKeyed_of_readRecord {fs : FileSystem} {file : String} {record : Entries}
    (h : fs.readRecord file = .ok record) : Value.IsKeyed record := by
  unfold readRecord at h
  split at h
  · next entries hvalue =>
    cases h
    unfold readValue at hvalue
    split at hvalue
    · cases hvalue
    · split at hvalue
      · next v hread =>
        cases hvalue
        exact Yaml.isKeyed_read hread
      · cases hvalue
  · cases h
  · cases h

end Catalog
