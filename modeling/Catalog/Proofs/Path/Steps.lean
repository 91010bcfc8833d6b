import Catalog.Path.Basic
import Catalog.Proofs.Text.Pieces
import Mathlib.Data.List.DropRight
import Mathlib.Tactic.ByContra

/-!
# The steps of paths

A path is cut into pieces at every `/`, and its steps are the pieces that stand for something.
Whether it is absolute shows in its pieces too: the first one is empty, and there are others.

* `isAbsolute_iff` and `not_slash_mem_of_mem_steps` say so of any path;
* `steps_joinWith` and `isAbsolute_joinWith` are about paths that are put together from names;
* `of_parent?_eq_some` says that the parent of a path lacks its last step.
-/

namespace Catalog

namespace Text

variable {c : Char}

theorem splitChars_ne_nil (xs : List Char) : splitChars c xs ≠ [] := by
  cases xs with
  | nil => exact List.cons_ne_nil _ _
  | cons x xs =>
    rw [splitChars]
    split
    · exact List.cons_ne_nil _ _
    · split <;> exact List.cons_ne_nil _ _

/-- A character that is no separator belongs to the first piece. -/
theorem splitChars_cons_of_ne {x : Char} (h : x ≠ c) (xs : List Char) :
    ∃ piece rest, splitChars c (x :: xs) = (x :: piece) :: rest := by
  obtain ⟨piece, rest, hsplit⟩ := List.exists_cons_of_ne_nil (splitChars_ne_nil (c := c) xs)
  refine ⟨piece, rest, ?_⟩
  rw [splitChars, beq_false_of_ne h, if_neg Bool.false_ne_true, hsplit]

theorem not_mem_of_mem_splitChars {xs piece : List Char} (h : piece ∈ splitChars c xs) :
    c ∉ piece := by
  induction xs generalizing piece with
  | nil =>
    rw [splitChars, List.mem_singleton] at h
    rw [h]
    exact List.not_mem_nil
  | cons x xs ih =>
    rw [splitChars] at h
    split at h
    · rcases List.mem_cons.mp h with rfl | hrest
      · exact List.not_mem_nil
      · exact ih hrest
    · next hx =>
      split at h
      · next hnil => exact absurd hnil (splitChars_ne_nil xs)
      · next first rest hsplit =>
        rw [hsplit] at ih
        rcases List.mem_cons.mp h with rfl | hrest
        · intro hmem
          rcases List.mem_cons.mp hmem with rfl | hmem
          · exact hx (beq_self_eq_true _)
          · exact ih List.mem_cons_self hmem
        · exact ih (List.mem_cons_of_mem _ hrest)

/-- No piece holds the character at which the text was cut. -/
theorem not_mem_of_mem_splitAt {s piece : String} (h : piece ∈ splitAt c s) : c ∉ piece.toList := by
  obtain ⟨chars, hchars, rfl⟩ := List.mem_map.mp h
  rw [String.toList_ofList]
  exact not_mem_of_mem_splitChars hchars

end Text

namespace Path

/-! ### Pieces -/

/-- An absolute path starts with an empty piece, and there are others. -/
theorem isAbsolute_iff {path : String} :
    isAbsolute path = true ↔ ∃ rest, rest ≠ [] ∧ Text.splitAt '/' path = "" :: rest := by
  rw [isAbsolute, Text.startsWith_iff, Text.splitAt]
  constructor
  · intro hex
    obtain ⟨rest, hrest⟩ := hex
    refine ⟨(Text.splitChars '/' rest).map String.ofList, ?_, ?_⟩
    · exact mt List.map_eq_nil_iff.mp (Text.splitChars_ne_nil rest)
    · rw [hrest]
      rfl
  · intro hex
    obtain ⟨rest, hne, hpieces⟩ := hex
    cases hpath : path.toList with
    | nil =>
      rw [hpath] at hpieces
      obtain ⟨_, rfl⟩ := List.cons.inj hpieces
      exact absurd rfl hne
    | cons c cs =>
      refine ⟨cs, ?_⟩
      by_contra hc
      have hother : c ≠ '/' := fun heq => hc (by rw [heq])
      -- the first piece would start with the character
      obtain ⟨piece, _, hsplit⟩ := Text.splitChars_cons_of_ne hother cs
      rw [hpath, hsplit] at hpieces
      exact absurd (String.toList_inj.mpr (List.cons.inj hpieces).1) (by simp)

/-- Only the empty path has the empty piece alone. -/
theorem eq_empty_of_splitAt {path : String} (h : Text.splitAt '/' path = [""]) : path = "" := by
  refine String.toList_eq_nil_iff.mp ?_
  rw [Text.splitAt] at h
  cases hpath : path.toList with
  | nil => rfl
  | cons c cs =>
    rw [hpath] at h
    by_cases hc : c = '/'
    · rw [hc, Text.splitChars, beq_self_eq_true, if_pos rfl, List.map_cons] at h
      exact absurd (List.map_eq_nil_iff.mp (List.cons.inj h).2) (Text.splitChars_ne_nil cs)
    · obtain ⟨piece, _, hsplit⟩ := Text.splitChars_cons_of_ne hc cs
      rw [hsplit] at h
      exact absurd (String.toList_inj.mpr (List.cons.inj h).1) (by simp)

theorem not_slash_mem_of_mem_steps {path name : String} (h : name ∈ steps path) :
    '/' ∉ name.toList :=
  Text.not_mem_of_mem_splitAt (List.mem_filter.mp h).1

/-! ### Paths put together from names -/

theorem splitAt_joinWith {names : List String} (hne : names ≠ [])
    (h : ∀ name ∈ names, '/' ∉ name.toList) :
    Text.splitAt '/' (Text.joinWith "/" names) = names := Text.splitAt_joinWith hne h

theorem steps_joinWith {names : List String} (h : ∀ name ∈ names, '/' ∉ name.toList) :
    steps (Text.joinWith "/" names) = names.filter fun name => !isIdle name := by
  cases names with
  | nil => rfl
  | cons first rest => rw [steps, splitAt_joinWith (List.cons_ne_nil _ _) h]

theorem isAbsolute_joinWith {names : List String} (h : ∀ name ∈ names, '/' ∉ name.toList) :
    isAbsolute (Text.joinWith "/" names) = true ↔ ∃ rest, rest ≠ [] ∧ names = "" :: rest := by
  cases names with
  | nil => simp [Text.joinWith, isAbsolute, Text.startsWith]
  | cons first rest => rw [isAbsolute_iff, splitAt_joinWith (List.cons_ne_nil _ _) h]

/-- Names that stand for something. -/
theorem filter_of_not_idle {names : List String} (h : ∀ name ∈ names, isIdle name = false) :
    (names.filter fun name => !isIdle name) = names := by
  rw [List.filter_eq_self]
  intro name hmem
  rw [h name hmem]
  rfl

/-! ### Parents -/

theorem steps_ofPieces {names : List String} (h : ∀ name ∈ names, '/' ∉ name.toList) :
    steps (ofPieces names) = names.filter fun name => !isIdle name := by
  rw [ofPieces.eq_def]
  split
  · rfl
  · exact steps_joinWith h

/-- The path of pieces is absolute exactly if the first one is empty. -/
theorem isAbsolute_ofPieces {first : String} {rest : List String}
    (h : ∀ name ∈ first :: rest, '/' ∉ name.toList) :
    isAbsolute (ofPieces (first :: rest)) = true ↔ first = "" := by
  rw [ofPieces.eq_def]
  split
  · next heq =>
    rw [(List.cons.inj heq).1]
    exact iff_of_true rfl rfl
  · next hother =>
    rw [isAbsolute_joinWith h]
    constructor
    · intro hex
      obtain ⟨_, _, heq⟩ := hex
      exact (List.cons.inj heq).1
    · intro hfirst
      refine ⟨rest, ?_, by rw [hfirst]⟩
      rintro rfl
      exact hother (by rw [hfirst])

/-- Dropping pieces that stand for nothing changes no steps. -/
theorem filter_dropIdle (names : List String) :
    ((dropIdle names).filter fun name => !isIdle name) = names.filter fun name => !isIdle name := by
  have hrest : ∀ rest : List String, ((rest.rdropWhile isIdle).filter fun name => !isIdle name) =
      rest.filter fun name => !isIdle name := by
    intro rest
    induction rest using List.reverseRecOn with
    | nil => rfl
    | append_singleton rest last ih =>
      rw [List.rdropWhile_concat]
      cases hlast : isIdle last with
      | true =>
          rw [if_pos rfl, ih, List.filter_append, List.filter_singleton, hlast,
            Bool.not_true, cond_false, List.append_nil]
      | false => rw [if_neg Bool.false_ne_true]
  cases names with
  | nil => rfl
  | cons first rest =>
    show ((first :: rest.rdropWhile isIdle).filter fun name => !isIdle name) = _
    rw [List.filter_cons, List.filter_cons, hrest]

theorem subset_dropIdle (names : List String) : dropIdle names ⊆ names := by
  cases names with
  | nil => exact List.Subset.refl _
  | cons first rest => exact List.cons_subset_cons first (List.rdropWhile_prefix isIdle rest).subset

/-- The pieces of a path that has a parent: there is a last step, unless all of the path is its
first piece. -/
theorem pieces_cases (path : String) :
    ∃ first rest, Text.splitAt '/' path = first :: rest ∧
      (pieces path = [first] ∨ ∃ mid last, pieces path = first :: (mid ++ [last]) ∧
        isIdle last = false) := by
  obtain ⟨first, rest, hsplit⟩ := List.exists_cons_of_ne_nil
    (show Text.splitAt '/' path ≠ [] from mt List.map_eq_nil_iff.mp (Text.splitChars_ne_nil _))
  refine ⟨first, rest, hsplit, ?_⟩
  have hpieces : pieces path = first :: rest.rdropWhile isIdle := by
    rw [pieces, hsplit]
    rfl
  rw [hpieces]
  by_cases hnil : rest.rdropWhile isIdle = []
  · rw [hnil]
    exact Or.inl rfl
  · refine Or.inr ⟨(rest.rdropWhile isIdle).dropLast, (rest.rdropWhile isIdle).getLast hnil, ?_, ?_⟩
    · rw [List.dropLast_append_getLast]
    · exact Bool.eq_false_iff.mpr (List.rdropWhile_last_not isIdle rest hnil)

theorem not_slash_mem_of_mem_pieces {path name : String} (h : name ∈ pieces path) :
    '/' ∉ name.toList :=
  Text.not_mem_of_mem_splitAt (subset_dropIdle _ h)

section Parent

variable {path dir first last : String} {mid : List String}

/-- A path of one piece has nothing before it. -/
theorem of_parent?_of_one (hone : pieces path = [first]) (h : parent? path = some dir) :
    first ≠ "" ∧ dir = "" := by
  rw [parent?, hone] at h
  split at h
  · cases h
  · cases h
  · next hne =>
    refine ⟨?_, (Option.some.inj h).symm⟩
    rintro rfl
    exact hne rfl

/-- The pieces before the last one make the parent. -/
theorem of_parent?_of_many (hmany : pieces path = first :: (mid ++ [last]))
    (h : parent? path = some dir) : dir = ofPieces (dropIdle (first :: mid)) := by
  rw [parent?, hmany] at h
  split at h
  · cases h
  · next heq => exact absurd (List.cons.inj heq).2 (by simp)
  · rw [← List.cons_append, List.dropLast_concat] at h
    exact (Option.some.inj h).symm

/-- The parent of a path lacks its last step and starts where it starts. -/
theorem of_parent?_eq_some (h : parent? path = some dir) :
    steps dir = (steps path).dropLast ∧ isAbsolute dir = isAbsolute path := by
  obtain ⟨first, rest, hsplit, hcases⟩ := pieces_cases path
  have hslash : ∀ name ∈ pieces path, '/' ∉ name.toList := fun name => not_slash_mem_of_mem_pieces
  have hsteps : steps path = (pieces path).filter fun name => !isIdle name := by
    rw [pieces, filter_dropIdle, steps]
  rcases hcases with hone | ⟨mid, last, hmany, hlast⟩
  · -- nothing is left of the path
    obtain ⟨hfirst, hdir⟩ := of_parent?_of_one hone h
    have habs : isAbsolute path = false := by
      rw [← Bool.not_eq_true, isAbsolute_iff, hsplit]
      intro hex
      obtain ⟨_, _, heq⟩ := hex
      exact hfirst (List.cons.inj heq).1
    rw [hdir, habs, hsteps, hone]
    refine ⟨?_, rfl⟩
    rw [List.filter_singleton]
    cases isIdle first <;> rfl
  · have hdir := of_parent?_of_many hmany h
    have hkept : ∀ name ∈ dropIdle (first :: mid), '/' ∉ name.toList := by
      intro name hmem
      refine hslash name ?_
      rw [hmany, ← List.cons_append]
      exact List.mem_append_left _ (subset_dropIdle _ hmem)
    constructor
    · rw [hdir, steps_ofPieces hkept, filter_dropIdle, hsteps, hmany,
        ← List.cons_append, List.filter_append, List.filter_singleton, hlast, Bool.not_false,
        cond_true, List.dropLast_concat]
    · have hrest : rest ≠ [] := by
        rintro rfl
        rw [pieces, hsplit] at hmany
        exact absurd (List.cons.inj hmany).2 (by simp)
      rw [hdir, Bool.eq_iff_iff, dropIdle, isAbsolute_ofPieces hkept, isAbsolute_iff, hsplit]
      constructor
      · rintro rfl
        exact ⟨rest, hrest, rfl⟩
      · intro hex
        obtain ⟨_, _, heq⟩ := hex
        exact (List.cons.inj heq).1

theorem isSome_parent? (h : steps path ≠ []) : (parent? path).isSome = true := by
  obtain ⟨first, rest, hsplit, hcases⟩ := pieces_cases path
  rw [parent?]
  split
  · next hnil =>
    rcases hcases with hone | ⟨_, _, hmany, _⟩
    · rw [hone] at hnil
      cases hnil
    · rw [hmany] at hnil
      cases hnil
  · next hempty =>
    -- the path has no steps
    refine absurd ?_ h
    rw [steps, ← filter_dropIdle, ← pieces, hempty]
    rfl
  · rfl

end Parent

end Path

end Catalog
