import Catalog.Proofs.Path.Location

/-!
# Paths that are joined

A path that is joined to another one goes on from there. Two paths count as equal if they start from
the same side and have the same steps; a relative path may start with `.`, which is a part of it
too.

* `Path.join_eq` says what a joined path consists of;
* `Path.Same` compares paths by their parts, and `Path.same_join_iff` says when joining makes no
  difference.
-/

namespace Catalog

/-- Cutting at a character cuts what is on both sides of it. -/
theorem Text.splitChars_append {c : Char} (xs ys : List Char) :
    splitChars c (xs ++ c :: ys) = splitChars c xs ++ splitChars c ys := by
  induction xs with
  | nil =>
    show splitChars c (c :: ys) = [[]] ++ splitChars c ys
    rw [splitChars, if_pos (beq_self_eq_true c)]
    rfl
  | cons x xs ih =>
    rw [List.cons_append, splitChars, splitChars, ih]
    split
    · rfl
    · obtain ⟨first, rest, hsplit⟩ := List.exists_cons_of_ne_nil (splitChars_ne_nil (c := c) xs)
      rw [hsplit]
      rfl

namespace Path

variable {base path p q : String}

/-- Whether a relative path starts with the step `.`. -/
def startsHere (path : String) : Bool :=
  !isAbsolute path && (Text.splitAt '/' path).head? == some "."

theorem join_of_isAbsolute (h : isAbsolute path = true) : join base path = path := by
  rw [join, h, Bool.true_or, if_pos rfl]

theorem join_empty (path : String) : join "" path = path := by
  rw [join, beq_self_eq_true, Bool.or_true, if_pos rfl]

/-- A relative path that is joined stands behind a separator. The base may bring it along. -/
theorem exists_front (hbase : base ≠ "") (hpath : isAbsolute path = false) :
    ∃ front, (base.toList = front ∨ base.toList = front ++ ['/']) ∧
      (join base path).toList = front ++ '/' :: path.toList := by
  rw [join, hpath, Bool.false_or, beq_false_of_ne hbase, if_neg Bool.false_ne_true]
  by_cases hlast : base.toList.getLast? = some '/'
  · obtain ⟨front, hfront⟩ := List.getLast?_eq_some_iff.mp hlast
    refine ⟨front, Or.inr hfront, ?_⟩
    rw [if_pos (beq_iff_eq.mpr hlast), String.toList_append, hfront, List.append_assoc,
      List.singleton_append]
  · refine ⟨base.toList, Or.inl rfl, ?_⟩
    rw [if_neg (mt beq_iff_eq.mp hlast), String.toList_append, String.toList_append,
      List.append_assoc]
    rfl

/-- A relative path that is joined starts where its base starts, and its steps follow those of the
base. -/
theorem join_eq (hbase : base ≠ "") (hpath : isAbsolute path = false) :
    isAbsolute (join base path) = isAbsolute base ∧ startsHere (join base path) = startsHere base ∧
      steps (join base path) = steps base ++ steps path := by
  obtain ⟨front, hfront, hjoined⟩ := exists_front hbase hpath
  have hpieces : Text.splitAt '/' (join base path) =
      (Text.splitChars '/' front).map String.ofList ++ Text.splitAt '/' path := by
    rw [Text.splitAt, hjoined, Text.splitChars_append, List.map_append, Text.splitAt]
  -- the base has the same pieces before that, but for an empty one at its end
  have hbasePieces : ∃ rest, rest ⊆ [""] ∧
      Text.splitAt '/' base = (Text.splitChars '/' front).map String.ofList ++ rest := by
    rw [Text.splitAt]
    rcases hfront with hfront | hfront
    · exact ⟨[], List.nil_subset _, by rw [hfront, List.append_nil]⟩
    · exact ⟨[""], List.Subset.refl _, by rw [hfront, Text.splitChars_append, List.map_append]; rfl⟩
  obtain ⟨rest, hrest, hbasePieces⟩ := hbasePieces
  have habs : isAbsolute (join base path) = isAbsolute base := by
    rw [isAbsolute, isAbsolute, Text.startsWith, Text.startsWith, hjoined]
    cases front with
    | cons c front => rcases hfront with hfront | hfront <;> rw [hfront] <;> rfl
    | nil =>
      rcases hfront with hfront | hfront
      · exact absurd (String.toList_eq_nil_iff.mp hfront) hbase
      · rw [hfront]
        rfl
  have hne : (Text.splitChars '/' front).map String.ofList ≠ [] :=
    mt List.map_eq_nil_iff.mp (Text.splitChars_ne_nil front)
  refine ⟨habs, ?_, ?_⟩
  · rw [startsHere, startsHere, habs, hpieces, hbasePieces, List.head?_append_of_ne_nil _ hne,
      List.head?_append_of_ne_nil _ hne]
  · have hidle : (rest.filter fun name => !isIdle name) = [] := by
      rw [List.filter_eq_nil_iff]
      intro name hmem
      rw [List.mem_singleton.mp (hrest hmem)]
      decide
    rw [steps, steps, steps, hpieces, hbasePieces, List.filter_append, List.filter_append, hidle,
      List.append_nil]

/-! ### Comparing paths -/

/-- Two paths that count as equal. -/
structure Same (p q : String) : Prop where
  isAbsolute : isAbsolute p = isAbsolute q
  startsHere : startsHere p = startsHere q
  steps : steps p = steps q

theorem Same.refl (path : String) : Same path path := ⟨rfl, rfl, rfl⟩

/-- A relative path without steps is empty, or it is as good as `.`. -/
theorem startsHere_of_steps_nil (hbase : base ≠ "") (habs : isAbsolute base = false)
    (hsteps : steps base = []) : startsHere base = true := by
  obtain ⟨first, rest, hpieces⟩ := List.exists_cons_of_ne_nil
    (show Text.splitAt '/' base ≠ [] from mt List.map_eq_nil_iff.mp (Text.splitChars_ne_nil _))
  have hidle : isIdle first = true := by
    rw [steps, hpieces, List.filter_eq_nil_iff] at hsteps
    simpa using hsteps first List.mem_cons_self
  rw [startsHere, habs, hpieces]
  rcases Bool.or_eq_true_iff.mp hidle with hempty | hdot
  · -- the path would be absolute or empty
    rw [beq_iff_eq.mp hempty] at hpieces
    by_cases hrest : rest = []
    · rw [hrest] at hpieces
      exact absurd (eq_empty_of_splitAt hpieces) hbase
    · rw [isAbsolute_iff.mpr ⟨rest, hrest, hpieces⟩] at habs
      cases habs
  · rw [beq_iff_eq.mp hdot]
    rfl

/-- Joining makes no difference to an absolute path, and none if there is no base. Otherwise the
base has to be `.` and the path has to start with it. -/
theorem same_join_iff :
    Same (join base path) path ↔
      isAbsolute path = true ∨ base = "" ∨ Same base "." ∧ startsHere path = true := by
  by_cases habs : isAbsolute path = true
  · rw [join_of_isAbsolute habs]
    exact iff_of_true (Same.refl path) (Or.inl habs)
  by_cases hbase : base = ""
  · rw [hbase, join_empty]
    exact iff_of_true (Same.refl path) (Or.inr (Or.inl rfl))
  rw [Bool.not_eq_true] at habs
  obtain ⟨hjoinAbs, hjoinStart, hjoinSteps⟩ := join_eq hbase habs
  constructor
  · intro hsame
    have hbaseAbs : isAbsolute base = false := by rw [← hjoinAbs, hsame.isAbsolute, habs]
    have hbaseSteps : steps base = [] := by
      have hsteps := hsame.steps
      rw [hjoinSteps] at hsteps
      exact List.append_left_eq_self.mp hsteps
    have hbaseStart := startsHere_of_steps_nil hbase hbaseAbs hbaseSteps
    refine Or.inr (Or.inr ⟨⟨hbaseAbs, hbaseStart, hbaseSteps⟩, ?_⟩)
    rw [← hsame.startsHere, hjoinStart, hbaseStart]
  · intro hcases
    rcases hcases with hpath | hempty | ⟨hdot, hstart⟩
    · rw [habs] at hpath
      cases hpath
    · exact absurd hempty hbase
    · refine ⟨?_, ?_, ?_⟩
      · rw [hjoinAbs, hdot.isAbsolute, habs]
        rfl
      · rw [hjoinStart, hdot.startsHere, hstart]
        rfl
      · rw [hjoinSteps, hdot.steps]
        rfl

end Path

end Catalog
