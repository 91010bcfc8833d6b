import Catalog.Path.Basic
import Catalog.Proofs.Path.Steps

/-!
# Locations

Where a path leads is a matter of its steps alone, if nothing is looked up on the disk: `..` takes
the last name away, and where there is none it leads further up. Above the top there is nothing.

* `Location.follow` goes along a path, and `Location.ofPath` says where a path leads;
* `Location.down` goes on along names, and `Location.LiesUnder` says that one path leads below
  another one;
* `Place.StandsFor` relates the place of a path to its location. A place keeps only every second
  step up, which is what `climb` counts: `standsFor_step` is the step and `standsFor_follow` the
  whole path.
-/

namespace Catalog

/-- Where a path leads: from the top of the file system along names, or from where one starts some
steps up and then along names. -/
inductive Location where
  | fromTop (names : List String)
  | fromHere (ups : Nat) (names : List String)
  deriving DecidableEq, Repr

namespace Location

variable {l : Location} {path : String}

/-- The steps up. -/
def ups : Location → Nat
  | fromTop _ => 0
  | fromHere ups _ => ups

/-- The names along which one goes after all steps up. -/
def names : Location → List String
  | fromTop names => names
  | fromHere _ names => names

/-- Goes on along names. -/
def down : Location → List String → Location
  | fromTop names, below => fromTop (names ++ below)
  | fromHere ups names, below => fromHere ups (names ++ below)

/-- The location without its names. -/
def origin : Location → Location
  | fromTop _ => fromTop []
  | fromHere ups _ => fromHere ups []

/-- Goes one step on. The step `..` takes the last name away; where there is none, it leads up from
where one starts and nowhere from the top. -/
def step : Location → String → Location
  | fromTop names, name => fromTop (if name = ".." then names.dropLast else names ++ [name])
  | fromHere ups [], name => if name = ".." then fromHere (ups + 1) [] else fromHere ups [name]
  | fromHere ups (first :: rest), name =>
    fromHere ups (if name = ".." then (first :: rest).dropLast else first :: rest ++ [name])

/-- Goes along a path. An absolute path leads to the same location from everywhere. -/
def follow (l : Location) (path : String) : Location :=
  (Path.steps path).foldl step (if Path.isAbsolute path then fromTop [] else l)

/-- Where one starts. -/
def here : Location := fromHere 0 []

/-- The location of a path. -/
def ofPath (path : String) : Location := here.follow path

/-- The first path leads to a location below that of the second. -/
def LiesUnder (file root : String) : Prop :=
  ∃ below, below ≠ [] ∧ ofPath file = (ofPath root).down below

@[simp] theorem down_nil : l.down [] = l := by
  cases l <;> simp [down]

@[simp] theorem down_down (below more : List String) :
    (l.down below).down more = l.down (below ++ more) := by
  cases l <;> simp [down]

theorem origin_down (l : Location) : l.origin.down l.names = l := by
  cases l <;> rfl

@[simp] theorem ups_down (below : List String) : (l.down below).ups = l.ups := by
  cases l <;> rfl

@[simp] theorem names_down (below : List String) : (l.down below).names = l.names ++ below := by
  cases l <;> rfl

/-! ### Steps -/

theorem step_name {name : String} (h : name ≠ "..") : l.step name = l.down [name] := by
  match l with
  | fromTop _ => simp [step, down, h]
  | fromHere _ [] => simp [step, down, h]
  | fromHere _ (_ :: _) => simp [step, down, h]

/-- A name and a step up lead nowhere. -/
theorem step_up_down (below : List String) (name : String) :
    (l.down (below ++ [name])).step ".." = l.down below := by
  cases l with
  | fromTop names => simp [step, down, ← List.append_assoc]
  | fromHere ups names =>
    have hne : names ++ below ++ [name] ≠ [] :=
      List.append_ne_nil_of_right_ne_nil _ (List.cons_ne_nil _ _)
    obtain ⟨first, rest, hcons⟩ := List.exists_cons_of_ne_nil hne
    rw [down, ← List.append_assoc, hcons, step, if_pos rfl, ← hcons, List.dropLast_concat, down]

theorem foldl_step_names {names : List String} (h : ".." ∉ names) :
    names.foldl step l = l.down names := by
  induction names generalizing l with
  | nil => exact down_nil.symm
  | cons name rest ih =>
    obtain ⟨hname, hrest⟩ := not_or.mp (mt List.mem_cons.mpr h)
    rw [List.foldl_cons, step_name (Ne.symm hname), ih hrest, down_down, List.singleton_append]

/-- As many steps up as there were names lead back. -/
theorem foldl_step_ups (names : List String) :
    (List.replicate names.length "..").foldl step (l.down names) = l := by
  induction names using List.reverseRecOn with
  | nil => exact down_nil
  | append_singleton names name ih =>
    rw [List.length_append, List.length_singleton, List.replicate_succ, List.foldl_cons,
      step_up_down, ih]

theorem ups_le_step (l : Location) (name : String) : l.ups ≤ (l.step name).ups := by
  match l with
  | fromTop _ => exact Nat.le_refl _
  | fromHere ups [] =>
    rw [step]
    split
    · exact Nat.le_succ ups
    · exact Nat.le_refl ups
  | fromHere _ (_ :: _) => exact Nat.le_refl _

theorem ups_le_foldl (steps : List String) (l : Location) : l.ups ≤ (steps.foldl step l).ups := by
  induction steps generalizing l with
  | nil => exact Nat.le_refl _
  | cons name rest ih => exact Nat.le_trans (ups_le_step l name) (ih (l.step name))

/-! ### Names -/

/-- What a path may consist of besides steps up. -/
structure IsName (name : String) : Prop where
  not_idle : Path.isIdle name = false
  not_up : name ≠ ".."
  not_slash : '/' ∉ name.toList

theorem isName_of_mem_steps {name : String} (hmem : name ∈ Path.steps path) (hne : name ≠ "..") :
    IsName name :=
  ⟨Path.not_idle_of_mem_steps hmem, hne, Path.not_slash_mem_of_mem_steps hmem⟩

theorem isName_step {name : String} (hname : name ≠ ".." → IsName name)
    (h : ∀ n ∈ l.names, IsName n) : ∀ n ∈ (l.step name).names, IsName n := by
  by_cases hup : name = ".."
  · subst hup
    match l with
    | fromTop names => exact fun n hn => h n ((List.dropLast_subset _) hn)
    | fromHere ups [] => exact fun n hn => absurd hn List.not_mem_nil
    | fromHere ups (first :: rest) => exact fun n hn => h n ((List.dropLast_subset _) hn)
  · rw [step_name hup, names_down]
    intro n hn
    rcases List.mem_append.mp hn with hold | hnew
    · exact h n hold
    · rw [List.mem_singleton.mp hnew]
      exact hname hup

theorem isName_follow (h : ∀ n ∈ l.names, IsName n) : ∀ n ∈ (l.follow path).names, IsName n := by
  have hfold : ∀ (steps : List String) (l : Location), (∀ name ∈ steps, name ≠ ".." → IsName name) →
      (∀ n ∈ l.names, IsName n) → ∀ n ∈ (steps.foldl step l).names, IsName n := by
    intro steps
    induction steps with
    | nil => exact fun l _ hl => hl
    | cons name rest ih =>
      intro l hsteps hl
      exact ih (l.step name) (fun n hn => hsteps n (List.mem_cons_of_mem _ hn))
        (isName_step (hsteps name List.mem_cons_self) hl)
  refine hfold _ _ (fun name hmem hne => isName_of_mem_steps hmem hne) ?_
  split
  · exact fun n hn => absurd hn List.not_mem_nil
  · exact h

theorem isName_ofPath (path : String) : ∀ n ∈ (ofPath path).names, IsName n :=
  isName_follow fun _ hn => absurd hn List.not_mem_nil

end Location

/-! ### Places and locations -/

namespace Place

/-- What is left in a place of some steps up that find no name to take away: every second one takes
away the one before it. -/
def climb (ups : Nat) : List String := if ups % 2 = 0 then [] else [".."]

/-- A place stands for a location: it starts from the same side and has the same names, but of the
steps up it has only what is left of them, and those above the top stay in it. -/
def StandsFor (place : Place) : Location → Prop
  | .fromTop names => place.isAbsolute = true ∧ ∃ ups, place.names = climb ups ++ names
  | .fromHere ups names => place.isAbsolute = false ∧ place.names = climb ups ++ names

theorem walk_name {names : List String} {name : String} (h : name ≠ "..") :
    walk names name = names ++ [name] := by
  rw [walk, beq_false_of_ne h, Bool.false_and, if_neg Bool.false_ne_true]

theorem walk_up {names : List String} (h : names ≠ []) : walk names ".." = names.dropLast := by
  rw [walk, beq_self_eq_true, Bool.true_and, List.isEmpty_eq_false_iff.mpr h,
    Bool.not_false, if_pos rfl]

theorem walk_climb (ups : Nat) : walk (climb ups) ".." = climb (ups + 1) := by
  rcases Nat.mod_two_eq_zero_or_one ups with heven | hodd
  · rw [climb, if_pos heven, climb, if_neg (by omega)]
    rfl
  · rw [climb, if_neg (by omega), climb, if_pos (by omega)]
    rfl

theorem walk_climb_append {ups : Nat} {names : List String} (h : names ≠ []) :
    walk (climb ups ++ names) ".." = climb ups ++ names.dropLast := by
  rw [walk_up (List.append_ne_nil_of_right_ne_nil _ h), List.dropLast_append_of_ne_nil h]

theorem standsFor_here : here.StandsFor .here := ⟨rfl, rfl⟩

/-- One step, in the place and in the location. -/
theorem standsFor_step {place : Place} {l : Location} (h : place.StandsFor l) (name : String) :
    StandsFor ⟨place.isAbsolute, walk place.names name⟩ (l.step name) := by
  by_cases hup : name = ".."
  · subst hup
    match l, h with
    | .fromTop [], ⟨habs, ups, hnames⟩ =>
      refine ⟨habs, ups + 1, ?_⟩
      rw [hnames, List.append_nil, walk_climb]
      exact (List.append_nil _).symm
    | .fromTop (first :: rest), ⟨habs, ups, hnames⟩ =>
      refine ⟨habs, ups, ?_⟩
      rw [hnames, walk_climb_append (List.cons_ne_nil _ _), if_pos rfl]
    | .fromHere ups [], ⟨habs, hnames⟩ =>
      refine ⟨habs, ?_⟩
      rw [hnames, List.append_nil, walk_climb, List.append_nil]
    | .fromHere ups (first :: rest), ⟨habs, hnames⟩ =>
      refine ⟨habs, ?_⟩
      rw [hnames, walk_climb_append (List.cons_ne_nil _ _), if_pos rfl]
  · rw [Location.step_name hup, walk_name hup]
    match l, h with
    | .fromTop names, ⟨habs, ups, hnames⟩ => exact ⟨habs, ups, by rw [hnames, List.append_assoc]⟩
    | .fromHere ups names, ⟨habs, hnames⟩ => exact ⟨habs, by rw [hnames, List.append_assoc]⟩

/-- A whole path, in the place and in the location. -/
theorem standsFor_follow {place : Place} {l : Location} (h : place.StandsFor l) (path : String) :
    (place.follow path).StandsFor (l.follow path) := by
  have hfold : ∀ (steps : List String) (place : Place) (l : Location), place.StandsFor l →
      StandsFor ⟨place.isAbsolute, steps.foldl walk place.names⟩ (steps.foldl Location.step l) := by
    intro steps
    induction steps with
    | nil => exact fun place l h => h
    | cons name rest ih => exact fun place l h => ih _ _ (standsFor_step h name)
  rw [follow, Location.follow]
  split
  · exact hfold _ ⟨true, []⟩ (.fromTop []) ⟨rfl, 0, rfl⟩
  · exact hfold _ place l h

theorem standsFor_ofPath (path : String) : (ofPath path).StandsFor (.ofPath path) :=
  standsFor_follow standsFor_here path

end Place

end Catalog
