import Catalog.Proofs.Path.Location

/-!
# Where a rebased locator leads

A locator is followed from the directory of its record file. Seen from the data root it is a row of
steps up and then names, and followed from there it should lead to the same location.

* `Place.foldl_way` says where the way from one place to another leads;
* `Location.follow_rebase` says where a rebased locator leads, and `Location.follow_rebase_iff` when
  that is the location of the locator: unless it lies two or more steps further up than the data
  root. There every second step is lost.
-/

namespace Catalog

namespace Place

/-! ### Paths of places -/

/-- The names of a place are the steps of its path. -/
theorem steps_path {place : Place}
    (h : ∀ name ∈ place.names, Path.isIdle name = false ∧ '/' ∉ name.toList) :
    Path.steps place.path = place.names := by
  have hslash : ∀ name ∈ place.names, '/' ∉ name.toList := fun name hmem => (h name hmem).2
  have hkept := Path.filter_of_not_idle fun name hmem => (h name hmem).1
  rw [path]
  split
  · cases hnames : place.names with
    | nil => rfl
    | cons first rest =>
      -- the path of the names, with an empty name in front
      show Path.steps (Text.joinWith "/" ("" :: first :: rest)) = first :: rest
      rw [hnames] at hslash hkept
      rw [Path.steps_joinWith (List.forall_mem_cons.mpr ⟨List.not_mem_nil, hslash⟩),
        List.filter_cons, hkept]
      rfl
  · split
    · next hempty =>
      rw [List.isEmpty_iff.mp hempty]
      rfl
    · rw [Path.steps_joinWith hslash, hkept]

theorem isAbsolute_path {place : Place}
    (h : ∀ name ∈ place.names, Path.isIdle name = false ∧ '/' ∉ name.toList) :
    Path.isAbsolute place.path = place.isAbsolute := by
  rw [path]
  cases place.isAbsolute with
  | true =>
    rw [if_pos rfl, Path.isAbsolute, Text.startsWith_iff, String.toList_append]
    exact ⟨_, rfl⟩
  | false =>
    rw [if_neg Bool.false_ne_true]
    split
    · rfl
    · rw [← Bool.not_eq_true, Path.isAbsolute_joinWith fun name hmem => (h name hmem).2]
      intro hex
      obtain ⟨rest, _, hnames⟩ := hex
      have hfirst := (h "" (by rw [hnames]; exact List.mem_cons_self)).1
      exact absurd hfirst (by decide)

/-! ### The way from one place to another -/

theorem dropCommon_eq (xs ys : List String) :
    ∃ common, xs = common ++ (dropCommon xs ys).1 ∧ ys = common ++ (dropCommon xs ys).2 := by
  induction xs generalizing ys with
  | nil => exact ⟨[], by cases ys <;> exact ⟨rfl, rfl⟩⟩
  | cons x xs ih =>
    cases ys with
    | nil => exact ⟨[], rfl, rfl⟩
    | cons y ys =>
      by_cases hxy : x = y
      · obtain ⟨common, hxs, hys⟩ := ih ys
        have hdrop : dropCommon (x :: xs) (y :: ys) = dropCommon xs ys := by
          rw [dropCommon, hxy, beq_self_eq_true, if_pos rfl]
        exact ⟨x :: common, by rw [hdrop, List.cons_append,
          ← hxs], by rw [hdrop, hxy, List.cons_append, ← hys]⟩
      · have hdrop : dropCommon (x :: xs) (y :: ys) = (x :: xs, y :: ys) := by
          rw [dropCommon, beq_false_of_ne hxy, if_neg Bool.false_ne_true]
        exact ⟨[], by rw [hdrop]; rfl, by rw [hdrop]; rfl⟩

/-- A step up has nothing in common with names. -/
theorem dropCommon_up_left {xs ys : List String} (h : ".." ∉ ys) :
    dropCommon (".." :: xs) ys = (".." :: xs, ys) := by
  cases ys with
  | nil => rfl
  | cons y ys =>
    rw [dropCommon, beq_false_of_ne (List.ne_of_not_mem_cons h), if_neg Bool.false_ne_true]

theorem dropCommon_up_right {xs ys : List String} (h : ".." ∉ xs) :
    dropCommon xs (".." :: ys) = (xs, ".." :: ys) := by
  cases xs with
  | nil => rfl
  | cons x xs =>
    rw [dropCommon, beq_false_of_ne (Ne.symm (List.ne_of_not_mem_cons h)),
      if_neg Bool.false_ne_true]

/-- The way from names to names, with some steps up in front of both. It leads to the names, and one
step further up if one of the places has a step up left and the other has not. -/
theorem foldl_way (origin : Location) {names base : List String} (hnames : ".." ∉ names)
    (hbase : ".." ∉ base) (ups baseUps : Nat) :
    let rest := dropCommon (climb ups ++ names) (climb baseUps ++ base)
    (List.replicate rest.2.length ".." ++ rest.1).foldl Location.step (origin.down base) =
      (if ups % 2 = baseUps % 2 then origin else origin.step "..").down names := by
  intro rest
  -- back to where the base starts, one step up, and down along the names
  have hover : (List.replicate base.length ".." ++ ".." :: names).foldl Location.step
      (origin.down base) = (origin.step "..").down names := by
    rw [List.foldl_append, Location.foldl_step_ups, List.foldl_cons,
      Location.foldl_step_names hnames]
  by_cases hsame : ups % 2 = baseUps % 2
  · have hrest : rest = dropCommon names base := by
      show dropCommon (climb ups ++ names) (climb baseUps ++ base) = _
      rw [climb, hsame, ← climb, dropCommon_append]
    obtain ⟨common, hleft, hright⟩ := dropCommon_eq names base
    rw [← hrest] at hleft hright
    have hbelow : ".." ∉ rest.1 :=
      fun hmem => hnames (by rw [hleft]; exact List.mem_append_right _ hmem)
    rw [if_pos hsame, hright, ← Location.down_down, List.foldl_append, Location.foldl_step_ups,
      Location.foldl_step_names hbelow, Location.down_down, ← hleft]
  · rw [if_neg hsame, ← hover]
    rcases Nat.mod_two_eq_zero_or_one ups with heven | hodd
    · have hrest : rest = (names, ".." :: base) := by
        show dropCommon (climb ups ++ names) (climb baseUps ++ base) = _
        rw [climb, if_pos heven, climb, if_neg fun h => hsame (heven.trans h.symm)]
        exact dropCommon_up_right hnames
      rw [hrest, List.length_cons, List.replicate_succ', List.append_assoc, List.singleton_append]
    · have hrest : rest = (".." :: names, base) := by
        show dropCommon (climb ups ++ names) (climb baseUps ++ base) = _
        rw [climb, if_neg (by omega), climb, if_pos (by omega)]
        exact dropCommon_up_left hbase
      rw [hrest]

/-- A place has nothing in its names that a path would leave out. -/
theorem StandsFor.names {place : Place} {l : Location} (h : place.StandsFor l)
    (hl : ∀ name ∈ l.names, Location.IsName name) :
    ∀ name ∈ place.names, Path.isIdle name = false ∧ '/' ∉ name.toList := by
  have hclimb : ∀ ups, ∀ name ∈ climb ups, Path.isIdle name = false ∧ '/' ∉ name.toList := by
    intro ups name hmem
    have hup : name = ".." := by
      rw [climb] at hmem
      split at hmem
      · cases hmem
      · exact List.mem_singleton.mp hmem
    rw [hup]
    decide
  have hboth : ∀ ups, place.names = climb ups ++ l.names →
      ∀ name ∈ place.names, Path.isIdle name = false ∧ '/' ∉ name.toList := by
    intro ups hnames name hmem
    rw [hnames] at hmem
    rcases List.mem_append.mp hmem with hup | hname
    · exact hclimb ups name hup
    · exact ⟨(hl name hname).not_idle, (hl name hname).not_slash⟩
  cases l with
  | fromTop names =>
    obtain ⟨_, ups, hnames⟩ := h
    exact hboth ups hnames
  | fromHere ups names => exact hboth ups h.2

theorem seenFrom_of_same_side {target base : Place} (h : target.isAbsolute = base.isAbsolute) :
    target.seenFrom base =
      ⟨false, List.replicate (dropCommon target.names base.names).2.length ".." ++
        (dropCommon target.names base.names).1⟩ := by
  rw [seenFrom, h]
  cases base.isAbsolute <;> rfl

end Place

namespace Location

variable {target base : Location} {place basePlace : Place}

/-- Whether a location is reached from the top. -/
def isFromTop : Location → Bool
  | fromTop _ => true
  | fromHere _ _ => false

/-- The location to which the way from a base leads: of the steps up beyond those of the base every
second one is lost. -/
def folded : Location → Location → Location
  | fromTop names, _ => fromTop names
  | fromHere ups names, base =>
      fromHere (if ups % 2 = base.ups % 2 then base.ups else base.ups + 1) names

theorem not_up_mem_names (h : ∀ name ∈ target.names, IsName name) : ".." ∉ target.names :=
  fun hmem =>
  (h ".." hmem).not_up rfl

/-- From the same side the way leads over what both have in common. -/
theorem follow_seenFrom_of_same_side (ht : place.StandsFor target)
    (htarget : ∀ name ∈ target.names, IsName name) (hbase : ∀ name ∈ base.names, IsName name)
    (hside : place.isAbsolute = basePlace.isAbsolute) {ups baseUps : Nat}
    (hnames : place.names = Place.climb ups ++ target.names)
    (hbaseNames : basePlace.names = Place.climb baseUps ++ base.names) :
    base.follow (place.seenFrom basePlace).path =
      (if ups % 2 = baseUps % 2 then base.origin else base.origin.step "..").down target.names := by
  obtain ⟨common, hleft, _⟩ := Place.dropCommon_eq place.names basePlace.names
  have hplain : ∀ name ∈ (place.seenFrom basePlace).names, Path.isIdle name = false ∧
      '/' ∉ name.toList := by
    intro name hmem
    rw [Place.seenFrom_of_same_side hside] at hmem
    rcases List.mem_append.mp hmem with hup | hname
    · rw [List.eq_of_mem_replicate hup]
      decide
    · refine ht.names htarget name ?_
      rw [hleft]
      exact List.mem_append_right _ hname
  have hway := Place.foldl_way base.origin (not_up_mem_names htarget)
      (not_up_mem_names hbase) ups baseUps
  rw [origin_down] at hway
  rw [follow, Place.steps_path hplain, Place.isAbsolute_path hplain,
    Place.seenFrom_of_same_side hside, if_neg Bool.false_ne_true, hnames, hbaseNames]
  exact hway

/-- The path of a place that starts from the top leads there from everywhere. -/
theorem follow_path_of_isAbsolute (ht : place.StandsFor target)
    (htarget : ∀ name ∈ target.names, IsName name) (habs : place.isAbsolute = true) (l : Location) :
    l.follow place.path = target := by
  have hplain := ht.names htarget
  cases target with
  | fromTop names =>
    obtain ⟨_, ups, hnames⟩ := ht
    have hnotup : ".." ∉ names := not_up_mem_names htarget
    have hclimb : (Place.climb ups).foldl step (fromTop []) = fromTop [] := by
      rw [Place.climb]
      split <;> rfl
    rw [follow, Place.steps_path hplain, Place.isAbsolute_path hplain, habs, if_pos rfl, hnames,
      List.foldl_append, hclimb, foldl_step_names hnotup]
    rfl
  | fromHere ups names =>
    rw [ht.1] at habs
    cases habs

/-- The way from one place to another leads from the one location to the other, but for steps up
that are lost. -/
theorem follow_seenFrom (ht : place.StandsFor target) (hb : basePlace.StandsFor base)
    (htarget : ∀ name ∈ target.names, IsName name) (hbase : ∀ name ∈ base.names, IsName name)
    (hside : base.isFromTop = true → target.isFromTop = true) :
    base.follow (place.seenFrom basePlace).path = target.folded base := by
  cases target with
  | fromTop names =>
    obtain ⟨habs, ups, hnames⟩ := id ht
    cases base with
    | fromTop baseNames =>
      obtain ⟨hbabs, baseUps, hbaseNames⟩ := hb
      rw [follow_seenFrom_of_same_side ht htarget hbase (habs.trans hbabs.symm) hnames hbaseNames]
      exact congrArg (fun l => down l names) (ite_self _)
    | fromHere baseUps baseNames =>
      have hself : place.seenFrom basePlace = place := by rw [Place.seenFrom, habs, hb.1]
      rw [hself]
      exact follow_path_of_isAbsolute ht htarget habs _
  | fromHere ups names =>
    cases base with
    | fromTop baseNames => cases hside rfl
    | fromHere baseUps baseNames =>
      rw [follow_seenFrom_of_same_side ht htarget hbase (ht.1.trans hb.1.symm) ht.2 hb.2, folded]
      show _ = fromHere (if ups % 2 = baseUps % 2 then baseUps else baseUps + 1) names
      split <;> rfl

theorem folded_eq_iff (hups : base.ups ≤ target.ups ∨ target.isFromTop = true) :
    target.folded base = target ↔ target.ups ≤ base.ups + 1 := by
  match target, hups with
  | .fromTop names, _ => exact iff_of_true rfl (Nat.zero_le _)
  | .fromHere ups names, .inl hle =>
    rw [folded, fromHere.injEq, and_iff_left rfl]
    show _ ↔ ups ≤ base.ups + 1
    have hle' : base.ups ≤ ups := hle
    split <;> omega

/-! ### Locators in record files -/

section Denoted

variable {locator file root : String}

/-- What a locator in a record file denotes: it is followed from the directory of the file. -/
def denoted (locator file root : String) : Location :=
  (ofPath ((Path.parent? file).getD root)).follow locator

theorem isFromTop_follow (l : Location) (path : String) :
    (l.follow path).isFromTop = (Path.isAbsolute path || l.isFromTop) := by
  have hstep : ∀ (l : Location) (name : String), (l.step name).isFromTop = l.isFromTop := by
    intro l name
    match l with
    | fromTop _ => rfl
    | fromHere _ [] =>
      rw [step]
      split <;> rfl
    | fromHere _ (_ :: _) => rfl
  have hfold : ∀ (steps : List String) (l : Location),
      (steps.foldl step l).isFromTop = l.isFromTop := by
    intro steps
    induction steps with
    | nil => exact fun _ => rfl
    | cons name rest ih => exact fun l => (ih (l.step name)).trans (hstep l name)
  rw [follow, hfold]
  split
  · next habs => rw [habs, Bool.true_or]; rfl
  · next habs => rw [Bool.eq_false_iff.mpr habs, Bool.false_or]

@[simp] theorem isFromTop_down (l : Location) (below : List String) :
    (l.down below).isFromTop = l.isFromTop := by
  cases l <;> rfl

theorem down_singleton_inj {l other : Location} {name name' : String}
    (h : l.down [name] = other.down [name']) : l = other ∧ name = name' := by
  cases l <;> cases other <;> simp_all [down, List.append_singleton_inj]

/-- What leads below a location in one step starts below it too. -/
theorem exists_eq_down_of_step {l : Location} {name : String} {below : List String}
    (hne : below ≠ []) (h : l.step name = base.down below) : ∃ more, l = base.down more := by
  by_cases hup : name = ".."
  · subst hup
    -- a step up that leads to names has taken one away
    have hlast : l.names ≠ [] := by
      intro hnil
      have hnames := congrArg names h
      rw [← origin_down l, hnil, down_nil] at hnames
      have hempty : (l.origin.step "..").names = [] := by cases l <;> rfl
      rw [hempty, names_down] at hnames
      exact List.append_ne_nil_of_right_ne_nil _ hne hnames.symm
    have hsplit : l = (l.origin.down l.names.dropLast).down [l.names.getLast hlast] := by
      rw [down_down, List.dropLast_append_getLast, origin_down]
    refine ⟨below ++ [l.names.getLast hlast], ?_⟩
    rw [← down_down, ← h]
    conv_lhs => rw [hsplit]
    have hback := step_up_down (l := l.origin) l.names.dropLast (l.names.getLast hlast)
    rw [List.dropLast_append_getLast, origin_down] at hback
    rw [hback]
  · rw [step_name hup] at h
    refine ⟨below.dropLast, ?_⟩
    have hbelow : below = below.dropLast ++ [below.getLast hne] :=
      (List.dropLast_append_getLast hne).symm
    rw [hbelow, ← down_down] at h
    exact (down_singleton_inj h).1

/-- The directory of a file that lies under a root lies there too, or it is the root. -/
theorem exists_directory_eq (h : LiesUnder file root) :
    ∃ below, ofPath ((Path.parent? file).getD root) = (ofPath root).down below := by
  obtain ⟨below, hne, hfile⟩ := h
  have hsteps : Path.steps file ≠ [] := by
    intro hnil
    have hnames := congrArg names hfile
    rw [ofPath, follow, hnil, List.foldl_nil, names_down] at hnames
    have hempty : (if Path.isAbsolute file = true then fromTop [] else here).names =
        [] := by split <;> rfl
    rw [hempty] at hnames
    exact List.append_ne_nil_of_right_ne_nil _ hne hnames.symm
  obtain ⟨dir, hdir⟩ := Option.isSome_iff_exists.mp (Path.isSome_parent? hsteps)
  obtain ⟨hdirSteps, hdirAbs⟩ := Path.of_parent?_eq_some hdir
  have hlast : ofPath file = (ofPath dir).step ((Path.steps file).getLast hsteps) := by
    rw [ofPath, ofPath, follow, follow, hdirSteps, hdirAbs]
    conv_lhs => rw [← List.dropLast_append_getLast hsteps, List.foldl_append]
    rfl
  rw [hdir, Option.getD_some]
  exact exists_eq_down_of_step hne (hlast.symm.trans hfile)

/-- Where a rebased locator leads: to what the locator denotes, but for steps up that are lost. -/
theorem follow_rebase (h : LiesUnder file root) :
    (ofPath root).follow (Path.rebase locator file root) =
      (denoted locator file root).folded (ofPath root) := by
  obtain ⟨below, hdir⟩ := exists_directory_eq h
  refine follow_seenFrom (Place.standsFor_follow (Place.standsFor_ofPath _) locator)
    (Place.standsFor_ofPath root)
    (isName_follow (isName_ofPath _)) (isName_ofPath root) fun hroot => ?_
  rw [denoted, isFromTop_follow, hdir, isFromTop_down, hroot, Bool.or_true]

/-- A locator does not lead above the data root without a step up. -/
theorem ups_le_denoted (h : LiesUnder file root) :
    (ofPath root).ups ≤ (denoted locator file root).ups ∨
      (denoted locator file root).isFromTop = true := by
  obtain ⟨below, hdir⟩ := exists_directory_eq h
  rw [denoted, hdir]
  cases habs : Path.isAbsolute locator with
  | true =>
    right
    rw [isFromTop_follow, habs, Bool.true_or]
  | false =>
    left
    have hle := ups_le_foldl (Path.steps locator) ((ofPath root).down below)
    rw [follow, habs, if_neg Bool.false_ne_true]
    rwa [ups_down] at hle

/-- A rebased locator leads from the data root to what the locator denotes exactly if that lies at
most one step further up than the data root. There are no steps up if the locator or the data root
is absolute. -/
theorem follow_rebase_iff (h : LiesUnder file root) :
    (ofPath root).follow (Path.rebase locator file root) = denoted locator file root ↔
      (denoted locator file root).ups ≤ (ofPath root).ups + 1 := by
  rw [follow_rebase h]
  exact folded_eq_iff (ups_le_denoted h)

/-- One step further up than a data root that lies one step up itself. -/
theorem follow_rebase_above_root :
    LiesUnder "../data/sales/q1.txt" "../data" ∧
      denoted "../../../x.png" "../data/sales/q1.txt" "../data" = fromHere 2 ["x.png"] ∧
      (ofPath "../data").follow (Path.rebase "../../../x.png" "../data/sales/q1.txt" "../data") =
        denoted "../../../x.png" "../data/sales/q1.txt" "../data" := by
  have hfile : LiesUnder "../data/sales/q1.txt" "../data" :=
    ⟨["sales", "q1.txt"], by decide, by decide +kernel⟩
  have hdenoted : denoted "../../../x.png" "../data/sales/q1.txt" "../data" =
      fromHere 2 ["x.png"] := by
    decide +kernel
  refine ⟨hfile, hdenoted, (follow_rebase_iff hfile).mpr ?_⟩
  rw [hdenoted]
  decide +kernel

/-- Two steps further up than the data root. -/
theorem follow_rebase_ne_denoted :
    LiesUnder "data/a.txt" "data" ∧
      denoted "../../../x.png" "data/a.txt" "data" = fromHere 2 ["x.png"] ∧
      Path.rebase "../../../x.png" "data/a.txt" "data" = "../x.png" ∧
      (ofPath "data").follow (Path.rebase "../../../x.png" "data/a.txt" "data") ≠
        denoted "../../../x.png" "data/a.txt" "data" :=
  ⟨⟨["a.txt"], by decide, by decide +kernel⟩,
    by decide +kernel, by decide +kernel, by decide +kernel⟩

end Denoted

end Location

end Catalog
