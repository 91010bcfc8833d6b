import Catalog.FileSystem.Files

/-!
# Reading what has been written

Where a path leads to a free name, a file written there is found under the path afterwards: the walk
passes the same directories and links as before, since none of them has the free name.

* `FileSystem.walk_vacant_induction` is the induction along a walk that leads to a free name;
* `FileSystem.walk_set` is the walk after writing, and `FileSystem.locate_set` says where the path
  leads then;
* `FileSystem.writeText_of_vacant` and `FileSystem.writeText_of_not_vacant` say when a new file can
  be written.
-/

namespace Catalog.FileSystem

variable {fs : FileSystem} {path : String} {names : List String}

/-! ### One step -/

section Step

variable {links : Nat} {dir rest : List String} {name : String}

theorem walk_dot : fs.walk links dir ("." :: rest) = fs.walk links dir rest := by
  rw [walk, if_pos (beq_self_eq_true _)]

theorem walk_up : fs.walk links dir (".." :: rest) = fs.walk links dir.dropLast rest := by
  rw [walk, if_neg (by decide), if_pos (beq_self_eq_true _)]

variable (hdot : name ≠ ".") (hup : name ≠ "..")

include hdot hup

theorem walk_directory (h : fs.entryAt? (dir ++ [name]) = some .directory) :
    fs.walk links dir (name :: rest) = fs.walk links (dir ++ [name]) rest := by
  rw [walk, if_neg (mt eq_of_beq hdot), if_neg (mt eq_of_beq hup), h]

theorem walk_link {target : String} (h : fs.entryAt? (dir ++ [name]) = some (.link target)) :
    fs.walk (links + 1) dir (name :: rest) =
      fs.walk links (startOf dir target) (stepsOf target ++ rest) := by
  rw [walk, if_neg (mt eq_of_beq hdot), if_neg (mt eq_of_beq hup), h]

theorem walk_file {text : Option String} (h : fs.entryAt? (dir ++ [name]) = some (.file text)) :
    fs.walk links dir [name] = .present (dir ++ [name]) (.file text) := by
  rw [walk, if_neg (mt eq_of_beq hdot), if_neg (mt eq_of_beq hup), h]
  rfl

theorem walk_free (h : fs.entryAt? (dir ++ [name]) = none) :
    fs.walk links dir [name] = .vacant (dir ++ [name]) := by
  rw [walk, if_neg (mt eq_of_beq hdot), if_neg (mt eq_of_beq hup), h]
  rfl

end Step

/-- The walks that lead to a free name: they go through directories and links, and the name is the
last step. -/
theorem walk_vacant_induction {motive : Nat → List String → List String → Prop}
    (dot : ∀ links dir rest, motive links dir rest → motive links dir ("." :: rest))
    (up : ∀ links dir rest, motive links dir.dropLast rest → motive links dir (".." :: rest))
    (directory : ∀ links dir name rest, name ≠ "." → name ≠ ".." →
      fs.entryAt? (dir ++ [name]) = some .directory → motive links (dir ++ [name]) rest →
      motive links dir (name :: rest))
    (link : ∀ links dir name rest target, name ≠ "." → name ≠ ".." →
      fs.entryAt? (dir ++ [name]) = some (.link target) →
      motive links (startOf dir target) (stepsOf target ++ rest) →
        motive (links + 1) dir (name :: rest))
    (free : ∀ links dir name, name ≠ "." → name ≠ ".." → fs.entryAt? (dir ++ [name]) = none →
      dir ++ [name] = names → motive links dir [name])
    {links : Nat} {dir steps : List String} (h : fs.walk links dir steps = .vacant names) :
    motive links dir steps := by
  induction links, dir, steps using walk.induct fs with
  | case1 links dir =>
    rw [walk] at h
    cases h
  | case2 links dir name rest hdot ih =>
    cases eq_of_beq hdot
    rw [walk_dot] at h
    exact dot links dir rest (ih h)
  | case3 links dir name rest hdot hup ih =>
    cases eq_of_beq hup
    rw [walk_up] at h
    exact up links dir rest (ih h)
  | case4 links dir name rest hdot hup hnone hlast =>
    rw [walk, if_neg hdot, if_neg hup, hnone, if_pos hlast] at h
    injection h with h
    cases List.isEmpty_iff.mp hlast
    exact free links dir name (mt beq_iff_eq.mpr hdot) (mt beq_iff_eq.mpr hup) hnone h
  | case5 links dir name rest hdot hup hnone hlast =>
    rw [walk, if_neg hdot, if_neg hup, hnone, if_neg hlast] at h
    cases h
  | case6 links dir name rest hdot hup hdir ih =>
    have hdot' : name ≠ "." := mt beq_iff_eq.mpr hdot
    have hup' : name ≠ ".." := mt beq_iff_eq.mpr hup
    rw [walk_directory hdot' hup' hdir] at h
    exact directory links dir name rest hdot' hup' hdir (ih h)
  | case7 links dir name rest hdot hup text hfile hlast =>
    rw [walk, if_neg hdot, if_neg hup, hfile] at h
    dsimp only at h
    rw [if_pos hlast] at h
    cases h
  | case8 links dir name rest hdot hup text hfile hlast =>
    rw [walk, if_neg hdot, if_neg hup, hfile] at h
    dsimp only at h
    rw [if_neg hlast] at h
    cases h
  | case9 dir name rest hdot hup target hlink =>
    rw [walk, if_neg hdot, if_neg hup, hlink] at h
    cases h
  | case10 dir name rest hdot hup target hlink links ih =>
    have hdot' : name ≠ "." := mt beq_iff_eq.mpr hdot
    have hup' : name ≠ ".." := mt beq_iff_eq.mpr hup
    rw [walk_link hdot' hup' hlink] at h
    exact link links dir name rest target hdot' hup' hlink (ih h)

/-! ### After writing -/

/-- A name to which a walk leads and which is free has no entry. -/
theorem free_of_walk_vacant {links : Nat} {dir steps : List String}
    (h : fs.walk links dir steps = .vacant names) : names ≠ [] ∧ fs.entryAt? names = none := by
  refine walk_vacant_induction (motive := fun _ _ _ => names ≠ [] ∧ fs.entryAt? names = none)
    (fun _ _ _ ih => ih)
    (fun _ _ _ ih => ih) (fun _ _ _ _ _ _ _ ih => ih) (fun _ _ _ _ _ _ _ _ ih => ih)
    (fun _ dir name _ _ hnone hnames => ?_) h
  rw [← hnames]
  exact ⟨List.append_ne_nil_of_right_ne_nil _ (List.cons_ne_nil _ _), hnone⟩

/-- A walk that led to a free name leads to the file that has been written there. -/
theorem walk_set {text : Option String} {links : Nat} {dir steps : List String}
    (h : fs.walk links dir steps = .vacant names) :
    (fs.set names (.file text)).walk links dir steps = .present names (.file text) := by
  obtain ⟨hne, hfree⟩ := free_of_walk_vacant h
  -- what has an entry is not what has been written
  have hold : ∀ {other entry}, fs.entryAt? other = some entry →
      (fs.set names (.file text)).entryAt? other = some entry := by
    intro other entry hother
    rw [entryAt?_set fs hne, if_neg, hother]
    rintro rfl
    rw [hfree] at hother
    cases hother
  refine walk_vacant_induction
    (motive := fun links dir steps =>
      (fs.set names (.file text)).walk links dir steps = .present names (.file text))
    ?dot ?up ?directory ?link ?free h
  case dot =>
    intro links dir rest ih
    rw [walk_dot, ih]
  case up =>
    intro links dir rest ih
    rw [walk_up, ih]
  case directory =>
    intro links dir name rest hdot hup hdir ih
    rw [walk_directory hdot hup (hold hdir), ih]
  case link =>
    intro links dir name rest target hdot hup hlink ih
    rw [walk_link hdot hup (hold hlink), ih]
  case free =>
    intro links dir name hdot hup hnone hnames
    subst hnames
    exact walk_file hdot hup (by rw [entryAt?_set fs hne, if_pos rfl])

/-- A path that led to a free name leads to the file that has been written there. -/
theorem locate_set {text : Option String} (h : fs.locate path = .vacant names) :
    (fs.set names (.file text)).locate path = .present names (.file text) := by
  unfold locate at h ⊢
  split at h
  · cases h
  · next hpath =>
    rw [if_neg hpath]
    exact walk_set h

/-! ### New files -/

theorem writeText_of_vacant (h : fs.locate path = .vacant names) (text : String) :
    fs.writeText path text = .ok (fs.set names (.file (some text))) := by
  rw [writeText, write?, h]

/-- Where there is no file and no free name, none can be written. -/
theorem writeText_of_not_vacant (hnew : fs.isFile path = false)
    (h : ∀ names, fs.locate path ≠ .vacant names) (text : String) :
    fs.writeText path text = .error (.unwritable path) := by
  rw [writeText, write?]
  cases hspot : fs.locate path with
  | present at_ entry =>
    cases entry with
    | file _ =>
      rw [isFile, hspot] at hnew
      cases hnew
    | directory => rfl
    | link _ => rfl
  | vacant free => exact absurd hspot (h free)
  | nowhere => rfl

theorem isFile_of_locate {text : Option String} (h : fs.locate path = .present names (.file text)) :
    fs.isFile path = true := by
  rw [isFile, h]

theorem read?_of_locate {text : Option String} (h : fs.locate path = .present names (.file text)) :
    fs.read? path = text := by
  rw [read?, h]

end Catalog.FileSystem
