import Catalog.Command.Run
import Catalog.Proofs.Configuration.Reading
import Catalog.Proofs.FileSystem.Writing
import Catalog.Proofs.Load.Directory
import Catalog.Proofs.Path.Joining
import Catalog.Proofs.Yaml.Flat

/-!
# Configurations that are exported and loaded

An exported configuration is found under its path and read back from its document. Loading then
takes the data root and the families file as seen from the directory of the file, so a configuration
with relative paths comes back with other ones, unless the path of the file names no directory.

* `Configuration.Same` compares configurations as the program does;
* `Configuration.same_relocate_iff` says when a configuration stays the same as its paths are seen
  from a file;
* `Configuration.load_exportTo` says what is loaded after an export, and which exports fail;
* `Configuration.not_same_load` says that a share of words that is none never comes back.
-/

namespace Catalog

/-- Two numbers that count as equal: neither of them is no number. -/
def Binary64.SameNumber (x y : Binary64) : Prop :=
  x.isNaN = false ∧ y.isNaN = false ∧ x.sameValue y = true

theorem Binary64.sameNumber_of_inUnitInterval {x : Binary64} (h : x.inUnitInterval = true) :
    x.SameNumber x := by
  have hnumber : x.isNaN = false := by
    rw [isNaN, beq_eq_false_iff_ne]
    intro hnan
    rw [inUnitInterval, hnan] at h
    cases h
  refine ⟨hnumber, hnumber, ?_⟩
  rw [sameValue, beq_self_eq_true, Bool.true_or, Bool.true_or]

theorem Binary64.inUnitInterval_of_isZero {x : Binary64} (h : x.isZero = true) :
    x.inUnitInterval = true := by
  rw [isZero] at h
  split at h
  · next hdecode =>
    rw [inUnitInterval, hdecode]
    rfl
  · cases h

namespace Configuration

variable {c d : Configuration} {fs : FileSystem} {file : String}

/-- Two configurations that count as equal: paths are compared by their parts, and numbers by what
they stand for. -/
structure Same (c d : Configuration) : Prop where
  root : Path.Same c.root d.root
  families : Option.Rel Path.Same c.families d.families
  logfile : Path.Same c.logfile d.logfile
  keep : c.keep.SameNumber d.keep
  others : { c with root := "", families := none, logfile := "", keep := defaultKeep } =
    { d with root := "", families := none, logfile := "", keep := defaultKeep }

/-- The directory of a file, as far as its path names it. -/
def directoryOf (file : String) : String := (Path.parent? file).getD ""

/-- The paths of a configuration that are seen from its file. -/
def sourcePaths (c : Configuration) : List String := c.root :: c.families.toList

/-- A path is the same as seen from a file: it is absolute, or the path of the file names no
directory. The directory `.` makes no difference to a path that starts with it. -/
def StaysFrom (file path : String) : Prop :=
  Path.isAbsolute path = true ∨ directoryOf file = "" ∨
    Path.Same (directoryOf file) "." ∧ Path.startsHere path = true

theorem same_relocate_iff (hkeep : c.keep.inUnitInterval = true) :
    Same (c.relocate file) c ↔ ∀ path ∈ c.sourcePaths, StaysFrom file path := by
  have hpaths : (∀ path ∈ c.sourcePaths, StaysFrom file path) ↔
      ∀ path ∈ c.sourcePaths, Path.Same (Path.join (directoryOf file) path) path :=
    forall₂_congr fun _ _ => Path.same_join_iff.symm
  rw [hpaths, sourcePaths, List.forall_mem_cons]
  constructor
  · intro hsame
    refine ⟨hsame.root, fun path hmem => ?_⟩
    have hfamilies := hsame.families
    rw [relocate, Option.mem_toList.mp hmem] at hfamilies
    cases hfamilies with
    | some hpath => exact hpath
  · intro hall
    obtain ⟨hroot, hfamilies⟩ := hall
    refine ⟨hroot, ?_, Path.Same.refl _, Binary64.sameNumber_of_inUnitInterval hkeep, rfl⟩
    rw [relocate]
    cases hset : c.families with
    | none => exact .none
    | some path => exact .some (hfamilies path (by rw [hset]; exact List.mem_singleton_self path))

/-- A configuration is read back from its document. -/
theorem ofText_toText (hkeep : c.keep.inUnitInterval = true)
    (hyaml : Yaml.read c.toText = .ok c.toValue) : ofText c.toText = pure (.ok c) := by
  rw [ofText, hyaml]
  show ofValue c.toValue = _
  rw [ofValue_toValue, check, if_pos hkeep]

section Exported

variable {names : List String}

/-- An export to a free name writes the document there. -/
theorem exportTo_of_vacant (c : Configuration) (h : fs.locate file = .vacant names) :
    c.exportTo fs file = pure (.ok (fs.set names (.file (some c.toText)))) := by
  have hnew : fs.isFile file = false := by rw [FileSystem.isFile, h]
  rw [exportTo, hnew, if_neg Bool.false_ne_true, FileSystem.writeText_of_vacant h]

/-- What is loaded from a file that has been written under a free name. -/
theorem load_of_vacant (h : fs.locate file = .vacant names) (hkeep : c.keep.inUnitInterval = true)
    (hyaml : Yaml.read c.toText = .ok c.toValue) :
    load (fs.set names (.file (some c.toText))) file = pure (c.relocate file) := by
  have hlocate : (fs.set names (.file (some c.toText))).locate file =
      .present names (.file (some c.toText)) :=
    FileSystem.locate_set h
  rw [load, if_pos (FileSystem.isFile_of_locate hlocate), read, FileSystem.read?_of_locate hlocate]
  dsimp only
  rw [ofText_toText hkeep hyaml]
  rfl

end Exported

/-- A configuration whose share of words is one, exported to a path at which there is no file. If
the path leads to a free name, the configuration is loaded from it afterwards as seen from the
directory of the file, and it is the same exactly if its paths are the same from there. If the path
does not lead to a free name, nothing is written. -/
theorem load_exportTo (hkeep : c.keep.inUnitInterval = true)
    (hyaml : Yaml.read c.toText = .ok c.toValue) (hnew : fs.isFile file = false) :
    (∀ names, fs.locate file = .vacant names → ∃ written, c.exportTo fs file = pure (.ok written) ∧
      load written file = pure (c.relocate file) ∧
      (Same (load written file).value c ↔ ∀ path ∈ c.sourcePaths, StaysFrom file path)) ∧
    ((∀ names, fs.locate file ≠ .vacant names) →
      c.exportTo fs file = pure (.error (.unwritable file))) := by
  constructor
  · intro names hvacant
    refine ⟨_, exportTo_of_vacant c hvacant, load_of_vacant hvacant hkeep hyaml, ?_⟩
    rw [load_of_vacant hvacant hkeep hyaml]
    exact same_relocate_iff hkeep
  · intro hoccupied
    rw [exportTo, hnew, if_neg Bool.false_ne_true,
      FileSystem.writeText_of_not_vacant hnew hoccupied]

/-! ### Shares of words -/

theorem inUnitInterval_of_ofValue {v : Value} (h : (ofValue v).value = .ok c) :
    c.keep.inUnitInterval = true := by
  have hdefaults : defaultKeep.inUnitInterval = true := by decide +kernel
  rw [ofValue.eq_def] at h
  split at h
  · cases h
    exact hdefaults
  · next entries =>
    have h : (setAll {} [] (knownEntries entries).value).bind check = .ok c := h
    obtain ⟨d, _, hcheck⟩ := Except.exists_of_bind_eq_ok h
    rw [check] at hcheck
    split at hcheck
    · next hkeep =>
      cases hcheck
      exact hkeep
    · cases hcheck
  · cases h

/-- What is loaded has a share of words that is one, whatever the file holds. -/
theorem inUnitInterval_load (fs : FileSystem) (file : String) :
    (load fs file).value.keep.inUnitInterval = true := by
  have hdefaults : ({} : Configuration).keep.inUnitInterval = true := by decide +kernel
  rw [load]
  split
  · rw [Logged.value_bind]
    cases hread : (read fs file).value with
    | none => exact hdefaults
    | some d =>
      show d.keep.inUnitInterval = true
      rw [read] at hread
      split at hread
      · next text _ =>
        rw [Logged.value_map] at hread
        cases htext : (ofText text).value with
        | error fault =>
          rw [htext] at hread
          cases hread
        | ok e =>
          rw [htext] at hread
          cases hread
          rw [ofText] at htext
          split at htext
          · exact inUnitInterval_of_ofValue htext
          · cases htext
      · cases hread
  · exact hdefaults

/-- A share of words that is none does not come back from any file. -/
theorem not_same_load (hkeep : c.keep.inUnitInterval = false) (fs : FileSystem) (file : String) :
    ¬ Same (load fs file).value c := by
  intro hsame
  have hload := inUnitInterval_load fs file
  obtain ⟨hnumber, hnumber', hvalue⟩ := hsame.keep
  rw [Binary64.sameValue, hnumber, Bool.false_and, Bool.or_false, Bool.or_eq_true,
    Bool.and_eq_true] at hvalue
  rcases hvalue with heq | ⟨_, hzero⟩
  · rw [← beq_iff_eq.mp heq, hload] at hkeep
    cases hkeep
  · rw [Binary64.inUnitInterval_of_isZero hzero] at hkeep
    cases hkeep

/-! ### Written configurations -/

/-- The entries of the defaults with a title as they are written. -/
def titledEntries (title : String) : List Yaml.FlatEntry :=
  [⟨"root", "default_graph_dir", .plain, .text "default_graph_dir"⟩,
   ⟨"families", "null", .plain, .null⟩, ⟨"title", title, .plain, .text title⟩,
   ⟨"subtitle", "Default subtitle", .plain, .text "Default subtitle"⟩,
   ⟨"placeholder", "Free text and #keywords", .singleQuoted, .text "Free text and #keywords"⟩,
   ⟨"header", "", .singleQuoted, .text ""⟩, ⟨"footer", "", .singleQuoted, .text ""⟩,
   ⟨"show_family_numbers", "true", .plain, .bool true⟩,
   ⟨"show_graph_numbers", "true", .plain, .bool true⟩, ⟨"theme", "dark", .plain, .text "dark"⟩,
   ⟨"keep", "0.2", .plain, .float defaultKeep⟩,
   ⟨"logfile", "webapp.log", .plain, .text "webapp.log"⟩, ⟨"raw", "false", .plain, .bool false⟩,
   ⟨"verbose", "false", .plain, .bool false⟩, ⟨"debug", "false", .plain, .bool false⟩,
   ⟨"headless", "false", .plain, .bool false⟩, ⟨"port", "5555", .plain, .int 5555⟩]

/-- The defaults with a title are read back from their document, if this is what is written. -/
theorem read_titled {title : String}
    (htext : ({ title := title } : Configuration).toText =
      String.ofList ((titledEntries title).flatMap Yaml.FlatEntry.line))
    (htokens : Yaml.tokens (String.ofList ((titledEntries title).flatMap Yaml.FlatEntry.line)) =
      .ok (Yaml.flatTokens (titledEntries title)))
    (htitle : Yaml.scalarValue none title true = .ok (.text title)) :
    Yaml.read ({ title := title } : Configuration).toText =
      .ok ({ title := title } : Configuration).toValue := by
  have hread : ∀ e ∈ titledEntries title, e.IsRead := by
    simp only [titledEntries, List.forall_mem_cons]
    have hkey : Yaml.scalarValue none "title" true = .ok (.text "title") := rfl
    refine ⟨⟨rfl, rfl⟩, ⟨rfl, rfl⟩, ⟨hkey, htitle⟩, ⟨rfl, rfl⟩, ⟨rfl, rfl⟩, ⟨rfl, rfl⟩,
      ⟨rfl, rfl⟩, ⟨rfl, rfl⟩, ⟨rfl, rfl⟩, ⟨rfl, rfl⟩, ⟨?_, ?_⟩, ⟨rfl, rfl⟩, ⟨rfl, rfl⟩, ⟨rfl, rfl⟩,
      ⟨rfl, rfl⟩, ⟨rfl, rfl⟩, ⟨rfl, rfl⟩, fun _ hmem => absurd hmem List.not_mem_nil⟩
    all_goals with_unfolding_all rfl
  have hkeys : ((titledEntries title).map Yaml.FlatEntry.key).Nodup := by
    show ((titledEntries "").map Yaml.FlatEntry.key).Nodup
    decide +kernel
  rw [htext, Yaml.read_flat htokens hread hkeys]
  rfl

theorem read_defaults :
    Yaml.read ({} : Configuration).toText = .ok ({} : Configuration).toValue := by
  refine read_titled (by decide +kernel) ?_ rfl
  rw [Yaml.tokens, String.toList_ofList]
  exact ok_of_toOption (by decide +kernel)

theorem read_sales : Yaml.read ({ title := "Sales" } : Configuration).toText =
    .ok ({ title := "Sales" } : Configuration).toValue := by
  refine read_titled (by decide +kernel) ?_ rfl
  rw [Yaml.tokens, String.toList_ofList]
  exact ok_of_toOption (by decide +kernel)

/-! ### Files -/

/-- A file system with one directory. -/
def withOut : FileSystem := ({} : FileSystem).set ["out"] .directory

theorem locate_out : withOut.locate "out/conf.yml" = .vacant ["out", "conf.yml"] := by
  have hsteps : FileSystem.stepsOf "out/conf.yml" = ["out", "conf.yml"] := by decide +kernel
  have hstart : FileSystem.startOf withOut.here "out/conf.yml" = [] := by decide +kernel
  have hdir : withOut.entryAt? ([] ++ ["out"]) = some .directory := by decide +kernel
  have hfile : withOut.entryAt? (["out"] ++ ["conf.yml"]) = none := by decide +kernel
  rw [FileSystem.locate, if_neg (by decide), hsteps, hstart,
    FileSystem.walk_directory (by decide) (by decide) hdir]
  exact FileSystem.walk_free (by decide) (by decide) hfile

theorem locate_here : withOut.locate "conf.yml" = .vacant ["conf.yml"] := by
  have hsteps : FileSystem.stepsOf "conf.yml" = ["conf.yml"] := by decide +kernel
  have hstart : FileSystem.startOf withOut.here "conf.yml" = [] := by decide +kernel
  have hfile : withOut.entryAt? ([] ++ ["conf.yml"]) = none := by decide +kernel
  rw [FileSystem.locate, if_neg (by decide), hsteps, hstart]
  exact FileSystem.walk_free (by decide) (by decide) hfile

/-- A configuration with a title of its own comes back from a file right in the working directory,
title and all. -/
theorem load_exportTo_of_title :
    let c : Configuration := { title := "Sales" }
    ∃ written, (c.exportTo withOut "conf.yml").value = .ok written ∧
      Same (load written "conf.yml").value c ∧ (load written "conf.yml").value.title = "Sales" := by
  intro c
  have hkeep : c.keep.inUnitInterval = true := by decide +kernel
  have hdir : directoryOf "conf.yml" = "" := by decide +kernel
  have hnew : withOut.isFile "conf.yml" = false := by rw [FileSystem.isFile, locate_here]
  obtain ⟨written, hexport, hload, hsame⟩ := (load_exportTo hkeep read_sales hnew).1 _ locate_here
  refine ⟨written, ?_, hsame.mpr fun _ _ => Or.inr (Or.inl hdir), ?_⟩
  · rw [hexport]
    rfl
  · rw [hload]
    rfl

/-- The defaults do not come back from a file further down, where their data root is another
directory. A share of words that is none does not come back from any file. -/
theorem not_same_of_relative_root :
    (∃ written,
      ((CommandOptions.resolve {} withOut none).value.exportTo withOut "out/conf.yml").value =
        .ok written ∧
      Yaml.read (CommandOptions.resolve {} withOut none).value.toText =
        .ok (CommandOptions.resolve {} withOut none).value.toValue ∧
      (load written "out/conf.yml").value.root = "out/default_graph_dir" ∧
      ¬ Same (load written "out/conf.yml").value (CommandOptions.resolve {} withOut none).value) ∧
    ∀ written, ¬ Same (load written "conf.yml").value
      (CommandOptions.resolve { keep := some (Binary64.ofInt 3) } withOut none).value := by
  have hkeep : ({} : Configuration).keep.inUnitInterval = true := by decide +kernel
  have hroot : (relocate {} "out/conf.yml").root = "out/default_graph_dir" := by decide +kernel
  constructor
  · refine ⟨_, congrArg Logged.value (exportTo_of_vacant {} locate_out), read_defaults, ?_⟩
    rw [load_of_vacant locate_out hkeep read_defaults]
    refine ⟨hroot, fun hsame => ?_⟩
    have hsteps : Path.steps (relocate {} "out/conf.yml").root = Path.steps "default_graph_dir" :=
      hsame.root.steps
    rw [hroot] at hsteps
    exact absurd hsteps (by decide +kernel)
  · intro written
    exact not_same_load (by decide +kernel) written "conf.yml"

end Configuration

end Catalog
