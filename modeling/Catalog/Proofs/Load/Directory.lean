import Catalog.Load.Tree
import Catalog.Proofs.Yaml.Flat

/-!
# Data roots that hold nothing but files

Walking a file system and reading a record both go through many steps that do not matter for a
directory right below the top, in which every file has a few plain entries.

* `FileSystem.locate_file` and `FileSystem.value_files_directory` say which files are found;
* `read_family` and `read_family_pair` say what record is read from a text that names a family;
* `FileSystem.value_buildTree_directory` puts the tree together, and
  `FileSystem.buildTree_ofRecordText` that of a single record;
* `shelfFiles` is a data root with two records and a file without, which `readRecord_shelf` and
  `files_shelf` read.
-/

namespace Catalog

/-! ### Records that name a family -/

theorem ok_of_toOption {ε α : Type} {x : Except ε α} {a : α} (h : x.toOption = some a) :
    x = .ok a := by
  cases x with
  | error e => cases h
  | ok b =>
    cases h
    rfl

/-- The only entry of a record that names a family in plain style. -/
def familyLine (name : String) : Yaml.FlatEntry := ⟨"family", name, .plain, .text name⟩

/-- A text of one plain entry that names a family is read as a record of this entry. -/
theorem read_family {text name : String}
    (htokens : (Yaml.tokens text).toOption = some (Yaml.flatTokens [familyLine name]))
    (hread : (familyLine name).IsRead) :
    Yaml.read text = .ok (.map [(.text "family", .text name)]) := by
  have hall : ∀ e ∈ [familyLine name], e.IsRead := List.forall_mem_singleton.mpr hread
  exact Yaml.read_flat (ok_of_toOption htokens) hall (List.nodup_singleton _)

/-- The key of a mapping with one entry and the members of its value, if the key and both members
are texts. -/
def onlyTextPair? : Except Yaml.Fault (Value × Nat) → Option (String × String × String)
  | .ok (.map [(.text key, .list [.text a, .text b])], _) => some (key, a, b)
  | _ => none

theorem eq_of_onlyTextPair? {x : Except Yaml.Fault (Value × Nat)} {key a b : String}
    (h : onlyTextPair? x = some (key, a, b)) :
    ∃ n, x = .ok (.map [(.text key, .list [.text a, .text b])], n) := by
  unfold onlyTextPair? at h
  split at h
  · cases h
    exact ⟨_, rfl⟩
  · cases h

/-- A text that names a family and the one above it in brackets and quotes is read as a record of
this entry. -/
theorem read_family_pair {text a b : String}
    (htokens : Yaml.tokens text =
      .ok [.blockMappingStart, .key, .scalar "family" .plain, .value, .flowSequenceStart,
      .scalar a .doubleQuoted, .flowEntry, .scalar b .doubleQuoted, .flowSequenceEnd, .blockEnd])
    (hvalue : onlyTextPair? ((Yaml.Resolver.value ⟨{}, 100 * Yaml.BoundNode.size
      (.map none [(.scalar none "family" true,
        .list none [.scalar none a false, .scalar none b false])])⟩
        Yaml.greatestDepth (.map none [(.scalar none "family" true,
          .list none [.scalar none a false, .scalar none b false])])).run 0) = some ("family",
            a, b)) :
    Yaml.read text = .ok (.map [(.text "family", .list [.text a, .text b])]) := by
  have hnode : Yaml.documentNode [.blockMappingStart, .key, .scalar "family" .plain, .value,
      .flowSequenceStart, .scalar a .doubleQuoted, .flowEntry, .scalar b .doubleQuoted,
      .flowSequenceEnd, .blockEnd] =
      .ok (some (.map none none [(.scalar none none "family" true,
        .list none none [.scalar none none a false, .scalar none none b false])])) := by
    simp [Yaml.documentNode, Yaml.node, Yaml.content, Yaml.blockEntries, Yaml.blockValue,
      Yaml.flowItems, Yaml.flowItem, Yaml.properties, Yaml.startsExplicitly, Yaml.absentInMapping,
      Yaml.onlyEnds, Bind.bind, Except.bind, Pure.pure, Except.pure]
  have hbound : Yaml.bind {} (.map none none [(.scalar none none "family" true,
      .list none none [.scalar none none a false, .scalar none none b false])]) =
      .ok (.map none [(.scalar none "family" true,
        .list none [.scalar none a false, .scalar none b false])], {}) := rfl
  simp only [Yaml.read, htokens, Bind.bind, Except.bind, hnode, hbound]
  obtain ⟨n, hvalue⟩ := eq_of_onlyTextPair? hvalue
  rw [hvalue]
  rfl

/-! ### Files -/

namespace FileSystem

variable {fs : FileSystem} {dir name : String}

/-- A directory right below the top is found under its name. -/
theorem locate_directory (hplain : dir ≠ "" ∧ dir ≠ "." ∧ dir ≠ "..") (hsteps : stepsOf dir = [dir])
    (hstart : startOf fs.here dir = []) (hdir : fs.entryAt? [dir] = some .directory) :
    fs.locate dir = .present [dir] .directory := by
  simp [locate, walk, hplain, hsteps, hstart, hdir]

/-- A file in a directory right below the top is found under the names of both. -/
theorem locate_file {path : String} {text : Option String} (hpath : path ≠ "")
    (hplain : dir ≠ "." ∧ dir ≠ "..") (hname : name ≠ "." ∧ name ≠ "..")
    (hsteps : stepsOf path = [dir, name]) (hstart : startOf fs.here path = [])
    (hdir : fs.entryAt? [dir] = some .directory)
    (hfile : fs.entryAt? [dir, name] = some (.file text)) :
    fs.locate path = .present [dir, name] (.file text) := by
  simp [locate, walk, hpath, hplain, hname, hsteps, hstart, hdir, hfile]

theorem value_filesBelow_file {path : String} {names : List String} {text : Option String}
    (hlocate : fs.locate path = .present names (.file text)) (fuel : Nat)
    (above : List (List String)) (linked : Bool) :
    (fs.filesBelow (fuel + 1) above linked false path).value = [path] := by
  rw [filesBelow, hlocate]
  rfl

theorem readRecord_of_read {path text : String} {names : List String} {record : Entries}
    (hlocate : fs.locate path = .present names (.file (some text)))
    (hread : Yaml.read text = .ok (.map record)) :
    fs.readRecord path = .ok record := by
  rw [readRecord, readValue, read?, hlocate]
  simp only [hread]

theorem readRecord_of_fault {path text : String} {names : List String} {fault : Yaml.Fault}
    (hlocate : fs.locate path = .present names (.file (some text)))
    (hread : Yaml.read text = .error fault) :
    fs.readRecord path = .error (.noDocument path fault) := by
  rw [readRecord, readValue, read?, hlocate]
  simp only [hread]

section Directory

variable (hlocate : fs.locate dir = .present [dir] .directory)
  (hfiles : ∀ name ∈ fs.namesIn [dir], isHidden name = false ∧
    ∃ names text, fs.locate (Path.join dir name) = .present names (.file text))

include hlocate hfiles

/-- A directory that holds nothing but files gives their paths. -/
theorem value_files_directory (endings : List String) :
    (fs.files endings dir).value =
      ((fs.namesIn [dir]).map (Path.join dir)).filter (Path.hasExtension endings) := by
  obtain ⟨fuel, hfuel⟩ : ∃ fuel, fs.depthBound = fuel + 2 := by
    have hbound : 2 * 2 ≤ fs.depthBound := Nat.mul_le_mul (by omega) (by omega)
    exact ⟨fs.depthBound - 2, by omega⟩
  have hfile : ∀ name ∈ fs.namesIn [dir], (fs.filesBelow (fuel + 1) [[dir]] (fs.isLink [dir] name)
      (isHidden name) (Path.join dir name)).value = [Path.join dir name] := by
    intro name hname
    obtain ⟨hshown, names, text, hpath⟩ := hfiles name hname
    rw [hshown, value_filesBelow_file hpath]
  have hbelow : (fs.filesBelow (fuel + 2) [] false false dir).value =
      (fs.namesIn [dir]).map (Path.join dir) := by
    rw [filesBelow, hlocate]
    show ((Logged.mapList _ (fs.namesIn [dir])).value).flatten = _
    rw [Logged.value_mapList, List.map_congr_left hfile, ← List.flatMap_def, ← List.map_eq_flatMap]
  rw [files, hfuel, Logged.value_map, hbelow]

/-- The tree of a directory that holds nothing but files is made of their records. -/
theorem value_buildTree_directory :
    (fs.buildTree dir .records).value = (Tree.ofRecordFiles fs dir
      (((fs.namesIn [dir]).map (Path.join dir)).filter
        (Path.hasExtension Path.recordExtensions))).value := by
  have hdir : fs.isDirectory dir = true := by
    rw [isDirectory, hlocate]
  rw [buildTree, if_pos hdir, Logged.value_bind, LoadMode.extensions,
    value_files_directory hlocate hfiles]

end Directory

/-! ### A single record -/

/-- A data root with one record file. -/
def ofRecordText (text : String) : FileSystem :=
  ({} : FileSystem).put ["data", "ops.txt"] (.file (some text))

/-- The tree of that data root is made of the record. -/
theorem buildTree_ofRecordText {text : String} {record : Entries}
    (hread : Yaml.read text = .ok (.map record)) :
    ((ofRecordText text).buildTree "data" .records).value =
      ((∅ : Tree).addRecord record "data/ops.txt" "data").value := by
  have hdata : (ofRecordText text).locate "data" = .present ["data"] .directory :=
    locate_directory (by decide) (by decide +kernel) (by rfl) (by rfl)
  have hfile : (ofRecordText text).locate "data/ops.txt" =
      .present ["data", "ops.txt"] (.file (some text)) :=
    locate_file (by decide) (by decide) (by decide) (by decide +kernel) (by rfl) (by rfl) (by rfl)
  have hnames : (ofRecordText text).namesIn ["data"] = ["ops.txt"] := by rfl
  have hpath : Path.join "data" "ops.txt" = "data/ops.txt" := by decide +kernel
  have hflat : ∀ name ∈ (ofRecordText text).namesIn ["data"], isHidden name = false ∧
      ∃ names text',
      (ofRecordText text).locate (Path.join "data" name) = .present names (.file text') := by
    rw [hnames]
    intro name hname
    rw [List.mem_singleton.mp hname, hpath]
    exact ⟨by decide +kernel, _, _, hfile⟩
  have hfiles : (["data/ops.txt"].filter (Path.hasExtension Path.recordExtensions)) =
      ["data/ops.txt"] := by
    decide +kernel
  rw [value_buildTree_directory hdata hflat, hnames, List.map_singleton, hpath, hfiles]
  show (Tree.addRecordFile (ofRecordText text) "data" ∅ "data/ops.txt").value = _
  rw [Tree.addRecordFile, readRecord_of_read hfile hread]

end FileSystem

/-! ### A shelf of records -/

/-- The lines of a record that names its family and sets most fields. -/
def northLines : List Yaml.FlatEntry :=
  [⟨"family", "Ops", .plain, .text "Ops"⟩, ⟨"name", "north.png", .plain, .text "north.png"⟩,
   ⟨"file", "../raw.csv", .plain, .text "../raw.csv"⟩, ⟨"export", "", .singleQuoted, .text ""⟩,
   ⟨"index", "Cash Flow", .plain, .text "Cash Flow"⟩, ⟨"labels", "new", .plain, .text "new"⟩,
   ⟨"rank", "2", .plain, .int 2⟩, ⟨"showtitle", "true", .plain, .bool true⟩,
   ⟨"other", "by hand", .plain, .text "by hand"⟩]

/-- The lines of a record without family. -/
def southLines : List Yaml.FlatEntry :=
  [⟨"name", "sub/south.png", .plain, .text "sub/south.png"⟩,
    ⟨"showtitle", "false", .plain, .bool false⟩]

/-- A record that names its family and sets most fields. -/
def northRecord : Entries := northLines.map Yaml.FlatEntry.entry

/-- A record without family. -/
def southRecord : Entries := southLines.map Yaml.FlatEntry.entry

def northText : String :=
  "family: Ops\nname: north.png\nfile: ../raw.csv\nexport: \x27\x27\nindex: Cash Flow\n" ++
    "labels: new\nrank: 2\nshowtitle: true\nother: by hand\n"

def southText : String := "name: sub/south.png\nshowtitle: false\n"

theorem read_northText : Yaml.read northText = .ok (.map northRecord) := by
  have hread : ∀ e ∈ northLines, e.IsRead := by
    simp only [northLines, List.forall_mem_cons]
    exact ⟨⟨rfl, rfl⟩, ⟨rfl, rfl⟩, ⟨rfl, rfl⟩, ⟨rfl, rfl⟩, ⟨rfl, rfl⟩, ⟨rfl, rfl⟩,
      ⟨rfl, rfl⟩, ⟨rfl, rfl⟩, ⟨rfl, rfl⟩, List.forall_mem_nil _⟩
  exact Yaml.read_flat (ok_of_toOption (by decide +kernel)) hread (by decide +kernel)

theorem read_southText : Yaml.read southText = .ok (.map southRecord) := by
  have hread : ∀ e ∈ southLines, e.IsRead := by
    simp only [southLines, List.forall_mem_cons]
    exact ⟨⟨rfl, rfl⟩, ⟨rfl, rfl⟩, List.forall_mem_nil _⟩
  exact Yaml.read_flat (ok_of_toOption (by decide +kernel)) hread (by decide +kernel)

/-- A quote that nothing closes is no document. -/
theorem exists_read_openQuote : ∃ fault, Yaml.read "\x22" = .error fault := by
  have htokens : (Yaml.tokens "\x22").toOption = none := by decide +kernel
  cases h : Yaml.tokens "\x22" with
  | error fault =>
    refine ⟨fault, ?_⟩
    rw [Yaml.read, h]
    rfl
  | ok tokens =>
    rw [h] at htokens
    cases htokens

/-- The files of a data root with two records and a file that holds none. -/
def shelfTexts : List (String × String) :=
  [("a.txt", northText), ("b.txt", southText), ("c.txt", "\x22")]

/-- A data root with two records and a file that holds none. -/
def shelfFiles : FileSystem :=
  shelfTexts.foldl (fun fs file => fs.put ["data", file.1] (.file (some file.2))) {}

theorem locate_shelf : shelfFiles.locate "data" = .present ["data"] .directory :=
  FileSystem.locate_directory (by decide) (by decide +kernel) (by decide +kernel)
    (by decide +kernel)

theorem locate_shelfText : ∀ file ∈ shelfTexts, FileSystem.isHidden file.1 = false ∧
    shelfFiles.locate (Path.join "data" file.1) =
      .present ["data", file.1] (.file (some file.2)) := by
  have hnames : ∀ file ∈ shelfTexts,
      FileSystem.isHidden file.1 = false ∧ Path.join "data" file.1 ≠ "" ∧
      (file.1 ≠ "." ∧ file.1 ≠ "..") ∧
      FileSystem.stepsOf (Path.join "data" file.1) = ["data", file.1] ∧
      FileSystem.startOf shelfFiles.here (Path.join "data" file.1) = [] ∧
      shelfFiles.entryAt? ["data", file.1] = some (.file (some file.2)) := by decide +kernel
  have hdata : shelfFiles.entryAt? ["data"] = some .directory := by decide +kernel
  intro file hmem
  obtain ⟨hshown, hpath, hname, hsteps, hstart, hfile⟩ := hnames file hmem
  exact ⟨hshown, FileSystem.locate_file hpath (by decide) hname hsteps hstart hdata hfile⟩

theorem join_shelf : ["a.txt", "b.txt", "c.txt"].map (Path.join "data") =
    ["data/a.txt", "data/b.txt", "data/c.txt"] := by decide +kernel

theorem readRecord_shelf : shelfFiles.readRecord "data/a.txt" = .ok northRecord ∧
    shelfFiles.readRecord "data/b.txt" = .ok southRecord ∧
    ∃ failure, shelfFiles.readRecord "data/c.txt" = .error failure := by
  have hjoin := join_shelf
  simp only [List.map_cons, List.map_nil, List.cons.injEq, and_true] at hjoin
  obtain ⟨hfirst, hsecond, hthird⟩ := hjoin
  have hlocate := locate_shelfText
  simp only [shelfTexts, List.forall_mem_cons, hfirst, hsecond, hthird] at hlocate
  obtain ⟨⟨_, hnorth⟩, ⟨_, hsouth⟩, ⟨_, hquote⟩, _⟩ := hlocate
  obtain ⟨fault, hfault⟩ := exists_read_openQuote
  exact ⟨FileSystem.readRecord_of_read hnorth read_northText,
    FileSystem.readRecord_of_read hsouth read_southText, _,
    FileSystem.readRecord_of_fault hquote hfault⟩

/-- All three files are found. -/
theorem files_shelf : (shelfFiles.files Path.recordExtensions "data").value =
    ["data/a.txt", "data/b.txt", "data/c.txt"] := by
  have hnames : shelfFiles.namesIn ["data"] = shelfTexts.map Prod.fst := by decide +kernel
  have hfiles : ∀ name ∈ shelfFiles.namesIn ["data"], FileSystem.isHidden name = false ∧
      ∃ names text, shelfFiles.locate (Path.join "data" name) = .present names (.file text) := by
    rw [hnames]
    intro name hname
    obtain ⟨file, hmem, rfl⟩ := List.mem_map.mp hname
    obtain ⟨hshown, hfile⟩ := locate_shelfText file hmem
    exact ⟨hshown, _, _, hfile⟩
  have hendings : ["data/a.txt", "data/b.txt", "data/c.txt"].filter
      (Path.hasExtension Path.recordExtensions) =
      ["data/a.txt", "data/b.txt", "data/c.txt"] := by decide +kernel
  rw [FileSystem.value_files_directory locate_shelf hfiles, hnames]
  show (["a.txt", "b.txt", "c.txt"].map (Path.join "data")).filter _ = _
  rw [join_shelf, hendings]

end Catalog
