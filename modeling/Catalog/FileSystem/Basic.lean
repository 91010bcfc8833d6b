import Catalog.Path.Basic
import Catalog.Sorted.Map

/-!
# File systems

A `FileSystem` is a value: a finite tree of directories, files and symbolic links, and the working
directory. Reading looks things up in it and writing gives a new one.

* `FileSystem.locate` finds where a path leads, following links;
* `FileSystem.read?` reads a file and `FileSystem.write?` writes one;
* `FileSystem.put` adds an entry together with the directories above it.
-/

namespace Catalog

/-- One entry of a file system. -/
inductive FileEntry where
  /-- A file; its text is absent when its bytes are no text. -/
  | file (text : Option String)
  | directory
  /-- A symbolic link. -/
  | link (target : String)
  deriving DecidableEq, Repr

/-- A tree of files. Each entry stands under the names that lead to it from the root, which is
always there. -/
structure FileSystem where
  entries : SortedMap (List String) FileEntry := ∅
  /-- The names that lead to the working directory. -/
  here : List String := []

/-- Where a path leads. -/
inductive Spot where
  /-- To an entry that is no link, under the given names. -/
  | present (names : List String) (entry : FileEntry)
  /-- To a name that is free, in a directory that is there. -/
  | vacant (names : List String)
  /-- Nowhere. -/
  | nowhere
  deriving DecidableEq, Repr

namespace FileSystem

/-- The entry under the given names. -/
def entryAt? (fs : FileSystem) (names : List String) : Option FileEntry :=
  if names.isEmpty then some .directory else fs.entries.get? names

/-- The steps of a path on the disk. A path that ends with `/` leads to a directory, which its last
step `.` asks for. -/
def stepsOf (path : String) : List String :=
  ((Text.splitAt '/' path).filter fun name => name != "") ++
    if path.toList.getLast? == some '/' then ["."] else []

/-- The directory in which a path starts, seen from another directory. -/
def startOf (dir : List String) (path : String) : List String :=
  if Path.isAbsolute path then [] else dir

/-- Goes along steps from a directory. At most `links` symbolic links are followed. -/
def walk (fs : FileSystem) (links : Nat) (dir : List String) : List String → Spot
  | [] => .present dir .directory
  | name :: rest =>
    if name == "." then walk fs links dir rest
    else if name == ".." then walk fs links dir.dropLast rest
    else
      match fs.entryAt? (dir ++ [name]) with
      | none => if rest.isEmpty then .vacant (dir ++ [name]) else .nowhere
      | some .directory => walk fs links (dir ++ [name]) rest
      | some (.file text) =>
        if rest.isEmpty then .present (dir ++ [name]) (.file text) else .nowhere
      | some (.link target) =>
        match links with
        | 0 => .nowhere
        | links + 1 => walk fs links (startOf dir target) (stepsOf target ++ rest)
termination_by steps => (links, steps.length)

/-- The number of symbolic links that may be followed on one path. -/
def linkLimit : Nat := 40

/-- Where a path leads. The empty path leads nowhere. -/
def locate (fs : FileSystem) (path : String) : Spot :=
  if path == "" then .nowhere else fs.walk linkLimit (startOf fs.here path) (stepsOf path)

/-- Whether a path leads to a file. -/
def isFile (fs : FileSystem) (path : String) : Bool :=
  match fs.locate path with
  | .present _ (.file _) => true
  | _ => false

/-- Whether a path leads to a directory. -/
def isDirectory (fs : FileSystem) (path : String) : Bool :=
  match fs.locate path with
  | .present _ .directory => true
  | _ => false

/-- The text of a file; none if there is no file or its bytes are no text. -/
def read? (fs : FileSystem) (path : String) : Option String :=
  match fs.locate path with
  | .present _ (.file text) => text
  | _ => none

/-- Sets the entry under the given names. -/
def set (fs : FileSystem) (names : List String) (entry : FileEntry) : FileSystem :=
  { fs with entries := fs.entries.insert names entry }

/-- Writes a file where a path leads. None if that is a directory or nowhere. -/
def write? (fs : FileSystem) (path text : String) : Option FileSystem :=
  match fs.locate path with
  | .present names (.file _) => some (fs.set names (.file (some text)))
  | .vacant names => some (fs.set names (.file (some text)))
  | _ => none

/-- The names of the entries of a directory in increasing order. -/
def namesIn (fs : FileSystem) (dir : List String) : List String :=
  fs.entries.keys.filterMap fun names => if names.dropLast = dir then names.getLast? else none

/-- The names in the directory that a path leads to. -/
def list? (fs : FileSystem) (path : String) : Option (List String) :=
  match fs.locate path with
  | .present names .directory => some (fs.namesIn names)
  | _ => none

/-- Adds directories below a directory along names, except where something is already. -/
def putDirectories (fs : FileSystem) (dir : List String) : List String → FileSystem
  | [] => fs
  | name :: rest =>
    let below := dir ++ [name]
    let made := if (fs.entryAt? below).isSome then fs else fs.set below .directory
    made.putDirectories below rest

/-- Adds an entry under names, with the directories above it. -/
def put (fs : FileSystem) (names : List String) (entry : FileEntry) : FileSystem :=
  (fs.putDirectories [] names.dropLast).set names entry

theorem entryAt?_set (fs : FileSystem) {names : List String} (h : names ≠ []) (other : List String)
    (entry : FileEntry) :
    (fs.set names entry).entryAt? other = if other = names then some entry
      else fs.entryAt? other := by
  unfold entryAt? set
  by_cases ho : other = []
  · subst ho
    simp [Ne.symm h]
  · simp only [SortedMap.get?_insert, List.isEmpty_iff, ho, if_false]
    by_cases e : other = names
    · simp [e]
    · simp [e]

end FileSystem

end Catalog
