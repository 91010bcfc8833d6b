import Catalog.Text.LowerCase
import Catalog.Text.Pieces

/-!
# Paths and places

A path is a text of names with `/` between them. It is absolute if it starts with `/`. Empty names
and the name `.` stand for nothing, except that a relative path may start with `.`. A place is a
path without detours: `..` has taken away the name before it. Places are found by looking at the
paths alone, never at the disk.

* `Path.steps` are the names of a path that stand for something;
* `Path.join` appends a path to another;
* `Path.parent?` drops the last step and `Path.fileName?` gives it;
* `Path.hasExtension` looks at the end of the last name;
* `Place.ofPath` is the place of a path and `Place.path` the path of a place;
* `Place.seenFrom` is the shortest way from one place to another;
* `Path.relativeTo` and `Path.rebase` are the same on paths.
-/

namespace Catalog

/-! ### Paths -/

namespace Path

/-- Whether a path starts at the root of the file system. -/
def isAbsolute (path : String) : Bool := Text.startsWith '/' path

/-- Whether a name stands for nothing. -/
def isIdle (name : String) : Bool := name == "" || name == "."

/-- The names of a path that stand for something, `..` among them. -/
def steps (path : String) : List String := (Text.splitAt '/' path).filter fun name => !isIdle name

theorem not_idle_of_mem_steps {path name : String} (h : name ∈ steps path) :
    isIdle name = false := by
  simpa using (List.mem_filter.mp h).2

/-- A path seen from another one; an absolute path is seen as itself. -/
def join (base path : String) : String :=
  if isAbsolute path || base == "" then path
  else if base.toList.getLast? == some '/' then base ++ path
  else base ++ "/" ++ path

/-- Pieces of a path without those at the end that stand for nothing. The first piece is kept,
because it tells where the path starts. -/
def dropIdle : List String → List String
  | [] => []
  | first :: rest => first :: (rest.reverse.dropWhile isIdle).reverse

/-- The pieces of a path up to its last step. -/
def pieces (path : String) : List String := dropIdle (Text.splitAt '/' path)

/-- The path of pieces, of which an absolute path has an empty first one. -/
def ofPieces : List String → String
  | [""] => "/"
  | names => Text.joinWith "/" names

/-- The path without its last step. The empty path and the root of the file system have none. -/
def parent? (path : String) : Option String :=
  match pieces path with
  | [] => none
  | [""] => none
  | names => some (ofPieces (dropIdle names.dropLast))

/-- The last step of a path, if it is the name of a file or directory. -/
def fileName? (path : String) : Option String :=
  match (pieces path).getLast? with
  | some name => if isIdle name || name == ".." then none else some name
  | none => none

/-- Whether a name ends with one of the given endings, whatever the case of its letters. -/
def endsWithAny (endings : List String) (name : String) : Bool :=
  endings.any fun ending => ending.toList.isSuffixOf (Text.lower name).toList

/-- Whether the last name of a path has one of the given endings. -/
def hasExtension (endings : List String) (path : String) : Bool :=
  endsWithAny endings ((fileName? path).getD "")

/-- The endings of the images that are entries of their own. -/
def imageExtensions : List String :=
  [".png", ".jpg", ".jpeg", ".bmp", ".eps", ".ps", ".svg", ".gif"]

/-- The endings of record files. -/
def recordExtensions : List String := [".txt", ".yaml", ".yml"]

end Path

/-! ### Places -/

/-- Where a path leads: from the root of the file system or from somewhere, along names. -/
structure Place where
  isAbsolute : Bool
  names : List String
  deriving DecidableEq, Repr

namespace Place

/-- Goes one step on. The step `..` takes the last name away, whatever it is, and is kept where
there is no name to take. -/
def walk (names : List String) (step : String) : List String :=
  if step == ".." && !names.isEmpty then names.dropLast else names ++ [step]

/-- Goes along a path. -/
def follow (place : Place) (path : String) : Place :=
  if Path.isAbsolute path then ⟨true, (Path.steps path).foldl walk []⟩
  else ⟨place.isAbsolute, (Path.steps path).foldl walk place.names⟩

/-- The place where one starts. -/
def here : Place := ⟨false, []⟩

/-- The place of a path. -/
def ofPath (path : String) : Place := here.follow path

/-- The shortest path to a place; `.` is where one starts. -/
def path (place : Place) : String :=
  if place.isAbsolute then "/" ++ Text.joinWith "/" place.names
  else if place.names.isEmpty then "."
  else Text.joinWith "/" place.names

/-- The stretch that two lists have in common at their start, taken away from both. -/
def dropCommon : List String → List String → List String × List String
  | a :: as, b :: bs => if a == b then dropCommon as bs else (a :: as, b :: bs)
  | as, bs => (as, bs)

/-- A place seen from another one: up from there as far as needed, then down. An absolute place is
seen from a relative one as itself, and the way from an absolute place to a relative one leads over
the root. -/
def seenFrom (target base : Place) : Place :=
  match target.isAbsolute, base.isAbsolute with
  | true, false => target
  | false, true => ⟨false, List.replicate (base.names.length + 1) ".." ++ target.names⟩
  | _, _ =>
    let rest := dropCommon target.names base.names
    ⟨false, List.replicate rest.2.length ".." ++ rest.1⟩

theorem dropCommon_append (common xs ys : List String) :
    dropCommon (common ++ xs) (common ++ ys) = dropCommon xs ys := by
  induction common with
  | nil => rfl
  | cons a rest ih => simpa [dropCommon] using ih

/-- A place under a base is seen from it by the names below the base. -/
theorem seenFrom_below (isAbsolute : Bool) (base below : List String) :
    seenFrom ⟨isAbsolute, base ++ below⟩ ⟨isAbsolute, base⟩ = ⟨false, below⟩ := by
  have h : dropCommon (base ++ below) base = (below, []) := by
    have h' := dropCommon_append base below []
    rw [List.append_nil] at h'
    rw [h']
    cases below <;> rfl
  cases isAbsolute <;> simp [seenFrom, h]

end Place

namespace Path

/-- A path as seen from another one, without a look at the disk. -/
def relativeTo (target base : String) : String :=
  ((Place.ofPath target).seenFrom (Place.ofPath base)).path

/-- A locator found in a record file as seen from the data root. -/
def rebase (locator recordFile root : String) : String :=
  (((Place.ofPath ((parent? recordFile).getD root)).follow locator).seenFrom
    (Place.ofPath root)).path

end Path

end Catalog
