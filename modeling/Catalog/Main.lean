import Catalog.Command.Run

/-!
# The program

The program copies what its command reads from the disk, runs the command on the copy, and then
writes the files that the command has written and prints its output. All decisions are made by the
command.
-/

namespace Catalog

/-- The path that names lead along from the root of the disk. -/
def absolutePath (names : List String) : String := "/" ++ Text.joinWith "/" names

/-- A part of the disk that has been copied. -/
structure DiskCopy where
  files : FileSystem
  /-- The directories whose entries have been copied. -/
  listed : List (List String) := []

/-- Copies an entry, but nothing below it. -/
def DiskCopy.put (c : DiskCopy) (names : List String) (entry : FileEntry) : DiskCopy :=
  { c with files := if names.isEmpty then c.files else c.files.put names entry }

/-- The names that a link leads to in the end. A link that leads nowhere counts as one to itself. -/
def linkTarget (names : List String) : IO (List String) := do
  let path := (← IO.currentDir) / absolutePath names
  try return Path.steps (← IO.FS.realPath path).toString
  catch _ => return names

/-- The kind of the entry that names lead to, and for a link the names that it leads to. -/
def lookAt (names : List String) : IO (Option (IO.FS.FileType × List String)) := do
  let path := (← IO.currentDir) / absolutePath names
  let kind? ←
    try some <$> IO.FS.Metadata.type <$> path.symlinkMetadata
    catch _ => pure none
  match kind? with
  | some .symlink => return some (.symlink, ← linkTarget names)
  | some kind => return some (kind, names)
  | none => return none

/-- The text of a file, if it has one. -/
def readText? (names : List String) : IO (Option String) :=
  try some <$> IO.FS.readFile (absolutePath names)
  catch _ => return none

/-- The names of the entries of a directory. -/
def listNames (names : List String) : IO (List String) := do
  try
    let path := (← IO.currentDir) / absolutePath names
    return (← path.readDir).toList.map IO.FS.DirEntry.fileName
  catch _ => return []

/-- Copies what names lead to, and all that is below it. Hidden names below are passed over, save
those of families files, and the text of a file is left out unless it may matter. -/
partial def copyBelow (c : DiskCopy) (names : List String) (withText : Bool) : IO DiskCopy := do
  match ← lookAt names with
  | some (.file, _) =>
    if withText then return c.put names (.file (← readText? names))
    else if (c.files.entryAt? names).isSome then return c
    else return c.put names (.file none)
  | some (.symlink, target) =>
    if (c.files.entryAt? names).isSome then return c
    else copyBelow (c.put names (.link (absolutePath target))) target withText
  | some (.dir, _) =>
    if c.listed.contains names then return c
    else
      let copied := { c.put names .directory with listed := names :: c.listed }
      let below := (← listNames names).filter fun name =>
        !FileSystem.isHidden name || FileSystem.isFamiliesName name
      below.foldlM (fun copied name => copyBelow copied (names ++ [name]) (isReadable name)) copied
  | _ => return c

/-- Copies the directories and links that names lead through, and what they lead to. -/
partial def copyAlong (c : DiskCopy) (done : List String) : List String → IO DiskCopy
  | [] => copyBelow c done true
  | ".." :: rest => copyAlong c done.dropLast rest
  | name :: rest => do
    let names := done ++ [name]
    match rest, ← lookAt names with
    | [], _ => copyBelow c names true
    | _, some (.symlink, target) =>
      copyAlong (c.put names (.link (absolutePath target))) target rest
    | _, some (.dir, _) => copyAlong (c.put names .directory) names rest
    | _, _ => return c

/-- Copies what a path leads to. -/
def copyPath (c : DiskCopy) (path : String) : IO DiskCopy :=
  copyAlong c (FileSystem.startOf c.files.here path) (Path.steps path)

/-- Copies what a command reads. The configuration file is copied before the files that it names. -/
def copyNeeds (args : List String) (files : FileSystem) (environment : Option String) :
    IO FileSystem := do
  match Arguments.read args with
  | .error _ => return files
  | .ok arguments =>
    let early ← ((arguments.options.configuration.or environment).toList).foldlM copyPath
      { files := files }
    return (← (arguments.needs early.files environment).foldlM copyPath early).files

end Catalog

open Catalog

/-- Runs the program with the arguments and the environment of the process. -/
def main (args : List String) : IO UInt32 := do
  let environment ← IO.getEnv "CONF"
  let here := Path.steps (← IO.currentDir).toString
  let start := ({ here := here } : FileSystem).put here .directory
  let before ← copyNeeds args start environment
  let done := runProgram args before environment
  for line in done.complaints do
    IO.eprintln line
  for change in done.files.changes before do
    IO.FS.writeFile (absolutePath change.1) change.2
  let stdout ← IO.getStdout
  stdout.putStr (Span.render (← stdout.isTty) done.output)
  stdout.flush
  return done.exitCode.toUInt32
