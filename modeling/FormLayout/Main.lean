import FormLayout.Command.Run
/-!
The command line. What the program may need of the file system is read into a directory first: the
documents below the current folder and in the folders above it, and what the arguments name.
-/

namespace FormLayout

/-- Files by path; no content stands for a folder. -/
abbrev Snapshot := List (String × Option String)

def isReadable (name : String) : Bool :=
  Documents.isDocument name || Documents.extensionOf name = some "toml"

/-- A file with its content, or nothing if it is no text. -/
def snapshotFile (path : String) : IO Snapshot := do
  try return [(path, some (← IO.FS.readFile path))] catch _ => return []

/-- The folders among some directory entries and below them, and the files there that may be read. Links
are not followed, except to settings files, which are no inputs. -/
def snapshotEntries (entries : Array IO.FS.DirEntry) : IO Snapshot := do
  let mut found : Array (String × Option String) := #[]
  let mut left := entries
  repeat
    let some e := left.back? | break
    left := left.pop
    let path := e.path.toString
    match (← e.path.symlinkMetadata).type with
    | .dir =>
      found := found.push (path, none)
      left := left ++ (← e.path.readDir <|> pure #[])
    | .file => if isReadable e.fileName then found := found ++ (← snapshotFile path)
    | _ => if Settings.fileNames.contains e.fileName then found := found ++ (← snapshotFile path)
  return found.toList

/-- What a path names, also by a link. -/
def snapshotArgument (arg : String) : IO Snapshot := do
  let parent := Path.parent arg
  let place : IO.FS.DirEntry ←
    match Path.fileName? arg with
    | some name => pure ⟨← IO.FS.realPath (if parent = "" then "." else parent), name⟩
    | none => pure ⟨← IO.FS.realPath arg, "."⟩
  if ← place.path.isDir then
    return (place.path.toString, none) :: (← snapshotEntries (← place.path.readDir))
  else snapshotFile place.path.toString

/-- What is below the current folder, and the files in the folders above it. -/
def currentSnapshot (here : List String) : IO Snapshot := do
  let place ← IO.currentDir
  let below ← snapshotEntries (← place.readDir)
  let above ← (List.range here.length).mapM fun n => do
    let place ← IO.FS.realPath ("/" ++ Text.join '/' (here.take n))
    let entries ← place.readDir <|> pure #[]
    snapshotEntries (← entries.filterM fun e => return !(← e.path.isDir))
  return above.flatten ++ (place.toString, none) :: below

end FormLayout

open FormLayout in
def main (args : List String) : IO UInt32 := do
  let here := Path.parts (← IO.currentDir).toString
  let named ← args.mapM fun arg => snapshotArgument arg <|> pure []
  let files := (← currentSnapshot here) ++ named.flatten
  let d := Directory.ofFiles (← IO.currentDir).toString here files
  let out := d.run args
  IO.print out.effect.printed
  match out.effect.written with
  | some (path, content) => IO.FS.writeFile path content
  | none => pure ()
  match out.failure with
  | some e => IO.eprintln ("tcaform failed: " ++ e.report)
  | none => pure ()
  return out.code.toUInt32
