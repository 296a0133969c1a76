import ReadOnlyViews.CommandLine.Help
import ReadOnlyViews.CommandLine.Session
import Std.Time.Format

/-!
The program: it takes in the project's files, holds one session over them, and carries out on the
real disk what the session changed.
-/

namespace ReadOnlyViews

/-- Folders that hold no sources. -/
def skippedFolders : List String := ["node_modules", "target", "build", ".git", ".gradle"]

/-- A path as the system writes it. -/
def nativePath (path : Path) : String := String.ofList path.text

/-- The names of a path that the system wrote. -/
def ofNativePath (path : String) : Path :=
  (Path.segments path.toList).foldl Path.step []

/-- Takes in what stands at a location and below it.  A link stands for the place that it finally
leads to, and that place is taken in as well; a link that leads nowhere is left out. -/
partial def takeIn (disk : Disk) (path : Path) : IO Disk := do
  if path ≠ [] && (disk.node? path).isSome then return disk
  let place ← IO.FS.realPath (nativePath path)
  let target := ofNativePath place.toString
  if target ≠ path then
    takeIn (disk.plant path (.link (Path.text target))) target
  else if ← place.isDir then
    let mut taken := disk.plant path .folder
    for entry in ← place.readDir do
      unless skippedFolders.contains entry.fileName do
        taken ← tryCatch (takeIn taken (path ++ [entry.fileName.toList])) fun _ => pure taken
    return taken
  else
    return disk.plant path (.file (← IO.FS.readBinFile place).toList)

/-- Carries out the differences between two disks. -/
def carryOut (before after : Disk) : IO Unit := do
  for (path, _) in before.entries do
    if (after.node? path).isNone then IO.FS.removeFile (nativePath path)
  for (path, node) in after.entries do
    if before.node? path ≠ some node then
      match node with
      | .folder => IO.FS.createDirAll (nativePath path)
      | .file content =>
        IO.FS.createDirAll (nativePath path.dropLast)
        IO.FS.writeBinFile (nativePath path) ⟨content.toArray⟩
      | .link _ => pure ()

/-- The present moment. -/
def now : IO Moment := do
  let time ← Std.Time.PlainDateTime.now
  return ⟨time.year.toInt.toNat, time.month.val.toNat, time.day.val.toNat, time.hour.val.toNat,
    time.minute.val.toNat, time.second.val.toNat⟩

/-- The folder that a root argument names, as far as it is there. -/
def rootFolder (folder home : Path) (arguments : CommandLine.Arguments) : Option Path :=
  match CommandLine.expandHome home (CommandLine.stripQuotes arguments.root) with
  | .ok raw =>
    some ((Path.segments raw).foldl Path.step (if Path.isAbsolute raw then [] else folder))
  | .error _ => none

/-- Holds a session and gives its exit code. -/
def serve (texts : List Text) : IO UInt32 := do
  match CommandLine.parse texts with
  | .error refusal =>
    let out ← if refusal.exitCode = 0 then IO.getStdout else IO.getStderr
    out.putStr (String.ofList refusal.notice)
    return refusal.exitCode.toUInt32
  | .ok arguments =>
    let folder := ofNativePath (← IO.currentDir).toString
    let home := ofNativePath ((← IO.getEnv "HOME").getD "/")
    let disk ← match rootFolder folder home arguments with
      | some root => tryCatch (takeIn {} root) fun _ => pure {}
      | none => pure {}
    let session := CommandLine.session
      { folder, home, clock := .fixed (← now), disk } texts
    for line in session.console do
      IO.println (String.ofList line)
    carryOut disk session.disk
    match session.ending with
    | .exit code => return code.toUInt32
    | .failure failure =>
      IO.eprintln (String.ofList (failure.label ++ ": " ++ failure.message))
      return 1

end ReadOnlyViews

/-- The command line. -/
def main (arguments : List String) : IO UInt32 :=
  ReadOnlyViews.serve (arguments.map String.toList)
