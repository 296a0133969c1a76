import ReadOnlyViews.Digest
import ReadOnlyViews.Disk.Resolve

/-!
The files of a project below its root.  A dry project keeps its writes and deletes in memory, where
later reads see them; the disk stays as it is.
-/

namespace ReadOnlyViews

/-- A project: its root, the disk, what was written and deleted, and what a dry project holds back. -/
structure Project where
  root : Path
  dryRun : Bool := false
  disk : Disk
  /-- The digests of written texts by path, as the callers wrote the path. -/
  written : List (Text × Text) := []
  deleted : List Text := []
  pending : List (Text × Text) := []
  deriving Repr

/-- The pairs with another value under one key; a key that is already there keeps its place. -/
def putPair (key value : Text) : List (Text × Text) → List (Text × Text)
  | [] => [(key, value)]
  | (k, v) :: others => if k = key then (k, value) :: others else (k, v) :: putPair key value others

/-- A disk fault at a path as a failure. -/
def onDisk {α : Type} (path : Path) : Except DiskFault α → Except Failure α
  | .ok value => .ok value
  | .error fault => .error (.disk fault path none)

namespace Disk

/-- Makes a folder and the missing ones above it, given by its names from the last one up.  What was
made before a failure stays. -/
def makeFolders : (reversed : List Name) → Disk → Except Failure Unit × Disk
  | reversed, disk =>
    let path := reversed.reverse
    let settle (disk : Disk) (fault : DiskFault) : Except Failure Unit × Disk :=
      match disk.isFolder path with
      | .ok true => (.ok (), disk)
      | .ok false => (.error (.disk fault path none), disk)
      | .error other => (.error (.disk other path none), disk)
    match disk.makeFolder path with
    | .ok disk => (.ok (), disk)
    | .error .noSuchEntry =>
      match reversed with
      | [] => (.error (.disk .noSuchEntry path none), disk)
      | _ :: above =>
        match makeFolders above disk with
        | (.error failure, disk) => (.error failure, disk)
        | (.ok (), disk) =>
          match disk.makeFolder path with
          | .ok disk => (.ok (), disk)
          | .error .noSuchEntry => (.error (.disk .noSuchEntry path none), disk)
          | .error fault => settle disk fault
    | .error fault => settle disk fault

/-- The path beside a file under which its new content is written first. -/
def temporary (target : Path) : Path :=
  target.dropLast ++ [target.getLast?.getD [] ++ ".viewbot-tmp"]

/-- Replaces a file: the content is written beside it and then takes its place.  Whatever happens,
a temporary file that is left is removed. -/
def replaceFile (disk : Disk) (target : Path) (content : Bytes) : Except Failure Unit × Disk :=
  let temp := temporary target
  let (result, disk) : Except Failure Unit × Disk :=
    match disk.writeFile temp content with
    | .error fault => (.error (.disk fault temp none), disk)
    | .ok disk =>
      match disk.rename temp target with
      | .error fault => (.error (.disk fault temp (some target)), disk)
      | .ok disk => (.ok (), disk)
  match disk.isPresent temp with
  | .error fault => (.error (.disk fault temp none), disk)
  | .ok false => (result, disk)
  | .ok true =>
    match disk.remove temp with
    | .error fault => (.error (.disk fault temp none), disk)
    | .ok disk => (result, disk)

end Disk

namespace Project

/-- The location of a path of the project. -/
def locate (project : Project) (file : Text) : Except Failure Path :=
  project.disk.resolveWithin project.root file

/-- Whether the project has a file. -/
def has (project : Project) (file : Text) : Except Failure Bool :=
  if project.deleted.contains file then .ok false
  else if (project.pending.lookup file).isSome then .ok true
  else do
    let path ← project.locate file
    onDisk path (project.disk.isFile path)

/-- The text of a file. -/
def read (project : Project) (file : Text) : Except Failure Text :=
  if project.deleted.contains file then .error (.noFile file)
  else match project.pending.lookup file with
    | some text => .ok text
    | none => do
      let path ← project.locate file
      let content ← onDisk path (project.disk.readFile path)
      match Utf8.decode content with
      | .ok text => .ok text
      | .error fault => .error (.notUtf8 file fault.offset)

/-- Writes a file.  The project counts it as written, and no longer as deleted, even if the disk
then refuses. -/
def write (project : Project) (file text : Text) : Except Failure Unit × Project :=
  let project := { project with
    deleted := project.deleted.filter (· != file)
    written := putPair file (Digest.ofText text) project.written }
  if project.dryRun then (.ok (), { project with pending := putPair file text project.pending })
  else match project.locate file with
    | .error failure => (.error failure, project)
    | .ok target =>
      match project.disk.makeFolders target.dropLast.reverse with
      | (.error failure, disk) => (.error failure, { project with disk })
      | (.ok (), disk) =>
        let (result, disk) := disk.replaceFile target (Utf8.encode text)
        (result, { project with disk })

/-- Deletes a file that the project has. -/
def delete (project : Project) (file : Text) : Except Failure Unit × Project :=
  match project.has file with
  | .error failure => (.error failure, project)
  | .ok false => (.error (.noFile file), project)
  | .ok true =>
    let project := { project with
      pending := project.pending.filter (·.1 != file)
      deleted := if project.deleted.contains file then project.deleted
        else project.deleted ++ [file] }
    if project.dryRun then (.ok (), project)
    else match project.locate file with
      | .error failure => (.error failure, project)
      | .ok path =>
        match onDisk path (project.disk.remove path) with
        | .error failure => (.error failure, project)
        | .ok disk => (.ok (), { project with disk })

/-- The names among `files` that lie directly in a folder; `front` is the folder with a slash. -/
def directNames (front : Text) (files : List Text) : List Name :=
  files.filterMap fun file =>
    (Text.after? front file).filter fun name => !name.contains '/'

/-- The names of the files in a folder, in order. -/
def list (project : Project) (folder : Text) : Except Failure (List Name) := do
  let path ← project.locate folder
  let onDiskNames ←
    if ← onDisk path (project.disk.isFolder path) then
      (project.disk.names path).filterM fun name =>
        onDisk (path ++ [name]) (project.disk.isFile (path ++ [name]))
    else .ok []
  let front := (folder.reverse.dropWhile (· == '/')).reverse ++ ['/']
  let gone := project.deleted.filterMap (Text.after? front)
  let names := onDiskNames ++ directNames front (project.pending.map (·.1))
  return Text.sorted (names.eraseDups.filter fun name => !gone.contains name)

end Project

end ReadOnlyViews
