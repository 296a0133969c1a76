import ReadOnlyViews.Disk.Basic
import ReadOnlyViews.Failure

/-!
Finding and changing entries by path, as the system does it: every name on the way must be there,
links are followed, and too many of them are refused.
-/

namespace ReadOnlyViews.Disk

/-- The most links that one walk follows. -/
def linkLimit : Nat := 40

/-- The most bytes that a name may have. -/
def nameLimit : Nat := 255

/-- What is wanted of the last name of a path. -/
inductive Last where
  /-- It must be there, and a link is followed. -/
  | existing
  /-- It may be missing, and a link is followed. -/
  | creatable
  /-- It may be missing, and a link is taken as it is. -/
  | entry
  deriving DecidableEq, Repr

/-- Where a walk gets to without following a link. -/
inductive Stop where
  | arrived (path : Path)
  | refused (fault : DiskFault)
  /-- A link is met; the walk goes on from here with these names. -/
  | link (here : Path) (names : List Name)
  deriving DecidableEq, Repr

/-- Walks names from a location up to the next link. -/
def stride (disk : Disk) (last : Last) : (here : Path) → List Name → Stop
  | here, [] => .arrived here
  | here, name :: rest =>
    if disk.node? here ≠ some .folder then .refused .notFolder
    else if name = [] ∨ name = "." then stride disk last here rest
    else if name = ".." then stride disk last here.dropLast rest
    else if Utf8.size name > nameLimit then .refused .nameTooLong
    else
      let there := here ++ [name]
      match disk.node? there with
      | none => if rest = [] ∧ last ≠ .existing then .arrived there else .refused .noSuchEntry
      | some (.link target) =>
        if rest = [] ∧ last = .entry then .arrived there
        else .link (if Path.isAbsolute target then [] else here) (Path.segments target ++ rest)
      | some _ => stride disk last there rest

/-- Walks names from a location, following a bounded number of links. -/
def walkFrom (disk : Disk) (last : Last) :
    (links : Nat) → (here : Path) → List Name → Except DiskFault Path
  | links, here, names =>
    match stride disk last here names with
    | .arrived path => .ok path
    | .refused fault => .error fault
    | .link here names =>
      match links with
      | 0 => .error .tooManyLinks
      | links + 1 => walkFrom disk last links here names

/-- The location that a path leads to. -/
def walk (disk : Disk) (last : Last) (path : Path) : Except DiskFault Path :=
  walkFrom disk last linkLimit [] path

/-- What a path leads to. -/
def status (disk : Disk) (path : Path) : Except DiskFault Node := do
  let location ← disk.walk .existing path
  match disk.node? location with
  | some node => .ok node
  | none => .error .noSuchEntry

/-- Whether what a path leads to passes a test; a path that leads nowhere does not. -/
def leadsTo (disk : Disk) (test : Node → Bool) (path : Path) : Except DiskFault Bool :=
  match disk.status path with
  | .ok node => .ok (test node)
  | .error fault => if fault.meansAbsent then .ok false else .error fault

/-- Whether a path leads to a file. -/
def isFile (disk : Disk) (path : Path) : Except DiskFault Bool :=
  disk.leadsTo (fun | .file _ => true | _ => false) path

/-- Whether a path leads to a folder. -/
def isFolder (disk : Disk) (path : Path) : Except DiskFault Bool :=
  disk.leadsTo (· == .folder) path

/-- Whether a path leads to anything. -/
def isPresent (disk : Disk) (path : Path) : Except DiskFault Bool :=
  disk.leadsTo (fun _ => true) path

/-- The content of the file that a path leads to. -/
def readFile (disk : Disk) (path : Path) : Except DiskFault Bytes := do
  match ← disk.status path with
  | .file content => .ok content
  | _ => .error .isFolder

/-- Writes the file that a path leads to, which is created if it is missing. -/
def writeFile (disk : Disk) (path : Path) (content : Bytes) : Except DiskFault Disk := do
  let location ← disk.walk .creatable path
  if disk.node? location = some .folder then .error .isFolder
  else .ok (disk.put location (.file content))

/-- Makes a folder. -/
def makeFolder (disk : Disk) (path : Path) : Except DiskFault Disk := do
  let location ← disk.walk .entry path
  if (disk.node? location).isSome then .error .entryExists
  else .ok (disk.put location .folder)

/-- Removes a file or a link. -/
def remove (disk : Disk) (path : Path) : Except DiskFault Disk := do
  let location ← disk.walk .entry path
  match disk.node? location with
  | none => .error .noSuchEntry
  | some .folder => .error .isFolder
  | some _ => .ok (disk.erase location)

/-- Gives a file or a link another path, in place of a file or a link that stands there. -/
def rename (disk : Disk) (source destination : Path) : Except DiskFault Disk := do
  let old ← disk.walk .entry source
  let new ← disk.walk .entry destination
  match disk.node? old with
  | none => .error .noSuchEntry
  | some node =>
    if disk.node? new = some .folder then .error .isFolder
    else if old = new then .ok disk
    else .ok ((disk.erase old).put new node)

end ReadOnlyViews.Disk
