import ReadOnlyViews.Disk.Walk

/-!
The location that a written path names, whether or not anything is there: links are followed as far
as they exist, dots are taken as they are read, and what is missing stays as it is written.
-/

namespace ReadOnlyViews.Disk

/-- What is still to be done while a path is resolved. -/
inductive Todo where
  /-- A name to go on with. -/
  | name (name : Name)
  /-- The end of a link's target: the link is known to lead to the present location. -/
  | settled (link : Path)
  deriving DecidableEq, Repr

/-- The links met so far, and where they lead once that is known. -/
abbrev MetLinks := List (Path × Option Path)

/-- Where a resolution gets to without following a new link. -/
inductive Resolved where
  | at (path : Path)
  | nul
  /-- A new link is met, with its target and what is still to be done behind it. -/
  | link (here link : Path) (target : Text) (met : MetLinks) (rest : List Todo)

/-- The names among what is still to be done. -/
def namesOf : List Todo → List Name
  | [] => []
  | .name name :: rest => name :: namesOf rest
  | .settled _ :: rest => namesOf rest

/-- Resolves up to the next new link.  A link that leads back to itself ends the resolution: the
rest is then taken as it is written. -/
def resolveStride (disk : Disk) : MetLinks → (here : Path) → List Todo → Resolved
  | _, here, [] => .at here
  | met, here, .settled link :: rest => resolveStride disk ((link, some here) :: met) here rest
  | met, here, .name name :: rest =>
    if name = [] ∨ name = "." then resolveStride disk met here rest
    else if name = ".." then resolveStride disk met here.dropLast rest
    else if name.contains '\x00' then .nul
    else
      let there := here ++ [name]
      match disk.node? there with
      | some (.link target) =>
        match met.lookup there with
        | some (some known) => resolveStride disk met known rest
        | some none => .at ((namesOf rest).foldl Path.step there)
        | none => .link here there target met rest
      | _ => resolveStride disk met there rest

/-- Resolves while new links are met; there are no more of those than entries. -/
def resolveFrom (disk : Disk) :
    (links : Nat) → MetLinks → (here : Path) → List Todo → Except Failure Path
  | links, met, here, todo =>
    match resolveStride disk met here todo with
    | .at path => .ok path
    | .nul => .error .nulInPath
    | .link here link target met rest =>
      match links with
      | 0 => .ok link
      | links + 1 =>
        resolveFrom disk links ((link, none) :: met) (if Path.isAbsolute target then [] else here)
          ((Path.segments target).map .name ++ .settled link :: rest)

/-- The location that a written path names, read from a folder.  It fails on a NUL character and on
links that lead back to themselves. -/
def resolve (disk : Disk) (folder : Path) (raw : Text) : Except Failure Path := do
  let start := if Path.isAbsolute raw then [] else folder
  let path ← resolveFrom disk disk.entries.length [] start ((Path.segments raw).map .name)
  if path.any (·.contains '\x00') then .error .nulInPath
  else match disk.status path with
    | .error .tooManyLinks => .error (.linkLoop path)
    | _ => .ok path

/-- The location that a path names, when it lies in a folder or is that folder. -/
def resolveWithin (disk : Disk) (root : Path) (raw : Text) : Except Failure Path := do
  let base ← disk.resolve [] root.text
  let target ← disk.resolve base raw
  if base.isPrefixOf target then .ok target else .error (.outsideProject raw)

end ReadOnlyViews.Disk
