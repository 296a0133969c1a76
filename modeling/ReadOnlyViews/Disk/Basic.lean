import ReadOnlyViews.Disk.Path
import ReadOnlyViews.Text.Utf8

/-!
A disk: what stands at each path.  Paths here are locations, so none of their names is a link.
-/

namespace ReadOnlyViews

/-- What stands at a path. -/
inductive Node where
  | file (content : Bytes)
  | folder
  | link (target : Text)
  deriving DecidableEq, Repr

/-- The entries of a file system by location; the top folder is always there. -/
structure Disk where
  entries : List (Path × Node) := []
  deriving Repr

namespace Disk

/-- What stands at a location. -/
def node? (disk : Disk) (path : Path) : Option Node :=
  if path = [] then some .folder else disk.entries.lookup path

/-- The disk with something else at one location. -/
def put (disk : Disk) (path : Path) (node : Node) : Disk :=
  ⟨(path, node) :: disk.entries.filter (·.1 != path)⟩

/-- The disk with nothing at one location. -/
def erase (disk : Disk) (path : Path) : Disk :=
  ⟨disk.entries.filter (·.1 != path)⟩

theorem lookup_filter_ne {path other : Path} (different : other ≠ path)
    (entries : List (Path × Node)) :
    (entries.filter (·.1 != path)).lookup other = entries.lookup other := by
  induction entries with
  | nil => rfl
  | cons entry entries ih =>
    obtain ⟨place, node⟩ := entry
    by_cases same : place = path
    · have apart : (other == path) = false := by simpa using different
      simp [same, List.lookup_cons, apart, ih]
    · simp [same, List.lookup_cons, ih]

private theorem lookup_filter_self (path : Path) (entries : List (Path × Node)) :
    (entries.filter (·.1 != path)).lookup path = none := by
  rw [List.lookup_eq_none_iff]
  intro entry member
  have apart : entry.1 ≠ path := by simpa using (List.mem_filter.mp member).2
  simpa using Ne.symm apart

@[simp] theorem node?_put_self (disk : Disk) {path : Path} (named : path ≠ []) (node : Node) :
    (disk.put path node).node? path = some node := by
  simp [node?, put, named]

theorem node?_put_of_ne (disk : Disk) {path other : Path} (different : other ≠ path)
    (node : Node) : (disk.put path node).node? other = disk.node? other := by
  have apart : (other == path) = false := by simpa using different
  simp [node?, put, List.lookup_cons, apart, lookup_filter_ne different]

@[simp] theorem node?_erase_self (disk : Disk) {path : Path} (named : path ≠ []) :
    (disk.erase path).node? path = none := by
  simp [node?, erase, named, lookup_filter_self]

theorem node?_erase_of_ne (disk : Disk) {path other : Path} (different : other ≠ path) :
    (disk.erase path).node? other = disk.node? other := by
  simp [node?, erase, lookup_filter_ne different]

/-- The disk with a node at one location, below folders that are made where nothing stands. -/
def plant (disk : Disk) (path : Path) (node : Node) : Disk :=
  let above := (List.range path.length).map path.take
  let disk := above.foldl (fun disk folder =>
    if (disk.node? folder).isSome then disk else disk.put folder .folder) disk
  disk.put path node

/-- The names in a folder. -/
def names (disk : Disk) (folder : Path) : List Name :=
  disk.entries.filterMap fun (path, _) =>
    if path.dropLast = folder then path.getLast? else none

end Disk

end ReadOnlyViews
