import ReadOnlyViews.Proofs.Locations

/-!
The listing of a folder.  A project that writes to a tree lists the files that stand in the folder,
except those that it deleted under the folder's path.
-/

namespace ReadOnlyViews

/-- A filter whose test always answers. -/
theorem filterM_eq_ok {α ε : Type} {question : α → Except ε Bool} {test : α → Bool} {items : List α}
    (answers : ∀ item ∈ items, question item = .ok (test item)) :
    items.filterM question = .ok (items.filter test) := by
  suffices kept : ∀ found, items.filterAuxM question found =
      .ok ((items.filter test).reverse ++ found) by
    show (items.filterAuxM question [] >>= fun found => pure found.reverse) = _
    rw [kept []]
    simp [bind, Except.bind, pure, Except.pure]
  induction items with
  | nil => exact fun _ => rfl
  | cons item items ih =>
    intro found
    show (question item >>= fun answer =>
      items.filterAuxM question (cond answer (item :: found) found)) = _
    rw [answers item (by simp)]
    refine (ih (fun other member => answers other (by simp [member])) _).trans ?_
    cases answer : test item <;> simp [answer]

namespace Disk

private theorem mem_names_iff {disk : Disk} {folder : Path} {name : Name} :
    name ∈ disk.names folder ↔ ∃ node, (folder ++ [name], node) ∈ disk.entries := by
  simp only [names, List.mem_filterMap, Prod.exists]
  constructor
  · rintro ⟨path, node, member, shown⟩
    split at shown
    · rename_i above
      obtain ⟨front, rfl⟩ := List.getLast?_eq_some_iff.mp shown
      rw [List.dropLast_concat] at above
      exact ⟨node, above ▸ member⟩
    · cases shown
  · rintro ⟨node, member⟩
    exact ⟨folder ++ [name], node, member, by simp⟩

private theorem node?_ne_none_of_mem {disk : Disk} {path : Path} {node : Node}
    (member : (path, node) ∈ disk.entries) : disk.node? path ≠ none := by
  unfold node?
  split
  · simp
  · rw [ne_eq, List.lookup_eq_none_iff]
    intro missing
    simpa using missing _ member

/-- A question about a path to which the way is open is answered. -/
theorem exists_leadsTo {disk : Disk} (tree : disk.IsTree) {path : Path} (plain : Path.IsPlain path)
    (reaches : disk.Reaches path) (test : Node → Bool) :
    ∃ answer, disk.leadsTo test path = .ok answer := by
  cases found : disk.node? path with
  | none => exact ⟨false, leadsTo_of_none tree.linkFree plain test reaches found⟩
  | some node =>
    have status := (status_eq_ok_iff tree.linkFree plain).mpr ⟨reaches, found⟩
    exact ⟨test node, by rw [leadsTo, status]⟩

/-- Whether an entry of a tree is a file is always answered. -/
theorem isFile_of_present {disk : Disk} (tree : disk.IsTree) {path : Path}
    (plain : Path.IsPlain path) (present : disk.node? path ≠ none) :
    disk.isFile path = .ok (disk.file? path).isSome := by
  obtain ⟨node, found⟩ := Option.ne_none_iff_exists'.mp present
  have status := (status_eq_ok_iff tree.linkFree plain).mpr ⟨tree.reaches present, found⟩
  rw [isFile, leadsTo, status, file?, found]
  cases node <;> rfl

theorem isPlain_of_present {disk : Disk} (tree : disk.IsTree) {path : Path} {name : Name}
    (plain : Path.IsPlain path) (present : disk.node? (path ++ [name]) ≠ none) :
    Path.IsPlain (path ++ [name]) := by
  refine plain.append fun other member => ?_
  obtain rfl := List.mem_singleton.mp member
  exact (tree.inFolder path other present).2.1

/-- The names of the files in a folder. -/
def fileNames (disk : Disk) (folder : Path) : List Name :=
  (disk.names folder).filter fun name => (disk.file? (folder ++ [name])).isSome

theorem mem_fileNames_iff {disk : Disk} {folder : Path} {name : Name} :
    name ∈ disk.fileNames folder ↔ ∃ content, disk.file? (folder ++ [name]) = some content := by
  rw [fileNames, List.mem_filter, mem_names_iff, Option.isSome_iff_exists, and_iff_right_iff_imp]
  rintro ⟨content, found⟩
  exact ⟨_, mem_entries_of_node? (by simp) (file?_eq_some_iff.mp found)⟩

private theorem filterM_isFile {disk : Disk} (tree : disk.IsTree) {folder : Path}
    (plain : Path.IsPlain folder) :
    (disk.names folder).filterM (fun name =>
      onDisk (folder ++ [name]) (disk.isFile (folder ++ [name]))) = .ok (disk.fileNames folder) := by
  refine filterM_eq_ok fun name member => ?_
  obtain ⟨node, entry⟩ := mem_names_iff.mp member
  have present := node?_ne_none_of_mem entry
  rw [isFile_of_present tree (isPlain_of_present tree plain present) present]
  rfl

/-- What is no folder has no files in it. -/
theorem fileNames_eq_nil {disk : Disk} (tree : disk.IsTree) {folder : Path}
    (plain : Path.IsPlain folder) (noFolder : disk.isFolder folder = .ok false) :
    disk.fileNames folder = [] := by
  rw [List.eq_nil_iff_forall_not_mem]
  intro name member
  obtain ⟨content, found⟩ := mem_fileNames_iff.mp member
  have present : disk.node? (folder ++ [name]) ≠ none := by
    simp [file?_eq_some_iff.mp found]
  have above := (tree.inFolder folder name present).1
  have isFolder : disk.isFolder folder = .ok true :=
    (leadsTo_eq_true_iff tree.linkFree plain _).mpr
      ⟨tree.reaches (by simp [above]), _, above, by simp⟩
  rw [isFolder] at noFolder
  cases noFolder

end Disk

namespace Project

/-- A folder's path as it stands in front of the names in it. -/
def frontOf (folder : Text) : Text := (folder.reverse.dropWhile (· == '/')).reverse ++ ['/']

theorem frontOf_eq {folder : Text} {c : Char} (ends : folder.getLast? = some c) (other : c ≠ '/') :
    frontOf folder = folder ++ ['/'] := by
  obtain ⟨front, rfl⟩ := List.getLast?_eq_some_iff.mp ends
  simp [frontOf, other]

/-- A listing as the files on the disk, those that are held back, and those that are gone make it. -/
theorem list_eq {project : Project} (tree : project.disk.IsTree) {folder : Text} {path : Path}
    (placed : Path.place project.root folder = .ok path) {answer : Bool}
    (known : project.disk.isFolder path = .ok answer) :
    project.list folder = .ok (Text.sorted ((project.disk.fileNames path ++
      directNames (frontOf folder) (project.pending.map (·.1))).eraseDups.filter fun name =>
        !(project.deleted.filterMap (Text.after? (frontOf folder))).contains name)) := by
  have plain := Path.isPlain_of_place placed
  have asked : onDisk path (project.disk.isFolder path) = .ok answer := by
    rw [known]
    rfl
  rw [list, locate_eq_place tree.linkFree, placed]
  cases answer with
  | true =>
    simp only [bind, Except.bind, asked, if_true, Disk.filterM_isFile tree plain]
    rfl
  | false =>
    simp only [bind, Except.bind, asked, Disk.fileNames_eq_nil tree plain known]
    rfl

/-- A listing without an answer about its folder fails. -/
theorem isFolder_of_list {project : Project} (tree : project.disk.IsTree) {folder : Text}
    {names : List Name} (listed : project.list folder = .ok names) :
    ∃ path answer, Path.place project.root folder = .ok path ∧
      project.disk.isFolder path = .ok answer := by
  rw [list, locate_eq_place tree.linkFree] at listed
  cases placed : Path.place project.root folder with
  | error failure => simp [placed, bind, Except.bind] at listed
  | ok path =>
    cases known : project.disk.isFolder path with
    | error fault => simp [placed, known, onDisk, bind, Except.bind] at listed
    | ok answer => exact ⟨path, answer, rfl, known⟩

/-- A project lists the files that stand in a folder and that it did not delete. -/
theorem mem_list_iff {project : Project} (ready : project.IsReal) {folder : Text} {path : Path}
    (placed : Path.place project.root folder = .ok path) {names : List Name}
    (listed : project.list folder = .ok names) {name : Name} :
    name ∈ names ↔ (∃ content, project.disk.file? (path ++ [name]) = some content) ∧
      frontOf folder ++ name ∉ project.deleted := by
  obtain ⟨there, answer, again, known⟩ := isFolder_of_list ready.tree listed
  obtain rfl : path = there := Except.ok.inj (placed.symm.trans again)
  rw [list_eq ready.tree placed known, ready.direct, List.map_nil] at listed
  obtain rfl := Except.ok.inj listed
  have nothing : directNames (frontOf folder) [] = [] := rfl
  have gone : name ∈ project.deleted.filterMap (Text.after? (frontOf folder)) ↔
      frontOf folder ++ name ∈ project.deleted := by
    simp [List.mem_filterMap, Text.after?_eq_some_iff]
  rw [(Text.sorted_perm _).mem_iff, List.mem_filter, List.mem_eraseDups, nothing,
    List.append_nil, Disk.mem_fileNames_iff, ← gone]
  simp

end Project

end ReadOnlyViews
