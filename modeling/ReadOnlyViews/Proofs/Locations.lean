import ReadOnlyViews.Proofs.Texts
import ReadOnlyViews.Proofs.Tree

/-!
Where the files of a project are.  On a disk without links a written path names one location,
whatever stands on the disk, so a project that writes and deletes goes on to find its files at the
same places.  With that, a write changes the one file that its path names, and a delete removes it.
-/

namespace ReadOnlyViews

namespace Path

/-- The location that a written path names when no link is on the way, read from a folder. -/
def plainReading (folder : Path) (raw : Text) : Except Failure Path :=
  if (segments raw).any (·.contains '\x00') then .error .nulInPath
  else .ok ((segments raw).foldl step (if isAbsolute raw then [] else folder))

private theorem step_of_isName {name : Name} (isName : IsName name) (path : Path) :
    step path name = path ++ [name] := by
  rw [step, if_neg isName.not_nil_or_dot, if_neg isName.notDots]

theorem IsPlain.step {path : Path} {name : Name} (plain : IsPlain path) (noSlash : '/' ∉ name)
    (noNul : '\x00' ∉ name) : IsPlain (step path name) := by
  unfold Path.step
  split
  · exact plain
  · rename_i noDot
    split
    · exact plain.dropLast
    · rename_i notDots
      refine plain.append fun other member => ?_
      obtain rfl := List.mem_singleton.mp member
      exact ⟨fun empty => noDot (.inl empty), fun dot => noDot (.inr dot), notDots, noSlash, noNul⟩

theorem IsPlain.foldl_step {names : List Name} (noSlash : ∀ name ∈ names, '/' ∉ name)
    (noNul : ∀ name ∈ names, '\x00' ∉ name) {path : Path} (plain : IsPlain path) :
    IsPlain (names.foldl Path.step path) := by
  induction names generalizing path with
  | nil => exact plain
  | cons name names ih =>
    refine ih (fun other member => noSlash other (by simp [member]))
      (fun other member => noNul other (by simp [member])) ?_
    exact plain.step (noSlash name (by simp)) (noNul name (by simp))

theorem isPlain_of_plainReading {folder path : Path} {raw : Text} (plain : IsPlain folder)
    (read : plainReading folder raw = .ok path) : IsPlain path := by
  unfold plainReading at read
  split at read
  case isTrue => cases read
  case isFalse clean =>
    obtain rfl := Except.ok.inj read
    refine IsPlain.foldl_step (fun _ => Text.notMem_of_mem_pieces) ?_ ?_
    · intro name member nul
      exact clean (List.any_eq_true.mpr ⟨name, member, by simpa using nul⟩)
    · split
      · intro name member
        cases member
      · exact plain

theorem foldl_step_of_isPlain {names : List Name} (plain : IsPlain names) (here : Path) :
    names.foldl step here = here ++ names := by
  induction names generalizing here with
  | nil => simp
  | cons name names ih =>
    rw [List.foldl_cons, step_of_isName (plain name (by simp)),
      ih fun other member => plain other (by simp [member])]
    simp

/-- A plain location is read back from its written path. -/
theorem plainReading_text {path : Path} (plain : IsPlain path) : plainReading [] path.text = .ok path := by
  have cut (name : Name) (names : List Name) (noSlash : ∀ other ∈ name :: names, '/' ∉ other) :
      Text.pieces '/' (name ++ names.flatMap ('/' :: ·)) = name :: names := by
    induction names generalizing name with
    | nil =>
      rw [List.flatMap_nil, List.append_nil, Text.pieces_of_notMem (noSlash name (by simp))]
    | cons next names ih =>
      rw [List.flatMap_cons, List.cons_append, Text.pieces_append_mark,
        Text.pieces_of_notMem (noSlash name (by simp)),
        ih next fun other member => noSlash other (List.mem_cons_of_mem _ member)]
      rfl
  cases path with
  | nil => rfl
  | cons name names =>
    have segmented : segments (text (name :: names)) = [] :: name :: names := by
      have cutAll := cut [] (name :: names) ?_
      · exact cutAll
      · intro other member
        rcases List.mem_cons.mp member with rfl | inside
        · simp
        · exact (plain other inside).noSlash
    have clean : ([] :: name :: names).any (·.contains '\x00') = false := by
      rw [List.any_eq_false]
      intro other member nul
      rcases List.mem_cons.mp member with rfl | inside
      · simp at nul
      · exact (plain other inside).noNul (by simpa using nul)
    have ignored : step [] [] = [] := if_pos (.inl rfl)
    rw [plainReading, segmented, clean, if_neg (by decide), ite_self, List.foldl_cons, ignored,
      foldl_step_of_isPlain plain, List.nil_append]

end Path

namespace Disk

private theorem resolveStride_names {disk : Disk} (linkFree : LinkFree disk) (met : MetLinks) (here : Path)
    (names : List Name) :
    disk.resolveStride met here (names.map .name) =
      if names.any (·.contains '\x00') then .nul else .at (names.foldl Path.step here) := by
  induction names generalizing here with
  | nil => rfl
  | cons name names ih =>
    rw [List.map_cons, resolveStride, List.any_cons, List.foldl_cons]
    by_cases dot : name = [] ∨ name = "."
    · have clean : name.contains '\x00' = false := by
        rcases dot with rfl | rfl <;> rfl
      have stays : Path.step here name = here := if_pos dot
      rw [if_pos dot, ih, clean, stays, Bool.false_or]
    rw [if_neg dot]
    by_cases dots : name = ".."
    · have clean : name.contains '\x00' = false := by
        rw [dots]
        rfl
      have climbs : Path.step here name = here.dropLast := by
        rw [Path.step, if_neg dot, if_pos dots]
      rw [if_pos dots, ih, clean, climbs, Bool.false_or]
    rw [if_neg dots]
    have enters : Path.step here name = here ++ [name] := by
      rw [Path.step, if_neg dot, if_neg dots]
    cases nul : name.contains '\x00' with
    | true => simp
    | false =>
      rw [enters, Bool.false_or, ← ih]
      cases found : disk.node? (here ++ [name]) with
      | none => simp [found]
      | some node =>
        cases node with
        | link target => exact absurd found (linkFree _ target)
        | file _ => simp [found]
        | folder => simp [found]

theorem stride_ne_tooManyLinks {disk : Disk} (last : Last) (here : Path) (names : List Name) :
    disk.stride last here names ≠ .refused .tooManyLinks := by
  fun_induction stride disk last here names
  case case3 ih | case4 ih | case10 ih => exact ih
  all_goals simp

private theorem status_ne_tooManyLinks {disk : Disk} (linkFree : LinkFree disk) (path : Path) :
    disk.status path ≠ .error .tooManyLinks := by
  intro looped
  cases reached : disk.stride .existing [] path with
  | link here names => exact stride_ne_link linkFree .existing reached
  | refused fault =>
    have same : fault = .tooManyLinks := by
      simpa [status, walk_eq linkFree, reached, bind, Except.bind] using looped
    exact stride_ne_tooManyLinks .existing [] path (same ▸ reached)
  | arrived location =>
    cases found : disk.node? location <;>
      simp [status, walk_eq linkFree, reached, bind, Except.bind, found] at looped

private theorem resolveFrom_names {disk : Disk} (linkFree : LinkFree disk) (links : Nat) (met : MetLinks)
    (here : Path) (names : List Name) :
    disk.resolveFrom links met here (names.map .name) =
      if names.any (·.contains '\x00') then .error .nulInPath
      else .ok (names.foldl Path.step here) := by
  rw [resolveFrom.eq_def]
  dsimp only
  rw [resolveStride_names linkFree]
  cases names.any (·.contains '\x00') <;> rfl

/-- On a disk without links the location that a path names depends on the path alone. -/
theorem resolve_eq_plainReading {disk : Disk} (linkFree : LinkFree disk) {folder : Path}
    (plain : Path.IsPlain folder) (raw : Text) :
    disk.resolve folder raw = Path.plainReading folder raw := by
  cases read : Path.plainReading folder raw with
  | error failure =>
    rw [resolve, resolveFrom_names linkFree]
    unfold Path.plainReading at read
    rw [read]
    rfl
  | ok path =>
    have clean : path.any (·.contains '\x00') = false := by
      rw [List.any_eq_false]
      intro name member nul
      exact (Path.isPlain_of_plainReading plain read name member).noNul (by simpa using nul)
    unfold Path.plainReading at read
    simp only [resolve, resolveFrom_names linkFree, read, bind, Except.bind, clean]
    split
    · contradiction
    · split
      · rename_i looped
        exact absurd looped (status_ne_tooManyLinks linkFree _)
      · rfl

end Disk

/-- Where a path of a project with a given root leads when no link is on the way. -/
def Path.place (root : Path) (raw : Text) : Except Failure Path := do
  let base ← plainReading [] root.text
  let target ← plainReading base raw
  if base.isPrefixOf target then .ok target else .error (.outsideProject raw)

namespace Path

theorem plainReading_of_place {root target : Path} {raw : Text} (placed : place root raw = .ok target) :
    ∃ base, IsPlain base ∧ plainReading [] root.text = .ok base ∧
      plainReading base raw = .ok target ∧ base <+: target := by
  unfold place at placed
  cases based : plainReading [] root.text with
  | error failure => simp [based, bind, Except.bind] at placed
  | ok base =>
    cases read : plainReading base raw with
    | error failure => simp [based, read, bind, Except.bind] at placed
    | ok found =>
      simp only [based, read, bind, Except.bind] at placed
      split at placed
      · rename_i within
        cases placed
        refine ⟨base, isPlain_of_plainReading ?_ based, rfl, read,
          List.isPrefixOf_iff_prefix.mp within⟩
        intro name member
        cases member
      · cases placed

theorem isPlain_of_place {root target : Path} {raw : Text} (placed : place root raw = .ok target) :
    IsPlain target := by
  obtain ⟨base, plain, -, read, -⟩ := plainReading_of_place placed
  exact isPlain_of_plainReading plain read

/-- A name behind a slash is read as the last name of the location. -/
theorem plainReading_append_name {folder : Path} {front : Text} {name : Name} (named : front ≠ [])
    (isName : IsName name) :
    plainReading folder (front ++ '/' :: name) =
      (plainReading folder front).map (· ++ [name]) := by
  have cut : segments (front ++ '/' :: name) = segments front ++ [name] := by
    rw [segments, Text.pieces_append_mark, Text.pieces_of_notMem isName.noSlash, segments]
  have start : isAbsolute (front ++ '/' :: name) = isAbsolute front := by
    obtain ⟨c, front, rfl⟩ := List.exists_cons_of_ne_nil named
    rfl
  have clean : name.contains '\x00' = false := by simpa using isName.noNul
  rw [plainReading, plainReading, cut, start, List.any_append, List.foldl_append, List.foldl_cons,
    List.foldl_nil, step_of_isName isName, List.any_cons, clean, List.any_nil, Bool.or_false,
    Bool.or_false]
  split <;> rfl

/-- What lies in a folder of the project lies in the project. -/
theorem place_append_name {root folder : Path} {front : Text} {name : Name} (named : front ≠ [])
    (isName : IsName name) (placed : place root front = .ok folder) :
    place root (front ++ '/' :: name) = .ok (folder ++ [name]) := by
  obtain ⟨base, -, based, read, within⟩ := plainReading_of_place placed
  have inside : base.isPrefixOf (folder ++ [name]) = true :=
    List.isPrefixOf_iff_prefix.mpr (within.trans (List.prefix_append _ _))
  rw [place, based]
  simp only [bind, Except.bind, plainReading_append_name named isName, read, Except.map]
  rw [if_pos inside]

/-- The location of a name in a folder ends with the name. -/
theorem exists_eq_append_name_of_place {root target : Path} {front : Text} {name : Name}
    (named : front ≠ []) (isName : IsName name)
    (placed : place root (front ++ '/' :: name) = .ok target) :
    ∃ above, target = above ++ [name] := by
  obtain ⟨base, -, -, read, -⟩ := plainReading_of_place placed
  rw [plainReading_append_name named isName] at read
  cases inFront : plainReading base front with
  | error failure => simp [inFront, Except.map] at read
  | ok above =>
    simp only [inFront, Except.map, Except.ok.injEq] at read
    exact ⟨above, read.symm⟩

/-- A location ends as its written path does, unless that ends in a slash or a dot. -/
theorem exists_eq_append_of_place {root target : Path} {front : Text} {c : Char} (slash : c ≠ '/')
    (dot : c ≠ '.') (placed : place root (front ++ [c]) = .ok target) :
    ∃ folder name, target = folder ++ [name ++ [c]] := by
  obtain ⟨base, -, -, read, -⟩ := plainReading_of_place placed
  obtain ⟨others, last, cut⟩ := Text.exists_pieces_eq_append slash front
  unfold plainReading at read
  split at read
  · cases read
  · obtain rfl := Except.ok.inj read
    have ends : c ∈ last ++ [c] := by simp
    have noDot : ¬ (last ++ [c] = [] ∨ last ++ [c] = ".") := by
      rintro (empty | same)
      · simp at empty
      · rw [same] at ends
        simp [dot] at ends
    have notDots : last ++ [c] ≠ ".." := by
      intro same
      rw [same] at ends
      simp [dot] at ends
    rw [segments, cut, List.foldl_append, List.foldl_cons, List.foldl_nil]
    exact ⟨_, last, by rw [step, if_neg noDot, if_neg notDots]⟩

theorem getLast?_of_place {root target : Path} {file : Text} {c : Char}
    (ends : file.getLast? = some c) (slash : c ≠ '/') (dot : c ≠ '.')
    (placed : place root file = .ok target) :
    ∃ above name, target = above ++ [name] ∧ name.getLast? = some c := by
  obtain ⟨front, rfl⟩ := List.getLast?_eq_some_iff.mp ends
  obtain ⟨above, name, rfl⟩ := exists_eq_append_of_place slash dot placed
  exact ⟨above, name ++ [c], rfl, List.getLast?_concat⟩

end Path

/-- A path under which a replacement keeps its new content for a while. -/
def Path.IsTemporary (path : Path) : Prop :=
  ∃ folder start, path = folder ++ [start ++ ".viewbot-tmp".toList]

private theorem Path.isTemporary_temporary (target : Path) : Path.IsTemporary (Disk.temporary target) :=
  ⟨_, _, rfl⟩

namespace Disk

/-- The disk is a tree without links: whatever stands somewhere stands in a folder, under a name
that a path can spell. -/
structure IsTree (disk : Disk) : Prop where
  linkFree : LinkFree disk
  inFolder : ∀ path name, disk.node? (path ++ [name]) ≠ none →
    disk.node? path = some .folder ∧ Path.IsName name ∧ Utf8.size name ≤ nameLimit

instance (name : Name) : Decidable (Path.IsName name) :=
  decidable_of_iff (name ≠ [] ∧ name ≠ "." ∧ name ≠ ".." ∧ '/' ∉ name ∧ '\x00' ∉ name)
    ⟨fun ⟨nonempty, notDot, notDots, noSlash, noNul⟩ => ⟨nonempty, notDot, notDots, noSlash, noNul⟩,
      fun isName => ⟨isName.nonempty, isName.notDot, isName.notDots, isName.noSlash, isName.noNul⟩⟩

/-- An entry of a tree: a file or a folder with a spelled name in a folder. -/
def IsTreeEntry (disk : Disk) (entry : Path × Node) : Prop :=
  (match entry.2 with | .link _ => False | _ => True) ∧ entry.1 ≠ [] ∧
    disk.node? entry.1.dropLast = some .folder ∧
    Path.IsName (entry.1.getLastD []) ∧ Utf8.size (entry.1.getLastD []) ≤ nameLimit

instance (disk : Disk) (entry : Path × Node) : Decidable (IsTreeEntry disk entry) := by
  unfold IsTreeEntry
  have : Decidable (match entry.2 with | .link _ => False | _ => True) := by
    split <;> infer_instance
  infer_instance

theorem mem_entries_of_node? {disk : Disk} {path : Path} {node : Node} (named : path ≠ [])
    (found : disk.node? path = some node) : (path, node) ∈ disk.entries := by
  rw [node?, if_neg named] at found
  obtain ⟨front, back, cut, -⟩ := List.lookup_eq_some_iff.mp found
  simp [cut]

/-- Whether a disk is a tree can be read off its entries. -/
theorem isTree_of_entries {disk : Disk} (entries : ∀ entry ∈ disk.entries, IsTreeEntry disk entry) :
    IsTree disk := by
  constructor
  · intro path target found
    by_cases top : path = []
    · simp [top] at found
    · exact (entries _ (mem_entries_of_node? top found)).1
  · intro folder name present
    obtain ⟨node, found⟩ := Option.ne_none_iff_exists'.mp present
    obtain ⟨-, -, isFolder, isName, short⟩ := entries _ (mem_entries_of_node? (by simp) found)
    exact ⟨by simpa using isFolder, by simpa using isName, by simpa using short⟩

/-- The content of the file at a location. -/
def file? (disk : Disk) (path : Path) : Option Bytes :=
  match disk.node? path with
  | some (.file content) => some content
  | _ => none

theorem file?_eq_some_iff {disk : Disk} {path : Path} {content : Bytes} :
    disk.file? path = some content ↔ disk.node? path = some (.file content) := by
  unfold file?
  split <;> simp_all

/-- No file has a name that a replacement uses for its new content. -/
def NoTemporary (disk : Disk) : Prop := ∀ path, Path.IsTemporary path → disk.file? path = none

theorem noTemporary_of_entries {disk : Disk}
    (entries : ∀ entry ∈ disk.entries, ¬ ".viewbot-tmp".toList <:+ entry.1.getLastD []) :
    NoTemporary disk := by
  rintro path ⟨folder, start, rfl⟩
  by_contra present
  obtain ⟨content, found⟩ := Option.ne_none_iff_exists'.mp present
  have member := mem_entries_of_node? (by simp) (file?_eq_some_iff.mp found)
  exact entries _ member (by simp)

theorem Grown.file?_eq {disk later : Disk} {path : Path} (grown : Grown disk later path)
    (other : Path) : later.file? other = disk.file? other := by
  rcases grown other with same | ⟨missing, made, -⟩
  · simp [file?, same]
  · simp [file?, missing, made]

private theorem Shed.file?_cases {disk later : Disk} {target : Path}
    (shed : Shed disk later (temporary target)) (path : Path) :
    later.file? path = disk.file? path ∨ (Path.IsTemporary path ∧ later.file? path = none) := by
  rcases shed path with same | ⟨rfl, -, gone⟩
  · exact .inl (by simp [file?, same])
  · exact .inr ⟨Path.isTemporary_temporary target, by simp [file?, gone]⟩

theorem IsTree.reaches {disk : Disk} (tree : IsTree disk) {path : Path}
    (present : disk.node? path ≠ none) : Reaches disk path := by
  induction path using List.reverseRecOn with
  | nil => trivial
  | append_singleton path name ih =>
    obtain ⟨isFolder, -, short⟩ := tree.inFolder path name present
    exact reaches_append_singleton.mpr ⟨ih (by simp [isFolder]), isFolder, short⟩

theorem IsTree.grown {disk later : Disk} {path : Path} (tree : IsTree disk)
    (plain : Path.IsPlain path) (grown : Grown disk later path) : IsTree later := by
  refine ⟨grown.linkFree tree.linkFree, fun folder name present => ?_⟩
  rcases grown (folder ++ [name]) with same | ⟨-, -, onWay, reaches⟩
  · obtain ⟨isFolder, isName, short⟩ := tree.inFolder folder name (same ▸ present)
    exact ⟨grown.isFolder isFolder, isName, short⟩
  · obtain ⟨-, isFolder, short⟩ := reaches_append_singleton.mp reaches
    exact ⟨isFolder, plain name (onWay.subset (by simp)), short⟩

/-- A folder stays where something else is put. -/
theorem node?_put_of_folder {disk : Disk} {target path : Path}
    (notFolder : disk.node? target ≠ some .folder) (node : Node)
    (isFolder : disk.node? path = some .folder) :
    (disk.put target node).node? path = some .folder := by
  rw [node?_put_of_ne _ ?_, isFolder]
  rintro rfl
  exact notFolder isFolder

theorem Shed.isFolder {disk later : Disk} {path other : Path} (shed : Shed disk later path)
    (isFolder : disk.node? other = some .folder) : later.node? other = some .folder := by
  rcases shed other with same | ⟨-, ⟨old, found⟩, -⟩
  · rw [same, isFolder]
  · simp [found] at isFolder

/-- A tree stays one when a file is written to which the way is open. -/
theorem IsTree.put {disk : Disk} {target : Path} (tree : IsTree disk) (plain : Path.IsPlain target)
    (reaches : Reaches disk target) (notFolder : disk.node? target ≠ some .folder)
    (content : Bytes) : IsTree (disk.put target (.file content)) := by
  refine ⟨tree.linkFree.put target (by simp), fun folder name present => ?_⟩
  by_cases same : folder ++ [name] = target
  · obtain ⟨-, isFolder, short⟩ := reaches_append_singleton.mp (same ▸ reaches)
    exact ⟨node?_put_of_folder notFolder _ isFolder, plain name (same ▸ by simp), short⟩
  · rw [node?_put_of_ne _ same] at present
    obtain ⟨isFolder, isName, short⟩ := tree.inFolder folder name present
    exact ⟨node?_put_of_folder notFolder _ isFolder, isName, short⟩

theorem IsTree.shed {disk later : Disk} {path : Path} (tree : IsTree disk)
    (shed : Shed disk later path) : IsTree later := by
  constructor
  · intro other target found
    rcases shed other with same | ⟨-, -, gone⟩
    · exact tree.linkFree other target (same ▸ found)
    · simp [gone] at found
  · intro folder name present
    rcases shed (folder ++ [name]) with same | ⟨-, -, gone⟩
    · obtain ⟨isFolder, isName, short⟩ := tree.inFolder folder name (same ▸ present)
      exact ⟨shed.isFolder isFolder, isName, short⟩
    · exact absurd gone present

theorem IsTree.erase {disk : Disk} {target : Path} (tree : IsTree disk)
    (notFolder : disk.node? target ≠ some .folder) : IsTree (disk.erase target) := by
  refine ⟨tree.linkFree.erase target, fun folder name present => ?_⟩
  have other : folder ++ [name] ≠ target := by
    rintro rfl
    simp [node?_erase_self] at present
  rw [node?_erase_of_ne _ other] at present
  obtain ⟨isFolder, isName, short⟩ := tree.inFolder folder name present
  rw [node?_erase_of_ne _ ?_]
  · exact ⟨isFolder, isName, short⟩
  · rintro rfl
    exact notFolder isFolder

end Disk

theorem Project.locate_eq_place {project : Project} (linkFree : project.disk.LinkFree)
    (file : Text) : project.locate file = Path.place project.root file := by
  have top : Path.IsPlain [] := by
    intro name member
    cases member
  rw [locate, Disk.resolveWithin, Path.place, Disk.resolve_eq_plainReading linkFree top]
  cases based : Path.plainReading [] project.root.text with
  | error failure => rfl
  | ok base =>
    have plain := Path.isPlain_of_plainReading top based
    simp only [bind, Except.bind, Disk.resolve_eq_plainReading linkFree plain]

namespace Project

/-- A project that writes to a tree. -/
structure IsReal (project : Project) : Prop where
  real : project.dryRun = false
  direct : project.pending = []
  tree : project.disk.IsTree

/-- The project as it counts a file written, before the disk is asked. -/
def countWritten (project : Project) (file text : Text) : Project :=
  { project with
    deleted := project.deleted.filter (· != file)
    written := putPair file (Digest.ofText text) project.written }

/-- The project as it counts a file deleted, before the disk is asked. -/
def countDeleted (project : Project) (file : Text) : Project :=
  { project with
    pending := project.pending.filter (·.1 != file)
    deleted := if project.deleted.contains file then project.deleted
      else project.deleted ++ [file] }

/-- The project on another disk. -/
def withDisk (project : Project) (disk : Disk) : Project := { project with disk }

/-- What a write comes to: the file has the text, or the disk refuses, or the path names no place of
the project.  Folders on the way may be new in the first two cases, and a file under the temporary
name may be gone. -/
inductive Written (project : Project) (file text : Text) : Except Failure Unit × Project → Prop where
  | done {target : Path} {middle disk : Disk} (placed : Path.place project.root file = .ok target)
      (grown : project.disk.Grown middle target.dropLast) (reaches : middle.Reaches target)
      (notFolder : middle.node? target ≠ some .folder)
      (shed : (middle.put target (.file (Utf8.encode text))).Shed disk (Disk.temporary target)) :
      Written project file text (.ok (), (project.countWritten file text).withDisk disk)
  | refused {target : Path} {middle disk : Disk} {fault : DiskFault} {place : Path}
      {onto : Option Path} (placed : Path.place project.root file = .ok target)
      (grown : project.disk.Grown middle target.dropLast)
      (shed : middle.Shed disk (Disk.temporary target)) :
      Written project file text
        (.error (.disk fault place onto), (project.countWritten file text).withDisk disk)
  | nowhere {failure : Failure} (placed : Path.place project.root file = .error failure) :
      Written project file text (.error failure, project.countWritten file text)

theorem write_of_real {project : Project} (real : project.dryRun = false) (file text : Text) :
    project.write file text =
      match (project.countWritten file text).locate file with
      | .error failure => (.error failure, project.countWritten file text)
      | .ok target =>
        match project.disk.makeFolders target.dropLast.reverse with
        | (.error failure, disk) =>
          (.error failure, (project.countWritten file text).withDisk disk)
        | (.ok (), disk) =>
          ((disk.replaceFile target (Utf8.encode text)).1,
            (project.countWritten file text).withDisk
              (disk.replaceFile target (Utf8.encode text)).2) := by
  have live : ¬ (project.countWritten file text).dryRun = true := by simp [countWritten, real]
  exact if_neg live

theorem written_write {project : Project} (ready : project.IsReal) (file text : Text) :
    Written project file text (project.write file text) := by
  have located : (project.countWritten file text).locate file = Path.place project.root file :=
    locate_eq_place ready.tree.linkFree file
  rw [write_of_real ready.real, located]
  cases placed : Path.place project.root file with
  | error failure => exact .nowhere placed
  | ok target =>
    have plain := Path.isPlain_of_place placed
    have paved : project.disk.Paved target.dropLast.reverse.reverse _ :=
      Disk.paved_makeFolders ready.tree.linkFree (by simpa using plain.dropLast)
    rw [List.reverse_reverse] at paved
    obtain ⟨grown, outcome⟩ := paved
    cases made : project.disk.makeFolders target.dropLast.reverse with
    | mk result middle =>
      simp only [made] at grown outcome ⊢
      cases result with
      | error failure =>
        obtain ⟨fault, place, rfl⟩ := outcome
        exact .refused placed grown (.refl _ _)
      | ok _ =>
        have linkFree := grown.linkFree ready.tree.linkFree
        rcases Disk.replaceFile_cases linkFree plain (Utf8.encode text) with
          ⟨disk, replaced, reaches, notFolder, shed⟩ | ⟨fault, place, onto, disk, replaced, shed⟩
        · simp only [replaced]
          exact .done placed grown reaches notFolder shed
        · simp only [replaced]
          exact .refused placed grown shed

theorem Written.root_eq {project later : Project} {file text : Text} {result : Except Failure Unit}
    (written : Written project file text (result, later)) : later.root = project.root := by
  cases written <;> rfl

theorem Written.files_of_done {project later : Project} {file text : Text}
    (written : Written project file text (.ok (), later)) :
    ∃ target, Path.place project.root file = .ok target ∧
      later.disk.file? target = some (Utf8.encode text) ∧
      ∀ path, path ≠ target → later.disk.file? path = project.disk.file? path ∨
        (Path.IsTemporary path ∧ later.disk.file? path = none) := by
  cases written with
  | @done target middle disk placed grown reaches notFolder shed =>
    have named : target ≠ [] := by
      rintro rfl
      simp at notFolder
    refine ⟨target, placed, ?_, fun path other => ?_⟩
    · rw [Disk.file?_eq_some_iff]
      exact (shed.node?_eq (Disk.temporary_ne target).symm).trans (Disk.node?_put_self _ named _)
    · have kept : (middle.put target (.file (Utf8.encode text))).file? path = middle.file? path := by
        simp only [Disk.file?, Disk.node?_put_of_ne _ other]
      rw [← grown.file?_eq, ← kept]
      exact shed.file?_cases path

theorem Written.isFolder_of_done {project later : Project} {file text : Text}
    (written : Written project file text (.ok (), later)) {path : Path}
    (isFolder : project.disk.node? path = some .folder) :
    later.disk.node? path = some .folder := by
  cases written with
  | done placed grown reaches notFolder shed =>
    exact shed.isFolder (Disk.node?_put_of_folder notFolder _ (grown.isFolder isFolder))

theorem Written.files_of_error {project later : Project} {file text : Text} {failure : Failure}
    (written : Written project file text (.error failure, later)) (path : Path) :
    later.disk.file? path = project.disk.file? path ∨
      (Path.IsTemporary path ∧ later.disk.file? path = none) := by
  cases written with
  | refused placed grown shed =>
    rw [← grown.file?_eq]
    exact shed.file?_cases path
  | nowhere placed => exact .inl rfl

/-- A project that writes to a tree goes on doing so, whatever comes of a write. -/
theorem Written.isReal {project later : Project} {file text : Text} {result : Except Failure Unit}
    (ready : project.IsReal) (written : Written project file text (result, later)) :
    later.IsReal := by
  cases written with
  | nowhere placed => exact ⟨ready.real, ready.direct, ready.tree⟩
  | refused placed grown shed =>
    have plain := (Path.isPlain_of_place placed).dropLast
    exact ⟨ready.real, ready.direct, (ready.tree.grown plain grown).shed shed⟩
  | done placed grown reaches notFolder shed =>
    have plain := Path.isPlain_of_place placed
    have tree := (ready.tree.grown plain.dropLast grown).put plain reaches notFolder
    exact ⟨ready.real, ready.direct, (tree _).shed shed⟩

theorem isFile_eq_true_iff {disk : Disk} (tree : disk.IsTree) {path : Path}
    (plain : Path.IsPlain path) :
    disk.isFile path = .ok true ↔ ∃ content, disk.file? path = some content := by
  rw [Disk.isFile, Disk.leadsTo_eq_true_iff tree.linkFree plain]
  constructor
  · rintro ⟨-, node, found, isFile⟩
    cases node with
    | file content => exact ⟨content, Disk.file?_eq_some_iff.mpr found⟩
    | folder | link => cases isFile
  · rintro ⟨content, found⟩
    rw [Disk.file?_eq_some_iff] at found
    exact ⟨tree.reaches (by simp [found]), _, found, rfl⟩

/-- A question about a file that is neither deleted nor held back goes to the disk. -/
theorem has_of_unheld {project : Project} (tree : project.disk.IsTree) {file : Text}
    (kept : file ∉ project.deleted) (unheld : project.pending.lookup file = none) :
    project.has file = (do
      let path ← Path.place project.root file
      onDisk path (project.disk.isFile path)) := by
  rw [has, locate_eq_place tree.linkFree]
  simp [kept, unheld]

theorem IsReal.unheld {project : Project} (ready : project.IsReal) (file : Text) :
    project.pending.lookup file = none := by
  rw [ready.direct, List.lookup_nil]

theorem has_of_real {project : Project} (ready : project.IsReal) {file : Text}
    (kept : file ∉ project.deleted) :
    project.has file = (do
      let path ← Path.place project.root file
      onDisk path (project.disk.isFile path)) :=
  has_of_unheld ready.tree kept (ready.unheld file)

theorem has_eq_true_iff_of_unheld {project : Project} (tree : project.disk.IsTree) {file : Text}
    (unheld : project.pending.lookup file = none) :
    project.has file = .ok true ↔
      file ∉ project.deleted ∧ ∃ target content, Path.place project.root file = .ok target ∧
        project.disk.file? target = some content := by
  by_cases gone : file ∈ project.deleted
  · simp [has, gone]
  rw [has_of_unheld tree gone unheld]
  cases placed : Path.place project.root file with
  | error failure => simp [bind, Except.bind]
  | ok target =>
    have stands := isFile_eq_true_iff tree (Path.isPlain_of_place placed)
    cases asked : project.disk.isFile target with
    | error fault => simp_all [bind, Except.bind, onDisk]
    | ok answer => simp_all [bind, Except.bind, onDisk]

/-- A project has the files that are on the disk, except those that it deleted. -/
theorem has_eq_true_iff {project : Project} (ready : project.IsReal) {file : Text} :
    project.has file = .ok true ↔
      file ∉ project.deleted ∧ ∃ target content, Path.place project.root file = .ok target ∧
        project.disk.file? target = some content :=
  has_eq_true_iff_of_unheld ready.tree (ready.unheld file)

theorem readFile_eq_ok_iff {disk : Disk} (tree : disk.IsTree) {path : Path}
    (plain : Path.IsPlain path) {content : Bytes} :
    disk.readFile path = .ok content ↔ disk.file? path = some content := by
  rw [Disk.file?_eq_some_iff, Disk.readFile]
  cases asked : disk.status path with
  | error fault =>
    have missing : disk.node? path ≠ some (.file content) := by
      intro found
      rw [(Disk.status_eq_ok_iff tree.linkFree plain).mpr
        ⟨tree.reaches (by simp [found]), found⟩] at asked
      cases asked
    simp [bind, Except.bind, missing]
  | ok node =>
    have found := ((Disk.status_eq_ok_iff tree.linkFree plain).mp asked).2
    cases node <;> simp [bind, Except.bind, found]

/-- The content of a file as its text. -/
def textOf (file : Text) (content : Bytes) : Except Failure Text :=
  match Utf8.decode content with
  | .ok text => .ok text
  | .error fault => .error (.notUtf8 file fault.offset)

/-- A file that is neither deleted nor held back is read from the disk. -/
theorem read_of_unheld {project : Project} (tree : project.disk.IsTree) {file : Text}
    (kept : file ∉ project.deleted) (unheld : project.pending.lookup file = none) :
    project.read file = (do
      let path ← Path.place project.root file
      let content ← onDisk path (project.disk.readFile path)
      textOf file content) := by
  simp only [read, List.contains_iff_mem, kept, if_false, unheld, locate_eq_place tree.linkFree]
  rfl

theorem read_eq_ok_iff_of_unheld {project : Project} (tree : project.disk.IsTree) {file text : Text}
    (unheld : project.pending.lookup file = none) :
    project.read file = .ok text ↔
      file ∉ project.deleted ∧ ∃ target content, Path.place project.root file = .ok target ∧
        project.disk.file? target = some content ∧ Utf8.decode content = .ok text := by
  by_cases gone : file ∈ project.deleted
  · simp [read, gone]
  simp only [read_of_unheld tree gone unheld, gone, not_false_eq_true, true_and]
  cases placed : Path.place project.root file with
  | error failure => simp [bind, Except.bind]
  | ok target =>
    have stands (content : Bytes) :=
      @readFile_eq_ok_iff project.disk tree target (Path.isPlain_of_place placed) content
    cases got : project.disk.readFile target with
    | error fault =>
      have missing : ∀ content, project.disk.file? target ≠ some content := by
        intro content found
        rw [(stands content).mpr found] at got
        cases got
      simp [bind, Except.bind, onDisk, got, missing]
    | ok content =>
      have found := (stands content).mp got
      cases decoded : Utf8.decode content <;>
        simp [bind, Except.bind, onDisk, got, found, textOf, decoded]

/-- What a project reads is the text of the file on the disk, unless it deleted the file. -/
theorem read_eq_ok_iff {project : Project} (ready : project.IsReal) {file text : Text} :
    project.read file = .ok text ↔
      file ∉ project.deleted ∧ ∃ target content, Path.place project.root file = .ok target ∧
        project.disk.file? target = some content ∧ Utf8.decode content = .ok text :=
  read_eq_ok_iff_of_unheld ready.tree (ready.unheld file)

/-- Whether there is a file at a place of the project stays unknown only when the disk refuses. -/
theorem exists_of_has_eq_error {project : Project} (ready : project.IsReal) {file : Text}
    {target : Path} (placed : Path.place project.root file = .ok target) {failure : Failure}
    (failed : project.has file = .error failure) : ∃ fault, failure = .disk fault target none := by
  by_cases gone : file ∈ project.deleted
  · simp [has, gone] at failed
  rw [has_of_real ready gone, placed] at failed
  cases asked : project.disk.isFile target with
  | ok answer => simp [bind, Except.bind, onDisk, asked] at failed
  | error fault =>
    simp only [bind, Except.bind, onDisk, asked, Except.error.injEq] at failed
    exact ⟨fault, failed.symm⟩

/-- A file at a place of the project can not be read only when the disk refuses, or it is no text. -/
theorem exists_of_read_eq_error {project : Project} (ready : project.IsReal) {file : Text}
    (kept : file ∉ project.deleted) {target : Path}
    (placed : Path.place project.root file = .ok target) {failure : Failure}
    (failed : project.read file = .error failure) :
    (∃ fault, failure = .disk fault target none) ∨
      ∃ content, project.disk.file? target = some content ∧
        ∀ text, Utf8.decode content ≠ .ok text := by
  rw [read_of_unheld ready.tree kept (ready.unheld file), placed] at failed
  cases got : project.disk.readFile target with
  | error fault =>
    simp only [bind, Except.bind, onDisk, got, Except.error.injEq] at failed
    exact .inl ⟨fault, failed.symm⟩
  | ok content =>
    refine .inr ⟨content, ?_, fun text decoded => ?_⟩
    · exact (readFile_eq_ok_iff ready.tree (Path.isPlain_of_place placed)).mp got
    · simp [bind, Except.bind, onDisk, got, textOf, decoded] at failed

/-- What a delete comes to: the file is gone, or it was not there to delete. -/
inductive Removed (project : Project) (file : Text) : Except Failure Unit × Project → Prop where
  | done {target : Path} {content : Bytes} (placed : Path.place project.root file = .ok target)
      (found : project.disk.file? target = some content) :
      Removed project file
        (.ok (), (project.countDeleted file).withDisk (project.disk.erase target))
  | refused {failure : Failure} (absent : project.has file ≠ .ok true) :
      Removed project file (.error failure, project)

theorem removed_delete {project : Project} (ready : project.IsReal) (file : Text) :
    Removed project file (project.delete file) := by
  unfold delete
  cases asked : project.has file with
  | error failure => exact .refused (by simp [asked])
  | ok there =>
    cases there with
    | false => exact .refused (by simp [asked])
    | true =>
      obtain ⟨-, target, content, placed, found⟩ := (has_eq_true_iff ready).mp asked
      have node := Disk.file?_eq_some_iff.mp found
      have plain := Path.isPlain_of_place placed
      have erased : project.disk.remove target = .ok (project.disk.erase target) :=
        (Disk.remove_eq_ok_iff ready.tree.linkFree plain).mpr
          ⟨ready.tree.reaches (by simp [node]), ⟨content, node⟩, rfl⟩
      have located : (project.countDeleted file).locate file = .ok target :=
        (locate_eq_place ready.tree.linkFree file).trans placed
      have live : ¬ (project.countDeleted file).dryRun = true := by simp [countDeleted, ready.real]
      show Removed project file (if (project.countDeleted file).dryRun = true then _ else _)
      rw [if_neg live]
      show Removed project file (match (project.countDeleted file).locate file with
        | .error failure => _
        | .ok path => _)
      simp only [located, erased, onDisk]
      exact .done placed found

theorem Removed.root_eq {project later : Project} {file : Text} {result : Except Failure Unit}
    (removed : Removed project file (result, later)) : later.root = project.root := by
  cases removed <;> rfl

theorem Removed.files_of_done {project later : Project} {file : Text}
    (removed : Removed project file (.ok (), later)) :
    ∃ target, Path.place project.root file = .ok target ∧ later.disk.file? target = none ∧
      ∀ path, path ≠ target → later.disk.file? path = project.disk.file? path := by
  cases removed with
  | @done target content placed found =>
    have named : target ≠ [] := by
      rintro rfl
      simp [Disk.file?] at found
    refine ⟨target, placed, ?_, fun path other => ?_⟩
    · show (project.disk.erase target).file? target = none
      simp [Disk.file?, Disk.node?_erase_self _ named]
    · show (project.disk.erase target).file? path = project.disk.file? path
      simp [Disk.file?, Disk.node?_erase_of_ne _ other]

theorem Removed.isFolder_of_done {project later : Project} {file : Text}
    (removed : Removed project file (.ok (), later)) {path : Path}
    (isFolder : project.disk.node? path = some .folder) :
    later.disk.node? path = some .folder := by
  cases removed with
  | @done target content placed found =>
    show (project.disk.erase target).node? path = some .folder
    rw [Disk.node?_erase_of_ne _ ?_, isFolder]
    rintro rfl
    simp [Disk.file?_eq_some_iff.mp found] at isFolder

theorem Removed.isReal {project later : Project} {file : Text} {result : Except Failure Unit}
    (ready : project.IsReal) (removed : Removed project file (result, later)) : later.IsReal := by
  cases removed with
  | refused => exact ready
  | @done target content placed found =>
    have node := Disk.file?_eq_some_iff.mp found
    exact ⟨ready.real, by simp [countDeleted, withDisk, ready.direct],
      ready.tree.erase (by simp [node])⟩

end Project

end ReadOnlyViews
