import Mathlib.Data.List.Induction
import ReadOnlyViews.Project.Files

/-!
Disks without links.  A walk along plain names then ends where it points or not at all, so each
operation of the disk is an update of one location under a condition on the folders above it.  The
last part says what replacing a file does: one file changes, or none.
-/

namespace ReadOnlyViews

/-- A name that an entry of a folder can have. -/
structure Path.IsName (name : Name) : Prop where
  nonempty : name ≠ []
  notDot : name ≠ "."
  notDots : name ≠ ".."
  noSlash : '/' ∉ name
  noNul : '\x00' ∉ name

/-- A name is no segment that leaves a path where it is. -/
theorem Path.IsName.not_nil_or_dot {name : Name} (isName : Path.IsName name) :
    ¬ (name = [] ∨ name = ".") := by
  rintro (empty | dot)
  · exact isName.nonempty empty
  · exact isName.notDot dot

/-- A path that is written without dots. -/
def Path.IsPlain (path : Path) : Prop := ∀ name ∈ path, Path.IsName name

theorem Path.IsPlain.append {front back : Path} (plainFront : Path.IsPlain front)
    (plainBack : Path.IsPlain back) : Path.IsPlain (front ++ back) := by
  intro name member
  rcases List.mem_append.mp member with inFront | inBack
  · exact plainFront name inFront
  · exact plainBack name inBack

theorem Path.IsPlain.dropLast {path : Path} (plain : Path.IsPlain path) :
    Path.IsPlain path.dropLast :=
  fun name member => plain name (List.dropLast_subset path member)

namespace Disk

/-- No entry of the disk is a link. -/
def LinkFree (disk : Disk) : Prop := ∀ path target, disk.node? path ≠ some (.link target)

@[simp] theorem node?_nil (disk : Disk) : disk.node? [] = some .folder := rfl

theorem LinkFree.put {disk : Disk} (linkFree : LinkFree disk) (path : Path) {node : Node}
    (noLink : ∀ target, node ≠ .link target) : LinkFree (disk.put path node) := by
  intro other target found
  by_cases same : other = path
  · subst same
    by_cases top : other = []
    · simp [top] at found
    · rw [node?_put_self disk top] at found
      exact noLink target (Option.some.inj found)
  · rw [node?_put_of_ne disk same] at found
    exact linkFree other target found

theorem LinkFree.erase {disk : Disk} (linkFree : LinkFree disk) (path : Path) :
    LinkFree (disk.erase path) := by
  intro other target found
  by_cases same : other = path
  · subst same
    by_cases top : other = []
    · simp [top] at found
    · simp [node?_erase_self disk top] at found
  · rw [node?_erase_of_ne disk same] at found
    exact linkFree other target found

/-- The way from a location along names is open: it goes through folders, and no name is too
long. -/
def ReachesFrom (disk : Disk) : (here : Path) → List Name → Prop
  | _, [] => True
  | here, name :: rest =>
    disk.node? here = some .folder ∧ Utf8.size name ≤ nameLimit ∧
      ReachesFrom disk (here ++ [name]) rest

/-- The way to a path is open. -/
def Reaches (disk : Disk) (path : Path) : Prop := ReachesFrom disk [] path

private theorem reachesFrom_append {disk : Disk} {here : Path} {front back : List Name} :
    ReachesFrom disk here (front ++ back) ↔
      ReachesFrom disk here front ∧ ReachesFrom disk (here ++ front) back := by
  induction front generalizing here with
  | nil => simp [ReachesFrom]
  | cons name front ih => simp [ReachesFrom, ih, and_assoc]

theorem reaches_append_singleton {disk : Disk} {path : Path} {name : Name} :
    Reaches disk (path ++ [name]) ↔
      Reaches disk path ∧ disk.node? path = some .folder ∧ Utf8.size name ≤ nameLimit := by
  simp [Reaches, reachesFrom_append, ReachesFrom]

/-- The way stays open as long as no folder above the path disappears. -/
theorem Reaches.mono {disk later : Disk} {path : Path} (reaches : Reaches disk path)
    (kept : ∀ front name back, path = front ++ name :: back → disk.node? front = some .folder →
      later.node? front = some .folder) : Reaches later path := by
  induction path using List.reverseRecOn with
  | nil => trivial
  | append_singleton path name ih =>
    rw [reaches_append_singleton] at reaches ⊢
    obtain ⟨above, isFolder, short⟩ := reaches
    refine ⟨ih above ?_, kept path name [] rfl isFolder, short⟩
    intro front other back cut
    exact kept front other (back ++ [name]) (by simp [cut])

/-- One step of a stride along plain names, on a disk without links. -/
theorem stride_cons {disk : Disk} (linkFree : LinkFree disk) (last : Last) (here : Path)
    {name : Name} (isName : Path.IsName name) (rest : List Name) :
    disk.stride last here (name :: rest) =
      if disk.node? here ≠ some .folder then .refused .notFolder
      else if Utf8.size name > nameLimit then .refused .nameTooLong
      else if disk.node? (here ++ [name]) = none then
        if rest = [] ∧ last ≠ .existing then .arrived (here ++ [name]) else .refused .noSuchEntry
      else disk.stride last (here ++ [name]) rest := by
  rw [stride]
  simp only [isName.not_nil_or_dot, isName.notDots, if_false]
  cases found : disk.node? (here ++ [name]) with
  | none => simp
  | some node =>
    cases node with
    | link target => exact absurd found (linkFree _ target)
    | file _ => simp
    | folder => simp

/-- A stride along plain names arrives exactly when the way is open and what has to be there is
there. -/
theorem stride_eq_arrived_iff {disk : Disk} (linkFree : LinkFree disk) (last : Last) {here : Path}
    {names : List Name} (plain : Path.IsPlain names) {path : Path} :
    disk.stride last here names = .arrived path ↔
      path = here ++ names ∧ ReachesFrom disk here names ∧
        (last = .existing → names ≠ [] → disk.node? (here ++ names) ≠ none) := by
  induction names generalizing here with
  | nil => simp [stride, ReachesFrom, eq_comm]
  | cons name rest ih =>
    have plainRest : Path.IsPlain rest := fun other member => plain other (by simp [member])
    rw [stride_cons linkFree last here (plain name (by simp)) rest]
    by_cases atFolder : disk.node? here = some .folder
    case neg => simp [atFolder, ReachesFrom]
    by_cases short : Utf8.size name ≤ nameLimit
    case neg => simp [atFolder, ReachesFrom, short, Nat.lt_of_not_le short]
    simp only [atFolder, ReachesFrom, short, ne_eq, not_true_eq_false, if_false, gt_iff_lt,
      Nat.not_lt.mpr short, true_and]
    by_cases missing : disk.node? (here ++ [name]) = none
    · cases rest with
      | nil => cases last <;> simp [missing, ReachesFrom, eq_comm]
      | cons next rest => simp [missing, ReachesFrom]
    · rw [if_neg missing, ih plainRest]
      cases rest with
      | nil => simp [missing]
      | cons next rest => simp

theorem stride_ne_link {disk : Disk} (linkFree : LinkFree disk) (last : Last) {here there : Path}
    {names others : List Name} : disk.stride last here names ≠ .link there others := by
  fun_induction stride disk last here names
  case case3 ih | case4 ih | case10 ih => exact ih
  case case8 found _ | case9 found _ => exact absurd found (linkFree _ _)
  all_goals simp

theorem walk_eq {disk : Disk} (linkFree : LinkFree disk) (last : Last) (path : Path) :
    disk.walk last path = match disk.stride last [] path with
      | .refused fault => .error fault
      | .arrived location => .ok location
      | .link _ _ => .error .tooManyLinks := by
  rw [walk, walkFrom.eq_def]
  cases reached : disk.stride last [] path with
  | arrived location => simp [reached]
  | refused fault => simp [reached]
  | link here names => exact absurd reached (stride_ne_link linkFree last)

/-- On a disk without links a walk along plain names ends where it points, and it does so exactly
when the way is open. -/
theorem walk_eq_ok_iff {disk : Disk} (linkFree : LinkFree disk) (last : Last) {path : Path}
    (plain : Path.IsPlain path) {location : Path} :
    disk.walk last path = .ok location ↔
      location = path ∧ Reaches disk path ∧ (last = .existing → disk.node? path ≠ none) := by
  have arrives : disk.walk last path = .ok location ↔
      disk.stride last [] path = .arrived location := by
    rw [walk_eq linkFree]
    cases disk.stride last [] path <;> simp
  rw [arrives, stride_eq_arrived_iff linkFree last plain]
  by_cases top : path = []
  · simp [top, Reaches]
  · simp [top, Reaches]

/-- A walk to a place where nothing stands, along an open way, is told so. -/
theorem walk_existing_of_none {disk : Disk} (linkFree : LinkFree disk) {path : Path}
    (plain : Path.IsPlain path) (reaches : Reaches disk path) (missing : disk.node? path = none) :
    disk.walk .existing path = .error .noSuchEntry := by
  suffices ∀ here names, Path.IsPlain names → ReachesFrom disk here names →
      disk.node? (here ++ names) = none → names ≠ [] →
      disk.stride .existing here names = .refused .noSuchEntry by
    have named : path ≠ [] := by
      rintro rfl
      simp at missing
    rw [walk_eq linkFree, this [] path plain reaches missing named]
  intro here names
  induction names generalizing here with
  | nil => simp
  | cons name rest ih =>
    rintro plain ⟨isFolder, short, further⟩ missing -
    rw [stride_cons linkFree .existing here (plain name (by simp)) rest]
    simp only [isFolder, ne_eq, not_true_eq_false, if_false, gt_iff_lt, Nat.not_lt.mpr short]
    split
    · simp
    · rename_i present
      have goesOn : rest ≠ [] := by
        rintro rfl
        exact present missing
      exact ih _ (fun other member => plain other (by simp [member])) further
        (by simpa using missing) goesOn

theorem status_eq_ok_iff {disk : Disk} (linkFree : LinkFree disk) {path : Path}
    (plain : Path.IsPlain path) {node : Node} :
    disk.status path = .ok node ↔ Reaches disk path ∧ disk.node? path = some node := by
  cases walked : disk.walk .existing path with
  | error fault =>
    have blocked : ¬ (Reaches disk path ∧ disk.node? path = some node) := by
      rintro ⟨reaches, found⟩
      have arrives := (walk_eq_ok_iff linkFree .existing plain).mpr ⟨rfl, reaches, by simp [found]⟩
      simp [walked] at arrives
    simp [status, walked, bind, Except.bind, blocked]
  | ok location =>
    obtain ⟨rfl, reaches, present⟩ := (walk_eq_ok_iff linkFree .existing plain).mp walked
    cases found : disk.node? location with
    | none => exact absurd found (present rfl)
    | some other => simp [status, walked, bind, Except.bind, found, reaches]

/-- A test of what a path leads to passes when something that passes it stands there. -/
theorem leadsTo_eq_true_iff {disk : Disk} (linkFree : LinkFree disk) {path : Path}
    (plain : Path.IsPlain path) (test : Node → Bool) :
    disk.leadsTo test path = .ok true ↔
      Reaches disk path ∧ ∃ node, disk.node? path = some node ∧ test node = true := by
  cases asked : disk.status path with
  | error fault =>
    have nowhere : ¬ (Reaches disk path ∧ ∃ node, disk.node? path = some node ∧
        test node = true) := by
      rintro ⟨reaches, node, found, -⟩
      have answered := (status_eq_ok_iff linkFree plain).mpr ⟨reaches, found⟩
      simp [asked] at answered
    by_cases absent : fault.meansAbsent <;> simp [leadsTo, asked, absent, nowhere]
  | ok node =>
    obtain ⟨reaches, found⟩ := (status_eq_ok_iff linkFree plain).mp asked
    simp [leadsTo, asked, reaches, found]

theorem leadsTo_of_none {disk : Disk} (linkFree : LinkFree disk) {path : Path}
    (plain : Path.IsPlain path) (test : Node → Bool) (reaches : Reaches disk path)
    (missing : disk.node? path = none) : disk.leadsTo test path = .ok false := by
  have absent := walk_existing_of_none linkFree plain reaches missing
  simp [leadsTo, status, absent, bind, Except.bind, DiskFault.meansAbsent]

private theorem writeFile_eq_ok_iff {disk later : Disk} (linkFree : LinkFree disk) {path : Path}
    (plain : Path.IsPlain path) (content : Bytes) :
    disk.writeFile path content = .ok later ↔
      Reaches disk path ∧ disk.node? path ≠ some .folder ∧
        later = disk.put path (.file content) := by
  cases walked : disk.walk .creatable path with
  | error fault =>
    have blocked : ¬ Reaches disk path := by
      intro reaches
      have arrives := (walk_eq_ok_iff linkFree .creatable plain).mpr ⟨rfl, reaches, by simp⟩
      simp [walked] at arrives
    simp [writeFile, walked, bind, Except.bind, blocked]
  | ok location =>
    obtain ⟨rfl, reaches, -⟩ := (walk_eq_ok_iff linkFree .creatable plain).mp walked
    by_cases isFolder : disk.node? location = some .folder
    · simp [writeFile, walked, bind, Except.bind, isFolder]
    · simp [writeFile, walked, bind, Except.bind, isFolder, reaches, eq_comm]

private theorem walk_entry_of_reaches {disk : Disk} (linkFree : LinkFree disk) {path : Path}
    (plain : Path.IsPlain path) (reaches : Reaches disk path) :
    disk.walk .entry path = .ok path :=
  (walk_eq_ok_iff linkFree .entry plain).mpr ⟨rfl, reaches, by simp⟩

private theorem makeFolder_eq_ok_iff {disk later : Disk} (linkFree : LinkFree disk) {path : Path}
    (plain : Path.IsPlain path) :
    disk.makeFolder path = .ok later ↔
      Reaches disk path ∧ disk.node? path = none ∧ later = disk.put path .folder := by
  cases walked : disk.walk .entry path with
  | error fault =>
    have blocked : ¬ Reaches disk path := by
      intro reaches
      simp [walk_entry_of_reaches linkFree plain reaches] at walked
    simp [makeFolder, walked, bind, Except.bind, blocked]
  | ok location =>
    obtain ⟨rfl, reaches, -⟩ := (walk_eq_ok_iff linkFree .entry plain).mp walked
    cases found : disk.node? location with
    | none => simp [makeFolder, walked, bind, Except.bind, found, reaches, eq_comm]
    | some node => simp [makeFolder, walked, bind, Except.bind, found]

theorem remove_eq_ok_iff {disk later : Disk} (linkFree : LinkFree disk) {path : Path}
    (plain : Path.IsPlain path) :
    disk.remove path = .ok later ↔
      Reaches disk path ∧ (∃ content, disk.node? path = some (.file content)) ∧
        later = disk.erase path := by
  cases walked : disk.walk .entry path with
  | error fault =>
    have blocked : ¬ Reaches disk path := by
      intro reaches
      simp [walk_entry_of_reaches linkFree plain reaches] at walked
    simp [remove, walked, bind, Except.bind, blocked]
  | ok location =>
    obtain ⟨rfl, reaches, -⟩ := (walk_eq_ok_iff linkFree .entry plain).mp walked
    cases found : disk.node? location with
    | none => simp [remove, walked, bind, Except.bind, found]
    | some node =>
      cases node with
      | link target => exact absurd found (linkFree _ target)
      | folder => simp [remove, walked, bind, Except.bind, found]
      | file content => simp [remove, walked, bind, Except.bind, found, reaches, eq_comm]

/-- The later disk has the same files and the same folders, and beyond them only folders on the way
to a path. -/
def Grown (disk later : Disk) (path : Path) : Prop :=
  ∀ other, later.node? other = disk.node? other ∨
    (disk.node? other = none ∧ later.node? other = some .folder ∧ other <+: path ∧
      Reaches later other)

theorem Grown.refl (disk : Disk) (path : Path) : Grown disk disk path := fun _ => .inl rfl

theorem Grown.isFolder {disk later : Disk} {path other : Path} (grown : Grown disk later path)
    (isFolder : disk.node? other = some .folder) : later.node? other = some .folder := by
  rcases grown other with same | ⟨missing, -⟩
  · rw [same, isFolder]
  · simp [missing] at isFolder

theorem Grown.trans {first second third : Disk} {path further : Path}
    (grown : Grown first second path) (grownMore : Grown second third further)
    (below : path <+: further) : Grown first third further := by
  intro other
  rcases grown other with same | ⟨missing, made, onWay, reaches⟩
  · rw [← same]
    exact grownMore other
  · refine .inr ⟨missing, grownMore.isFolder made, onWay.trans below, reaches.mono ?_⟩
    intro front name back cut isFolder
    exact grownMore.isFolder isFolder

theorem Grown.linkFree {disk later : Disk} {path : Path} (grown : Grown disk later path)
    (linkFree : LinkFree disk) : LinkFree later := by
  intro other target found
  rcases grown other with same | ⟨-, made, -⟩
  · exact linkFree other target (same ▸ found)
  · simp [made] at found

/-- A location is on no way to itself, so a change there leaves the way open. -/
theorem Reaches.put {disk : Disk} {path : Path} (reaches : Reaches disk path) (node : Node) :
    Reaches (disk.put path node) path := by
  refine reaches.mono fun front name back cut isFolder => ?_
  have shorter : front ≠ path := by
    intro same
    have lengths := congrArg List.length cut
    simp [same] at lengths
  rw [node?_put_of_ne disk shorter, isFolder]

private theorem grown_put {disk : Disk} {path : Path} (reaches : Reaches disk path)
    (missing : disk.node? path = none) : Grown disk (disk.put path .folder) path := by
  intro other
  by_cases same : other = path
  · subst same
    have named : other ≠ [] := by
      rintro rfl
      simp at missing
    exact .inr ⟨missing, node?_put_self disk named _, List.prefix_refl _, reaches.put _⟩
  · exact .inl (node?_put_of_ne disk same _)

/-- What making folders comes to: every file and folder stays, and either the way to the folder is
open or the disk says why not. -/
def Paved (disk : Disk) (path : Path) (outcome : Except Failure Unit × Disk) : Prop :=
  Grown disk outcome.2 path ∧
    match outcome.1 with
    | .ok () => Reaches outcome.2 path ∧ outcome.2.node? path = some .folder
    | .error failure => ∃ fault place, failure = .disk fault place none

private theorem paved_settle {disk later : Disk} {path : Path} (grown : Grown disk later path)
    (linkFree : LinkFree later) (plain : Path.IsPlain path) (fault : DiskFault) :
    Paved disk path (match later.isFolder path with
      | .ok true => (.ok (), later)
      | .ok false => (.error (.disk fault path none), later)
      | .error other => (.error (.disk other path none), later)) := by
  split
  · rename_i standing
    obtain ⟨reaches, node, found, passes⟩ := (leadsTo_eq_true_iff linkFree plain _).mp standing
    obtain rfl : node = .folder := by simpa using passes
    exact ⟨grown, reaches, found⟩
  · exact ⟨grown, _, _, rfl⟩
  · exact ⟨grown, _, _, rfl⟩

private theorem paved_makeFolder {disk middle later : Disk} {path above : Path}
    (grown : Grown disk middle above) (below : above <+: path) (linkFree : LinkFree middle)
    (plain : Path.IsPlain path) (made : middle.makeFolder path = .ok later) :
    Paved disk path (.ok (), later) := by
  obtain ⟨reaches, missing, rfl⟩ := (makeFolder_eq_ok_iff linkFree plain).mp made
  have named : path ≠ [] := by
    rintro rfl
    simp at missing
  exact ⟨grown.trans (grown_put reaches missing) below, reaches.put _,
    node?_put_self middle named _⟩

theorem paved_makeFolders {disk : Disk} (linkFree : LinkFree disk) {reversed : List Name}
    (plain : Path.IsPlain reversed.reverse) :
    Paved disk reversed.reverse (disk.makeFolders reversed) := by
  induction reversed with
  | nil =>
    unfold makeFolders
    dsimp only
    split
    · exact paved_makeFolder (.refl _ _) (List.prefix_refl _) linkFree plain ‹_›
    · exact ⟨.refl _ _, _, _, rfl⟩
    · rename_i fault _ _
      exact paved_settle (.refl _ _) linkFree plain fault
  | cons name above ih =>
    have plainAbove : Path.IsPlain above.reverse :=
      fun other member => plain other (by simp_all)
    have below : above.reverse <+: (name :: above).reverse := by simp
    unfold makeFolders
    dsimp only
    split
    · exact paved_makeFolder (.refl _ _) (List.prefix_refl _) linkFree plain ‹_›
    · obtain ⟨grown, outcome⟩ := ih plainAbove
      cases made : disk.makeFolders above with
      | mk result middle =>
        simp only [made] at grown outcome ⊢
        have linkFreeMiddle := grown.linkFree linkFree
        have grownBelow : Grown disk middle (name :: above).reverse :=
          grown.trans (.refl _ _) below
        cases result with
        | error failure => exact ⟨grownBelow, outcome⟩
        | ok _ =>
          dsimp only
          split
          · exact paved_makeFolder grown below linkFreeMiddle plain ‹_›
          · exact ⟨grownBelow, _, _, rfl⟩
          · exact paved_settle grownBelow linkFreeMiddle plain _
    · exact paved_settle (.refl _ _) linkFree plain _

private theorem rename_eq_ok_iff {disk later : Disk} (linkFree : LinkFree disk) {source destination : Path}
    (plainSource : Path.IsPlain source) (plainDestination : Path.IsPlain destination)
    (different : source ≠ destination) :
    disk.rename source destination = .ok later ↔
      Reaches disk source ∧ Reaches disk destination ∧
        disk.node? destination ≠ some .folder ∧
        ∃ node, disk.node? source = some node ∧
          later = (disk.erase source).put destination node := by
  have blocked {path : Path} {fault : DiskFault} (plain : Path.IsPlain path)
      (walked : disk.walk .entry path = .error fault) : ¬ Reaches disk path := by
    intro reaches
    simp [walk_entry_of_reaches linkFree plain reaches] at walked
  cases walkedOld : disk.walk .entry source with
  | error fault => simp [rename, walkedOld, bind, Except.bind, blocked plainSource walkedOld]
  | ok old =>
    obtain ⟨rfl, reachesOld, -⟩ := (walk_eq_ok_iff linkFree .entry plainSource).mp walkedOld
    cases walkedNew : disk.walk .entry destination with
    | error fault =>
      simp [rename, walkedOld, walkedNew, bind, Except.bind, blocked plainDestination walkedNew]
    | ok new =>
      obtain ⟨rfl, reachesNew, -⟩ :=
        (walk_eq_ok_iff linkFree .entry plainDestination).mp walkedNew
      cases found : disk.node? old with
      | none => simp [rename, walkedOld, walkedNew, bind, Except.bind, found]
      | some node =>
        by_cases isFolder : disk.node? new = some .folder
        · simp [rename, walkedOld, walkedNew, bind, Except.bind, found, isFolder]
        · simp [rename, walkedOld, walkedNew, bind, Except.bind, found, isFolder, reachesOld,
            reachesNew, different, eq_comm]

theorem isPlain_temporary {target : Path} (plain : Path.IsPlain target) :
    Path.IsPlain (temporary target) := by
  refine plain.dropLast.append ?_
  intro name member
  obtain rfl := List.mem_singleton.mp member
  have inside : ∀ c, c ∈ target.getLast?.getD [] → c ≠ '/' ∧ c ≠ '\x00' := by
    intro c member
    cases last : target.getLast? with
    | none => simp [last] at member
    | some name =>
      rw [last] at member
      have isName := plain name (List.mem_of_getLast? last)
      exact ⟨fun same => isName.noSlash (same ▸ member), fun same => isName.noNul (same ▸ member)⟩
  have ends : 'p' ∈ target.getLast?.getD [] ++ ".viewbot-tmp".toList := by simp
  refine ⟨?_, ?_, ?_, ?_, ?_⟩
  · exact List.ne_nil_of_mem ends
  · intro same
    rw [same] at ends
    simp at ends
  · intro same
    rw [same] at ends
    simp at ends
  · intro slash
    rcases List.mem_append.mp slash with slash | slash
    · exact (inside _ slash).1 rfl
    · simp at slash
  · intro nul
    rcases List.mem_append.mp nul with nul | nul
    · exact (inside _ nul).2 rfl
    · simp at nul

theorem temporary_ne (target : Path) : temporary target ≠ target := by
  intro same
  cases last : target.getLast? with
  | none =>
    obtain rfl := List.getLast?_eq_none_iff.mp last
    simp [temporary] at same
  | some name =>
    obtain ⟨folder, rfl⟩ := List.getLast?_eq_some_iff.mp last
    simp [temporary] at same

/-- The later disk is the same, except that a file at one path may be gone. -/
def Shed (disk later : Disk) (path : Path) : Prop :=
  ∀ other, later.node? other = disk.node? other ∨
    (other = path ∧ (∃ old, disk.node? other = some (.file old)) ∧ later.node? other = none)

theorem Shed.refl (disk : Disk) (path : Path) : Shed disk disk path := fun _ => .inl rfl

theorem Shed.node?_eq {disk later : Disk} {path other : Path} (shed : Shed disk later path)
    (apart : other ≠ path) : later.node? other = disk.node? other := by
  rcases shed other with same | ⟨there, -⟩
  · exact same
  · exact absurd there apart

private theorem shed_erase {disk : Disk} {path : Path} (named : path ≠ []) {old : Bytes}
    (found : disk.node? path = some (.file old)) : Shed disk (disk.erase path) path := by
  intro other
  by_cases there : other = path
  · subst there
    exact .inr ⟨rfl, ⟨old, found⟩, node?_erase_self disk named⟩
  · exact .inl (node?_erase_of_ne disk there)

section Replacement

variable {disk : Disk} {target : Path} {content : Bytes}

/-- When the new content cannot be written beside the file, nothing changes. -/
private theorem replaceFile_unwritten (linkFree : LinkFree disk) (plain : Path.IsPlain target)
    {fault : DiskFault} (failed : disk.writeFile (temporary target) content = .error fault) :
    ∃ fault place onto later,
      disk.replaceFile target content = (.error (.disk fault place onto), later) ∧
        Shed disk later (temporary target) := by
  cases present : disk.isPresent (temporary target) with
  | error other =>
    exact ⟨other, _, _, _, by simp only [replaceFile, failed, present]; rfl, .refl _ _⟩
  | ok there =>
    cases there with
    | false =>
      exact ⟨fault, _, _, _, by simp only [replaceFile, failed, present]; rfl, .refl _ _⟩
    | true =>
      cases removed : disk.remove (temporary target) with
      | error other =>
        exact ⟨other, _, _, _, by simp only [replaceFile, failed, present, removed]; rfl,
          .refl _ _⟩
      | ok later =>
        obtain ⟨-, ⟨old, found⟩, rfl⟩ :=
          (remove_eq_ok_iff linkFree (isPlain_temporary plain)).mp removed
        exact ⟨fault, _, _, _, by simp only [replaceFile, failed, present, removed]; rfl,
          shed_erase (by simp [temporary]) found⟩

/-- What the temporary name held before the new content was written under it. -/
private theorem node?_temporary (linkFree : LinkFree disk)
    (notFolder : disk.node? (temporary target) ≠ some .folder) :
    disk.node? (temporary target) = none ∨
      ∃ old, disk.node? (temporary target) = some (.file old) := by
  cases found : disk.node? (temporary target) with
  | none => exact .inl rfl
  | some node =>
    cases node with
    | file old => exact .inr ⟨old, rfl⟩
    | folder => exact absurd found notFolder
    | link aim => exact absurd found (linkFree _ aim)

/-- When the new content cannot take the file's place, it goes away again. -/
private theorem replaceFile_unrenamed (linkFree : LinkFree disk) (plain : Path.IsPlain target)
    (reaches : Reaches disk (temporary target))
    (notFolder : disk.node? (temporary target) ≠ some .folder)
    (written : disk.writeFile (temporary target) content =
      .ok (disk.put (temporary target) (.file content)))
    {fault : DiskFault} (failed : (disk.put (temporary target) (.file content)).rename
      (temporary target) target = .error fault) :
    ∃ fault place onto later,
      disk.replaceFile target content = (.error (.disk fault place onto), later) ∧
        Shed disk later (temporary target) := by
  have plainTemp := isPlain_temporary plain
  have named : temporary target ≠ [] := by simp [temporary]
  have linkFreeMiddle : LinkFree (disk.put (temporary target) (.file content)) :=
    linkFree.put _ (by simp)
  have standing := node?_put_self disk named (.file content)
  have reachesMiddle := reaches.put (.file content)
  have present : (disk.put (temporary target) (.file content)).isPresent (temporary target) =
      .ok true :=
    (leadsTo_eq_true_iff linkFreeMiddle plainTemp _).mpr ⟨reachesMiddle, _, standing, rfl⟩
  have removed := (remove_eq_ok_iff linkFreeMiddle plainTemp).mpr
    ⟨reachesMiddle, ⟨_, standing⟩, rfl⟩
  refine ⟨fault, _, _, _, by simp only [replaceFile, written, failed, present, removed]; rfl, ?_⟩
  intro other
  by_cases there : other = temporary target
  · subst there
    rw [node?_erase_self _ named]
    rcases node?_temporary linkFree notFolder with missing | found
    · exact .inl missing.symm
    · exact .inr ⟨rfl, found, rfl⟩
  · exact .inl (by rw [node?_erase_of_ne _ there, node?_put_of_ne _ there])

/-- When the new content takes the file's place, the temporary name is free. -/
private theorem replaceFile_renamed (linkFree : LinkFree disk) (plain : Path.IsPlain target)
    (reachesTemp : Reaches disk (temporary target))
    (notFolder : disk.node? (temporary target) ≠ some .folder)
    (written : disk.writeFile (temporary target) content =
      .ok (disk.put (temporary target) (.file content)))
    {middle : Disk} (renamed : (disk.put (temporary target) (.file content)).rename
      (temporary target) target = .ok middle) :
    disk.replaceFile target content = (.ok (), middle) ∧ Reaches disk target ∧
      disk.node? target ≠ some .folder ∧
      Shed (disk.put target (.file content)) middle (temporary target) := by
  have plainTemp := isPlain_temporary plain
  have apart := temporary_ne target
  have named : temporary target ≠ [] := by simp [temporary]
  have linkFreeMiddle : LinkFree (disk.put (temporary target) (.file content)) :=
    linkFree.put _ (by simp)
  have standing := node?_put_self disk named (.file content)
  obtain ⟨-, reaches, targetNotFolder, node, found, rfl⟩ :=
    (rename_eq_ok_iff linkFreeMiddle plainTemp plain apart).mp renamed
  obtain rfl : .file content = node := Option.some.inj (standing.symm.trans found)
  rw [node?_put_of_ne _ apart.symm] at targetNotFolder
  have targetNamed : target ≠ [] := by
    rintro rfl
    simp at targetNotFolder
  have cleared : (((disk.put (temporary target) (.file content)).erase
      (temporary target)).put target (.file content)).node? (temporary target) = none := by
    rw [node?_put_of_ne _ apart, node?_erase_self _ named]
  have shed : Shed (disk.put target (.file content)) (((disk.put (temporary target)
      (.file content)).erase (temporary target)).put target (.file content))
      (temporary target) := by
    intro other
    by_cases there : other = temporary target
    · subst there
      rw [cleared, node?_put_of_ne _ apart]
      rcases node?_temporary linkFree notFolder with missing | old
      · exact .inl missing.symm
      · exact .inr ⟨rfl, old, rfl⟩
    · left
      by_cases atTarget : other = target
      · rw [atTarget, node?_put_self _ targetNamed, node?_put_self _ targetNamed]
      · rw [node?_put_of_ne _ atTarget, node?_put_of_ne _ atTarget, node?_erase_of_ne _ there,
          node?_put_of_ne _ there]
  have gone : (((disk.put (temporary target) (.file content)).erase
      (temporary target)).put target (.file content)).isPresent (temporary target) =
      .ok false := by
    refine leadsTo_of_none ((linkFreeMiddle.erase _).put _ (by simp)) plainTemp _ ?_ cleared
    refine reachesTemp.mono fun front name back cut isFolder => ?_
    rw [shed.node?_eq ?_, node?_put_of_ne _ ?_, isFolder]
    · rintro rfl
      exact targetNotFolder isFolder
    · rintro rfl
      have lengths := congrArg List.length cut
      simp at lengths
  refine ⟨by simp only [replaceFile, written, renamed, gone], ?_, targetNotFolder, shed⟩
  refine reaches.mono fun front name back cut isFolder => ?_
  rwa [node?_put_of_ne _ ?_] at isFolder
  rintro rfl
  simp [standing] at isFolder

/-- Replacing a file changes that file, or fails and changes nothing.  Either way a file that stood
under the temporary name beside it may be gone. -/
theorem replaceFile_cases (linkFree : LinkFree disk) (plain : Path.IsPlain target)
    (content : Bytes) :
    (∃ later, disk.replaceFile target content = (.ok (), later) ∧ Reaches disk target ∧
      disk.node? target ≠ some .folder ∧
      Shed (disk.put target (.file content)) later (temporary target)) ∨
    ∃ fault place onto later,
      disk.replaceFile target content = (.error (.disk fault place onto), later) ∧
        Shed disk later (temporary target) := by
  cases written : disk.writeFile (temporary target) content with
  | error fault => exact .inr (replaceFile_unwritten linkFree plain written)
  | ok middle =>
    obtain ⟨reaches, notFolder, rfl⟩ :=
      (writeFile_eq_ok_iff linkFree (isPlain_temporary plain) _).mp written
    cases renamed : (disk.put (temporary target) (.file content)).rename
        (temporary target) target with
    | error fault =>
      exact .inr (replaceFile_unrenamed linkFree plain reaches notFolder written renamed)
    | ok later =>
      exact .inl ⟨later, replaceFile_renamed linkFree plain reaches notFolder written renamed⟩

end Replacement

end Disk

end ReadOnlyViews
