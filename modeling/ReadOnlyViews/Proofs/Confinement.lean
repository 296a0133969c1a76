import ReadOnlyViews.Proofs.Locations

/-!
What a write and a delete can touch on a disk that has links.  The place that a path of a project
names lies below the project's root.  If no link is on the way to that place or stands under the
temporary name beside it, then whether the operation goes through or not, nothing changes but that
place and what stood under the temporary name, folders that are made on the way aside.  Both
conditions are needed: a link under the temporary name is written through, and behind a loop of links
the rest of a path is not resolved any more, so that a link on the way to the place can lead out of
the project.
-/

namespace ReadOnlyViews

namespace Disk

variable {disk later : Disk} {path : Path}

/-! ### Walks that meet no link -/

/-- No link is on the way to a location; one may stand at the location itself. -/
def Direct (disk : Disk) (path : Path) : Prop :=
  ∀ front, front <+: path → front ≠ path → ∀ aim, disk.node? front ≠ some (.link aim)

/-- No link stands at a location. -/
def Unlinked (disk : Disk) (path : Path) : Prop := ∀ aim, disk.node? path ≠ some (.link aim)

private theorem Direct.of_prefix {front : Path} (direct : disk.Direct path) (within : front <+: path) :
    disk.Direct front := by
  intro first before different
  refine direct first (before.trans within) ?_
  rintro rfl
  exact different (before.eq_of_length_le within.length_le)

private theorem Direct.of_folders (folders : ∀ n < path.length, disk.node? (path.take n) = some .folder) :
    disk.Direct path := by
  intro front within different aim
  have shorter : front.length < path.length := by
    refine Nat.lt_of_le_of_ne within.length_le fun same => different (within.eq_of_length same)
  rw [List.prefix_iff_eq_take.mp within, folders _ shorter]
  simp

/-- A stride along names ends where it points, or at a link there. -/
theorem stride_of_direct {last : Last} {here : Path} {names : List Name}
    (plain : Path.IsPlain names) (direct : disk.Direct (here ++ names)) :
    (∀ path, disk.stride last here names = .arrived path →
      path = here ++ names ∧ disk.ReachesFrom here names) ∧
    ∀ there rest, disk.stride last here names = .link there rest →
      last ≠ .entry ∧ ¬ disk.Unlinked (here ++ names) := by
  induction names generalizing here with
  | nil => simp [stride, ReachesFrom]
  | cons name rest ih =>
    have isName := plain name (by simp)
    have plainRest : Path.IsPlain rest := fun other member => plain other (by simp [member])
    have whole : here ++ name :: rest = here ++ [name] ++ rest := by simp
    rw [stride]
    by_cases atFolder : disk.node? here = some .folder
    case neg => simp [atFolder]
    by_cases short : Utf8.size name ≤ nameLimit
    case neg =>
      simp only [atFolder, ne_eq, not_true_eq_false, if_false, isName.not_nil_or_dot, isName.notDots, gt_iff_lt,
        Nat.lt_of_not_le short, if_true]
      simp
    simp only [atFolder, ne_eq, not_true_eq_false, if_false, isName.not_nil_or_dot, isName.notDots, gt_iff_lt,
      Nat.not_lt.mpr short, ReachesFrom, short, true_and]
    cases found : disk.node? (here ++ [name]) with
    | none =>
      by_cases ends : rest = [] ∧ last ≠ .existing
      · obtain ⟨rfl, creatable⟩ := ends
        simp [creatable, ReachesFrom, eq_comm]
      · simp [ends]
    | some node =>
      rw [whole] at direct ⊢
      cases node with
      | link aim =>
        -- a link is at the end of the way, or the way is not direct
        cases rest with
        | cons next rest =>
          refine absurd found (direct (here ++ [name]) (List.prefix_append _ _) ?_ aim)
          simp
        | nil =>
          rw [List.append_nil]
          dsimp only
          refine ⟨fun path arrived => ?_, fun there rest link => ?_⟩
          · split at arrived
            · cases arrived
              exact ⟨rfl, trivial⟩
            · cases arrived
          · split at link
            · cases link
            · rename_i follows
              exact ⟨fun entry => follows ⟨rfl, entry⟩, fun unlinked => unlinked aim found⟩
      | file content => exact ih plainRest direct
      | folder => exact ih plainRest direct

/-- A walk ends where it points, unless it has to follow a link there. -/
theorem walk_of_direct {last : Last} {location : Path} (plain : Path.IsPlain path)
    (direct : disk.Direct path) (taken : last = .entry ∨ disk.Unlinked path)
    (walked : disk.walk last path = .ok location) : location = path ∧ disk.Reaches path := by
  have stride := @stride_of_direct disk last [] path plain direct
  rw [walk, walkFrom.eq_def] at walked
  cases reached : disk.stride last [] path with
  | refused fault => simp [reached] at walked
  | arrived there =>
    obtain rfl : there = location := by simpa [reached] using walked
    exact stride.1 there reached
  | link here names =>
    obtain ⟨follows, linked⟩ := stride.2 here names reached
    rcases taken with entry | unlinked
    · exact absurd entry follows
    · exact absurd unlinked linked

/-- A walk along an open way to a file arrives. -/
theorem walk_of_reaches (last : Last) (plain : Path.IsPlain path) (reaches : disk.Reaches path)
    {content : Bytes} (found : disk.node? path = some (.file content)) :
    disk.walk last path = .ok path := by
  have arrives {here : Path} {names : List Name} (plain : Path.IsPlain names)
      (reaches : disk.ReachesFrom here names)
      (found : disk.node? (here ++ names) = some (.file content)) :
      disk.stride last here names = .arrived (here ++ names) := by
    induction names generalizing here with
    | nil => simp [stride]
    | cons name rest ih =>
      have isName := plain name (by simp)
      obtain ⟨atFolder, short, further⟩ := reaches
      have whole : here ++ name :: rest = here ++ [name] ++ rest := by simp
      rw [whole] at found ⊢
      have onward := ih (fun other member => plain other (by simp [member])) further found
      simp only [stride, atFolder, ne_eq, not_true_eq_false, if_false, isName.not_nil_or_dot, isName.notDots,
        gt_iff_lt, Nat.not_lt.mpr short]
      -- what is behind the name is a folder, or the file itself
      cases rest with
      | nil =>
        rw [List.append_nil] at found onward ⊢
        simp only [found]
        exact onward
      | cons next rest =>
        have between : disk.node? (here ++ [name]) = some .folder := further.1
        simp only [between]
        exact onward
  rw [walk, walkFrom.eq_def]
  simp only [arrives plain reaches found, List.nil_append]

/-! ### What each operation of the disk does -/

section Operations

variable (plain : Path.IsPlain path) (direct : disk.Direct path)

include plain direct

private theorem writeFile_of_direct {content : Bytes} (unlinked : disk.Unlinked path)
    (written : disk.writeFile path content = .ok later) :
    later = disk.put path (.file content) ∧ disk.Reaches path := by
  unfold writeFile at written
  cases walked : disk.walk .creatable path with
  | error fault => simp [walked, bind, Except.bind] at written
  | ok location =>
    obtain ⟨rfl, reaches⟩ := walk_of_direct plain direct (.inr unlinked) walked
    simp only [walked, bind, Except.bind] at written
    split at written
    · cases written
    · exact ⟨(Except.ok.inj written).symm, reaches⟩

private theorem makeFolder_of_direct (made : disk.makeFolder path = .ok later) :
    later = disk.put path .folder ∧ disk.node? path = none := by
  unfold makeFolder at made
  cases walked : disk.walk .entry path with
  | error fault => simp [walked, bind, Except.bind] at made
  | ok location =>
    obtain ⟨rfl, -⟩ := walk_of_direct plain direct (.inl rfl) walked
    simp only [walked, bind, Except.bind] at made
    split at made
    · cases made
    · rename_i missing
      exact ⟨(Except.ok.inj made).symm, by simpa using missing⟩

private theorem remove_of_direct (removed : disk.remove path = .ok later) :
    path ≠ [] ∧ later = disk.erase path := by
  unfold remove at removed
  cases walked : disk.walk .entry path with
  | error fault => simp [walked, bind, Except.bind] at removed
  | ok location =>
    obtain ⟨rfl, -⟩ := walk_of_direct plain direct (.inl rfl) walked
    simp only [walked, bind, Except.bind] at removed
    split at removed
    · cases removed
    · cases removed
    · rename_i notFolder found
      refine ⟨?_, (Except.ok.inj removed).symm⟩
      rintro rfl
      exact notFolder (Option.some.inj found).symm

private theorem rename_of_direct {source : Path} (plainSource : Path.IsPlain source)
    (directSource : disk.Direct source) (apart : source ≠ path)
    (renamed : disk.rename source path = .ok later) :
    ∃ node, disk.node? source = some node ∧ path ≠ [] ∧ later = (disk.erase source).put path node := by
  unfold rename at renamed
  cases walkedOld : disk.walk .entry source with
  | error fault => simp [walkedOld, bind, Except.bind] at renamed
  | ok old =>
    cases walkedNew : disk.walk .entry path with
    | error fault => simp [walkedOld, walkedNew, bind, Except.bind] at renamed
    | ok new =>
      obtain ⟨rfl, -⟩ := walk_of_direct plainSource directSource (.inl rfl) walkedOld
      obtain ⟨rfl, -⟩ := walk_of_direct plain direct (.inl rfl) walkedNew
      simp only [walkedOld, walkedNew, bind, Except.bind] at renamed
      split at renamed
      · cases renamed
      · rename_i node found
        split at renamed
        · cases renamed
        · rename_i notFolder
          refine ⟨node, found, ?_, (Except.ok.inj renamed).symm⟩
          rintro rfl
          simp at notFolder

end Operations

/-! ### Folders on the way -/

/-- The later disk holds all that the disk held, and beyond that only folders on the way to a
location. -/
def Extends (path : Path) (disk later : Disk) : Prop :=
  ∀ other, later.node? other = disk.node? other ∨
    (disk.node? other = none ∧ later.node? other = some .folder ∧ other <+: path)

theorem Extends.refl (path : Path) (disk : Disk) : Extends path disk disk := fun _ => .inl rfl

theorem Extends.trans {first second third : Disk} {further : Path}
    (front : Extends path first second) (back : Extends further second third)
    (below : path <+: further) : Extends further first third := by
  intro other
  rcases back other with same | ⟨missing, made, onWay⟩
  · rw [same]
    rcases front other with old | ⟨missing, made, onWay⟩
    · exact .inl old
    · exact .inr ⟨missing, made, onWay.trans below⟩
  · refine .inr ⟨?_, made, onWay⟩
    rcases front other with old | ⟨-, made, -⟩
    · rw [← old, missing]
    · simp [made] at missing

/-- Folders bring no links. -/
theorem Extends.direct {target : Path} (extends_ : Extends path disk later)
    (direct : disk.Direct target) : later.Direct target := by
  intro front within different aim found
  rcases extends_ front with same | ⟨-, made, -⟩
  · exact direct front within different aim (same ▸ found)
  · simp [made] at found

private theorem extends_makeFolder (plain : Path.IsPlain path) (direct : disk.Direct path)
    (made : disk.makeFolder path = .ok later) : Extends path disk later := by
  obtain ⟨rfl, missing⟩ := makeFolder_of_direct plain direct made
  intro other
  by_cases same : other = path
  · subst same
    have named : other ≠ [] := by
      rintro rfl
      simp at missing
    exact .inr ⟨missing, node?_put_self disk named _, List.prefix_refl _⟩
  · exact .inl (node?_put_of_ne disk same _)

/-- What making folders comes to, on any disk: the disk itself refuses, or there is no failure. -/
def Refuses (result : Except Failure Unit) : Prop :=
  ∀ failure, result = .error failure → ∃ fault place onto, failure = .disk fault place onto

private theorem refuses_ok : Refuses (.ok ()) := by
  rintro failure ⟨⟩

private theorem refuses_disk (fault : DiskFault) (place : Path) (onto : Option Path) :
    Refuses (.error (.disk fault place onto)) := by
  rintro failure ⟨⟩
  exact ⟨fault, place, onto, rfl⟩

theorem refuses_makeFolders (disk : Disk) (reversed : List Name) :
    Refuses (disk.makeFolders reversed).1 := by
  induction reversed generalizing disk with
  | nil =>
    unfold makeFolders
    dsimp only
    split
    · exact refuses_ok
    · exact refuses_disk _ _ _
    · split
      · exact refuses_ok
      · exact refuses_disk _ _ _
      · exact refuses_disk _ _ _
  | cons name above ih =>
    unfold makeFolders
    dsimp only
    split
    · exact refuses_ok
    · have outcome := ih disk
      split
      · rename_i made
        rw [made] at outcome
        exact outcome
      · split
        · exact refuses_ok
        · exact refuses_disk _ _ _
        · split
          · exact refuses_ok
          · exact refuses_disk _ _ _
          · exact refuses_disk _ _ _
    · split
      · exact refuses_ok
      · exact refuses_disk _ _ _
      · exact refuses_disk _ _ _

private theorem extends_makeFolders {reversed : List Name} (plain : Path.IsPlain reversed.reverse)
    (direct : disk.Direct reversed.reverse) :
    Extends reversed.reverse disk (disk.makeFolders reversed).2 := by
  induction reversed with
  | nil =>
    unfold makeFolders
    dsimp only
    split
    · exact extends_makeFolder plain direct ‹_›
    · exact .refl _ _
    · split <;> exact .refl _ _
  | cons name above ih =>
    have plainAbove : Path.IsPlain above.reverse :=
      fun other member => plain other (by simp_all)
    have below : above.reverse <+: (name :: above).reverse := by simp
    have paved := ih plainAbove (direct.of_prefix below)
    unfold makeFolders
    dsimp only
    split
    · exact extends_makeFolder plain direct ‹_›
    · split
      · rename_i made
        rw [made] at paved
        exact paved.trans (.refl _ _) below
      · rename_i middle made
        rw [made] at paved
        have pavedBelow : Extends (name :: above).reverse disk middle := paved.trans (.refl _ _) below
        split
        · exact paved.trans (extends_makeFolder plain (paved.direct direct) ‹_›) below
        · exact pavedBelow
        · split <;> exact pavedBelow
    · split <;> exact .refl _ _

/-! ### Replacing a file -/

/-- The first half of a replacement: the content is written under the temporary name and takes the
file's place, as far as the disk allows. -/
inductive Attempt (disk : Disk) (target : Path) (content : Bytes) : Except Failure Unit → Disk → Prop where
  | unwritten {fault : DiskFault}
      (failed : disk.writeFile (temporary target) content = .error fault) :
      Attempt disk target content (.error (.disk fault (temporary target) none)) disk
  | unrenamed {fault : DiskFault} {middle : Disk}
      (written : disk.writeFile (temporary target) content = .ok middle)
      (failed : middle.rename (temporary target) target = .error fault) :
      Attempt disk target content (.error (.disk fault (temporary target) (some target))) middle
  | renamed {middle later : Disk}
      (written : disk.writeFile (temporary target) content = .ok middle)
      (renamed : middle.rename (temporary target) target = .ok later) :
      Attempt disk target content (.ok ()) later

/-- The second half: what is left under the temporary name is removed. -/
inductive Cleared (disk : Disk) (temp : Path) (result : Except Failure Unit) :
    Except Failure Unit × Disk → Prop where
  | unknown {fault : DiskFault} (asked : disk.isPresent temp = .error fault) :
      Cleared disk temp result (.error (.disk fault temp none), disk)
  | absent (asked : disk.isPresent temp = .ok false) : Cleared disk temp result (result, disk)
  | stuck {fault : DiskFault} (failed : disk.remove temp = .error fault) :
      Cleared disk temp result (.error (.disk fault temp none), disk)
  | removed {later : Disk} (removed : disk.remove temp = .ok later) :
      Cleared disk temp result (result, later)

private theorem replaceFile_inv (disk : Disk) (target : Path) (content : Bytes) :
    ∃ result middle, Attempt disk target content result middle ∧
      Cleared middle (temporary target) result (disk.replaceFile target content) := by
  cases written : disk.writeFile (temporary target) content with
  | error fault =>
    refine ⟨_, _, .unwritten written, ?_⟩
    simp only [replaceFile, written]
    split
    · exact .unknown ‹_›
    · exact .absent ‹_›
    · split
      · exact .stuck ‹_›
      · exact .removed ‹_›
  | ok middle =>
    cases renamed : middle.rename (temporary target) target with
    | error fault =>
      refine ⟨_, _, .unrenamed written renamed, ?_⟩
      simp only [replaceFile, written, renamed]
      split
      · exact .unknown ‹_›
      · exact .absent ‹_›
      · split
        · exact .stuck ‹_›
        · exact .removed ‹_›
    | ok later =>
      refine ⟨_, _, .renamed written renamed, ?_⟩
      simp only [replaceFile, written, renamed]
      split
      · exact .unknown ‹_›
      · exact .absent ‹_›
      · split
        · exact .stuck ‹_›
        · exact .removed ‹_›

/-- Whatever keeps a file from being replaced, it is the disk that refuses. -/
theorem refuses_replaceFile (disk : Disk) (target : Path) (content : Bytes) :
    Refuses (disk.replaceFile target content).1 := by
  obtain ⟨result, middle, attempt, cleared⟩ := replaceFile_inv disk target content
  have refuses : Refuses result := by
    cases attempt with
    | unwritten => exact refuses_disk _ _ _
    | unrenamed => exact refuses_disk _ _ _
    | renamed => exact refuses_ok
  generalize disk.replaceFile target content = outcome at cleared
  cases cleared with
  | unknown => exact refuses_disk _ _ _
  | stuck => exact refuses_disk _ _ _
  | absent => exact refuses
  | removed => exact refuses

/-- The folders above the temporary name are those above the file. -/
theorem prefix_dropLast_of_prefix_temporary {target front : Path} (within : front <+: temporary target)
    (different : front ≠ temporary target) : front <+: target.dropLast := by
  rcases List.prefix_concat_iff.mp within with whole | above
  · exact absurd whole different
  · exact above

private theorem eq_nil_of_prefix_dropLast {target front : Path} (above : front <+: target.dropLast)
    (same : front = target) : front = [] := by
  have shorter := above.length_le
  rw [List.length_dropLast, ← same] at shorter
  exact List.length_eq_zero_iff.mp (by omega)

private theorem direct_temporary {target : Path} (direct : disk.Direct target) :
    disk.Direct (temporary target) := by
  intro front within different aim
  have above := prefix_dropLast_of_prefix_temporary within different
  by_cases same : front = target
  · rw [eq_nil_of_prefix_dropLast above same]
    simp
  · exact direct front (above.trans (List.dropLast_prefix target)) same aim

/-- What stands under the temporary name is present once the content is written there, and can be
removed. -/
theorem remove_temporary {target : Path} {content : Bytes} (plain : Path.IsPlain target)
    (reaches : disk.Reaches (temporary target)) :
    (disk.put (temporary target) (.file content)).isPresent (temporary target) = .ok true ∧
      (disk.put (temporary target) (.file content)).remove (temporary target) =
        .ok ((disk.put (temporary target) (.file content)).erase (temporary target)) := by
  have named : temporary target ≠ [] := by simp [temporary]
  have found := node?_put_self disk named (.file content)
  have walked (last : Last) := walk_of_reaches last (isPlain_temporary plain)
    (reaches.put (.file content)) found
  constructor
  · simp [isPresent, leadsTo, status, walked, bind, Except.bind, found]
  · simp [remove, walked, bind, Except.bind, found]

/-- A place other than a target, and other than what stands under the temporary name beside it. -/
def Apart (disk : Disk) (target other : Path) : Prop :=
  other ≠ target ∧ (other = temporary target → disk.node? other = none)

/-- A disk agrees with another one beside a target and what stands under its temporary name. -/
def AgreesBeside (target : Path) (disk later : Disk) : Prop :=
  ∀ other, other ≠ target → other ≠ temporary target → later.node? other = disk.node? other

/-- Erasing the temporary name leaves it vacant if it was. -/
theorem AgreesBeside.node?_erase {target other : Path} (agrees : AgreesBeside target disk later)
    (apart : disk.Apart target other) :
    (later.erase (temporary target)).node? other = disk.node? other := by
  by_cases atTemp : other = temporary target
  · rw [apart.2 atTemp, atTemp, node?_erase_self _ (by simp [temporary])]
  · rw [node?_erase_of_ne _ atTemp, agrees other apart.1 atTemp]

private theorem Direct.put_file {place : Path} (direct : disk.Direct path) (named : place ≠ [])
    (content : Bytes) : (disk.put place (.file content)).Direct path := by
  intro front within different aim
  by_cases here : front = place
  · rw [here, node?_put_self _ named]
    simp
  · rw [node?_put_of_ne _ here]
    exact direct front within different aim

/-- The disk once a content has been written under the temporary name of a target and has taken the
target's place. -/
def moved (disk : Disk) (target : Path) (content : Bytes) : Disk :=
  ((disk.put (temporary target) (.file content)).erase (temporary target)).put target (.file content)

private theorem agreesBeside_moved (disk : Disk) (target : Path) (content : Bytes) :
    AgreesBeside target disk (disk.moved target content) := by
  intro other apart atTemp
  rw [moved, node?_put_of_ne _ apart, node?_erase_of_ne _ atTemp, node?_put_of_ne _ atTemp]

private theorem node?_moved {target other : Path} (content : Bytes) (apart : disk.Apart target other) :
    (disk.moved target content).node? other = disk.node? other := by
  by_cases atTemp : other = temporary target
  · rw [moved, node?_put_of_ne _ apart.1, apart.2 atTemp, atTemp,
      node?_erase_self _ (by simp [temporary])]
  · exact agreesBeside_moved disk target content other apart.1 atTemp

private theorem direct_moved {target : Path} (direct : disk.Direct target) (content : Bytes) :
    (disk.moved target content).Direct (temporary target) := by
  intro front within different aim
  by_cases atTarget : front = target
  · have above := prefix_dropLast_of_prefix_temporary within different
    rw [eq_nil_of_prefix_dropLast above atTarget]
    simp
  · rw [agreesBeside_moved disk target content front atTarget different]
    exact direct_temporary direct front within different aim

/-- If no link stands under the temporary name or is on the way, replacing a file changes nothing but
that file and what stands under the temporary name; the file has the new content if nothing fails. -/
theorem node?_replaceFile {target : Path} {content : Bytes} (plain : Path.IsPlain target)
    (direct : disk.Direct target) (unlinked : disk.Unlinked (temporary target)) :
    (∀ other, disk.Apart target other →
      (disk.replaceFile target content).2.node? other = disk.node? other) ∧
    ((disk.replaceFile target content).1 = .ok () →
      (disk.replaceFile target content).2.node? target = some (.file content)) := by
  have plainTemp := isPlain_temporary plain
  have directTemp := direct_temporary direct
  have named : temporary target ≠ [] := by simp [temporary]
  obtain ⟨result, middle, attempt, cleared⟩ := replaceFile_inv disk target content
  generalize disk.replaceFile target content = outcome at cleared
  cases attempt with
  | unwritten =>
    cases cleared with
    | unknown | absent | stuck => exact ⟨fun _ _ => rfl, by rintro ⟨⟩⟩
    | removed removed =>
      obtain ⟨-, rfl⟩ := remove_of_direct plainTemp directTemp removed
      have agrees : AgreesBeside target disk disk := fun _ _ _ => rfl
      exact ⟨fun _ => agrees.node?_erase, by rintro ⟨⟩⟩
  | unrenamed written failed =>
    obtain ⟨rfl, reaches⟩ := writeFile_of_direct plainTemp directTemp unlinked written
    obtain ⟨present, removes⟩ := @remove_temporary disk target content plain reaches
    cases cleared with
    | unknown asked => cases present.symm.trans asked
    | absent asked => cases present.symm.trans asked
    | stuck failed => cases removes.symm.trans failed
    | removed removed =>
      obtain rfl := Except.ok.inj (removes.symm.trans removed)
      have agrees : AgreesBeside target disk (disk.put (temporary target) (.file content)) :=
        fun other _ atTemp => node?_put_of_ne disk atTemp _
      exact ⟨fun _ => agrees.node?_erase, by rintro ⟨⟩⟩
  | renamed written renamed =>
    obtain ⟨rfl, -⟩ := writeFile_of_direct plainTemp directTemp unlinked written
    obtain ⟨node, found, targetNamed, rfl⟩ := rename_of_direct plain (direct.put_file named content)
      plainTemp (directTemp.put_file named content) (temporary_ne target) renamed
    obtain rfl := Option.some.inj ((node?_put_self disk named _).symm.trans found)
    cases cleared with
    | unknown | absent | stuck =>
      exact ⟨fun _ => node?_moved content, fun _ => node?_put_self _ targetNamed _⟩
    | removed removed =>
      obtain ⟨-, rfl⟩ := remove_of_direct plainTemp (direct_moved direct content) removed
      refine ⟨fun _ => (agreesBeside_moved disk target content).node?_erase, fun _ => ?_⟩
      rw [node?_erase_of_ne _ (temporary_ne target).symm]
      exact node?_put_self _ targetNamed _

end Disk

/-! ### The place that a path names -/

/-- A path of names that lead on: none is empty, a dot or two, and none has a slash in it. -/
def Path.IsNeat (path : Path) : Prop :=
  ∀ name ∈ path, name ≠ [] ∧ name ≠ "." ∧ name ≠ ".." ∧ '/' ∉ name

private theorem Path.isNeat_nil : Path.IsNeat [] := fun _ member => nomatch member

theorem Path.IsNeat.step {path : Path} {name : Name} (neat : path.IsNeat) (noSlash : '/' ∉ name) :
    (Path.step path name).IsNeat := by
  unfold Path.step
  split
  · exact neat
  · rename_i noDot
    split
    · exact fun other member => neat other (List.dropLast_subset path member)
    · rename_i notDots
      intro other member
      rcases List.mem_append.mp member with inPath | last
      · exact neat other inPath
      · obtain rfl := List.mem_singleton.mp last
        exact ⟨fun empty => noDot (.inl empty), fun dot => noDot (.inr dot), notDots, noSlash⟩

theorem Path.IsNeat.foldl_step {names : List Name} (noSlash : ∀ name ∈ names, '/' ∉ name)
    {path : Path} (neat : path.IsNeat) : (names.foldl Path.step path).IsNeat := by
  induction names generalizing path with
  | nil => exact neat
  | cons name names ih =>
    exact ih (fun other member => noSlash other (by simp [member]))
      (neat.step (noSlash name (by simp)))

namespace Disk

variable {disk : Disk}

/-- What a resolution still has to do, and where it knows links to lead: to neat places. -/
structure Orderly (met : MetLinks) (todo : List Todo) : Prop where
  known : ∀ link target, met.lookup link = some (some target) → target.IsNeat
  noSlash : ∀ name ∈ namesOf todo, '/' ∉ name

theorem Orderly.settle {met : MetLinks} {link here : Path} {rest : List Todo}
    (orderly : Orderly met (.settled link :: rest)) (neat : here.IsNeat) :
    Orderly ((link, some here) :: met) rest := by
  refine ⟨fun other target found => ?_, orderly.noSlash⟩
  rw [List.lookup_cons] at found
  split at found
  · cases found
    exact neat
  · exact orderly.known other target found

/-- A resolution got to a neat place, or to a link from which it can go on. -/
def Resolved.IsNeat : Resolved → Prop
  | .at path => path.IsNeat
  | .nul => True
  | .link here there _ met rest => here.IsNeat ∧ there.IsNeat ∧ Orderly met rest

/-- A resolution up to the next link keeps to neat places. -/
theorem isNeat_resolveStride {met : MetLinks} {here : Path} {todo : List Todo}
    (orderly : Orderly met todo) (neat : here.IsNeat) :
    (disk.resolveStride met here todo).IsNeat := by
  induction todo generalizing met here with
  | nil => exact neat
  | cons next rest ih =>
    cases next with
    | settled link => exact ih (orderly.settle neat) neat
    | name name =>
      have noSlash : '/' ∉ name := orderly.noSlash name (by simp [namesOf])
      have later : Orderly met rest :=
        ⟨orderly.known, fun other member => orderly.noSlash other (by simp [namesOf, member])⟩
      rw [resolveStride]
      split
      · exact ih later neat
      · rename_i noDot
        split
        · exact ih later fun other member => neat other (List.dropLast_subset here member)
        · rename_i notDots
          split
          · trivial
          · have enters : Path.step here name = here ++ [name] := by
              rw [Path.step, if_neg noDot, if_neg notDots]
            have neatThere : (here ++ [name]).IsNeat := enters ▸ neat.step noSlash
            dsimp only
            split
            · split
              · rename_i found
                exact ih later (orderly.known _ _ found)
              · exact neatThere.foldl_step later.noSlash
              · exact ⟨neat, neatThere, later⟩
            · exact ih later neatThere

private theorem namesOf_append_settled (names : List Name) (link : Path) (rest : List Todo) :
    namesOf (names.map .name ++ .settled link :: rest) = names ++ namesOf rest := by
  induction names with
  | nil => rfl
  | cons name names ih => simp [namesOf, ih]

private theorem isNeat_of_resolveFrom {links : Nat} {met : MetLinks} {here path : Path} {todo : List Todo}
    (orderly : Orderly met todo) (neat : here.IsNeat)
    (resolved : disk.resolveFrom links met here todo = .ok path) : path.IsNeat := by
  have reached := @isNeat_resolveStride disk _ _ _ orderly neat
  rw [resolveFrom.eq_def] at resolved
  cases stride : disk.resolveStride met here todo with
  | «at» there =>
    rw [stride] at reached
    obtain rfl : there = path := by simpa [stride] using resolved
    exact reached
  | nul => simp [stride] at resolved
  | link here link target met rest =>
    rw [stride] at reached
    obtain ⟨neatHere, neatLink, later⟩ := reached
    simp only [stride] at resolved
    cases links with
    | zero => exact Except.ok.inj resolved ▸ neatLink
    | succ links =>
      refine isNeat_of_resolveFrom ⟨fun other known found => ?_, fun name member => ?_⟩ ?_ resolved
      · rw [List.lookup_cons] at found
        split at found
        · cases found
        · exact later.known other known found
      · rw [namesOf_append_settled, List.mem_append] at member
        rcases member with ofTarget | behind
        · exact Text.notMem_of_mem_pieces ofTarget
        · exact later.noSlash name behind
      · split
        · exact Path.isNeat_nil
        · exact neatHere
termination_by links

/-- The location that a written path names is a plain one, whatever links are on the way. -/
theorem isPlain_of_resolve {folder path : Path} {raw : Text} (plain : folder.IsPlain)
    (resolved : disk.resolve folder raw = .ok path) : path.IsPlain := by
  have neat : folder.IsNeat := fun name member =>
    ⟨(plain name member).nonempty, (plain name member).notDot, (plain name member).notDots,
      (plain name member).noSlash⟩
  have listed (names : List Name) : namesOf (names.map .name) = names := by
    induction names with
    | nil => rfl
    | cons name names ih => simp [namesOf, ih]
  have orderly : Orderly [] ((Path.segments raw).map .name) := by
    refine ⟨fun _ _ found => (nomatch found), fun name member => ?_⟩
    rw [listed] at member
    exact Text.notMem_of_mem_pieces member
  unfold resolve at resolved
  dsimp only at resolved
  cases found : disk.resolveFrom disk.entries.length [] (if Path.isAbsolute raw then [] else folder)
      ((Path.segments raw).map .name) with
  | error failure => simp [found, bind, Except.bind] at resolved
  | ok there =>
    have neatThere := isNeat_of_resolveFrom orderly (by split <;> [exact Path.isNeat_nil; exact neat])
      found
    simp only [found, bind, Except.bind] at resolved
    split at resolved
    · cases resolved
    · rename_i clean
      obtain rfl : there = path := by
        split at resolved
        · cases resolved
        · exact Except.ok.inj resolved
      intro name member
      obtain ⟨nonempty, notDot, notDots, noSlash⟩ := neatThere name member
      refine ⟨nonempty, notDot, notDots, noSlash, fun nul => clean ?_⟩
      exact List.any_eq_true.mpr ⟨name, member, by simpa using nul⟩

end Disk

/-- The place of a path of a project lies below the root and is a plain one. -/
theorem Project.exists_base_of_locate {project : Project} {file : Text} {target : Path}
    (located : project.locate file = .ok target) :
    target.IsPlain ∧ ∃ base, project.disk.resolve [] project.root.text = .ok base ∧ base <+: target := by
  unfold locate Disk.resolveWithin at located
  cases based : project.disk.resolve [] project.root.text with
  | error failure => simp [based, bind, Except.bind] at located
  | ok base =>
    have plainBase : base.IsPlain :=
      Disk.isPlain_of_resolve (fun _ member => absurd member List.not_mem_nil) based
    cases found : project.disk.resolve base file with
    | error failure => simp [based, found, bind, Except.bind] at located
    | ok there =>
      simp only [based, found, bind, Except.bind] at located
      split at located
      · rename_i within
        obtain rfl := Except.ok.inj located
        exact ⟨Disk.isPlain_of_resolve plainBase found, base, rfl,
          List.isPrefixOf_iff_prefix.mp within⟩
      · cases located

/-! ### Writes and deletes -/

/-- Nothing but a target, and what stood under its temporary name, is different on a later disk,
folders on the way to the target aside. -/
def Disk.ChangesOnly (target : Path) (disk later : Disk) : Prop :=
  ∀ other, disk.Apart target other → later.node? other = disk.node? other ∨
    (disk.node? other = none ∧ later.node? other = some .folder ∧ other <+: target)

namespace Project

/-- A write that finds a place for its file, with no link on the way or under the temporary name,
changes only that place and what stood under the temporary name. -/
theorem changesOnly_write {project : Project} (real : project.dryRun = false) {file : Text}
    (text : Text) {target : Path} (located : project.locate file = .ok target)
    (direct : project.disk.Direct target)
    (unlinked : project.disk.Unlinked (Disk.temporary target)) :
    Disk.ChangesOnly target project.disk (project.write file text).2.disk ∧
      ((project.write file text).1 = .ok () →
        (project.write file text).2.disk.node? target = some (.file (Utf8.encode text))) := by
  have plain := (exists_base_of_locate located).1
  have located' : (project.countWritten file text).locate file = .ok target := located
  have onWay {other : Path} (above : other <+: target.dropLast) : other <+: target :=
    above.trans (List.dropLast_prefix target)
  have paved : Disk.Extends target.dropLast.reverse.reverse project.disk _ :=
    Disk.extends_makeFolders (by simpa using plain.dropLast)
      (by simpa using direct.of_prefix (List.dropLast_prefix target))
  rw [List.reverse_reverse] at paved
  rw [write_of_real real, located']
  dsimp only
  cases made : project.disk.makeFolders target.dropLast.reverse with
  | mk result middle =>
    rw [made] at paved
    have within : Disk.ChangesOnly target project.disk middle := fun other _ =>
      (paved other).imp_right fun ⟨missing, new, above⟩ => ⟨missing, new, onWay above⟩
    cases result with
    | error failure => exact ⟨within, by rintro ⟨⟩⟩
    | ok _ =>
      -- no folder on the way to the target has the temporary name
      have sameTemp : middle.node? (Disk.temporary target) =
          project.disk.node? (Disk.temporary target) := by
        rcases paved (Disk.temporary target) with same | ⟨-, -, above⟩
        · exact same
        · have shorter := above.length_le
          simp only [Disk.temporary, List.length_append, List.length_singleton] at shorter
          omega
      obtain ⟨others, done⟩ := @Disk.node?_replaceFile middle target (Utf8.encode text) plain
        (paved.direct direct) (fun aim => sameTemp ▸ unlinked aim)
      refine ⟨fun other apart => ?_, done⟩
      have apartStill : middle.Apart target other :=
        ⟨apart.1, fun atTemp => by rw [← apart.2 atTemp, atTemp, sameTemp]⟩
      show (middle.replaceFile target (Utf8.encode text)).2.node? other = _ ∨ _ ∧
        (middle.replaceFile target (Utf8.encode text)).2.node? other = _ ∧ _
      rw [others other apartStill]
      exact within other apart

/-- What a delete comes to: it is refused with the disk as it is, or takes away what stands at the
file's place. -/
theorem delete_inv {project : Project} (real : project.dryRun = false) (file : Text) :
    (∃ failure, (project.delete file).1 = .error failure) ∧
        (project.delete file).2.disk = project.disk ∨
      ∃ target disk, project.locate file = .ok target ∧ project.disk.remove target = .ok disk ∧
        (project.delete file).2.disk = disk := by
  unfold delete
  split
  · exact .inl ⟨⟨_, rfl⟩, rfl⟩
  · exact .inl ⟨⟨_, rfl⟩, rfl⟩
  · dsimp only
    split
    · rename_i dry
      rw [real] at dry
      cases dry
    · split
      · exact .inl ⟨⟨_, rfl⟩, rfl⟩
      · rename_i target located
        cases removed : project.disk.remove target with
        | error fault => exact .inl ⟨⟨.disk fault target none, rfl⟩, rfl⟩
        | ok disk => exact .inr ⟨target, disk, located, removed, rfl⟩

/-- A delete that finds a place for its file, with no link on the way, changes only that place. -/
theorem node?_delete {project : Project} (real : project.dryRun = false) {file : Text}
    {target : Path} (located : project.locate file = .ok target)
    (direct : project.disk.Direct target) :
    (∀ other, other ≠ target → (project.delete file).2.disk.node? other = project.disk.node? other) ∧
      ((project.delete file).1 = .ok () → (project.delete file).2.disk.node? target = none) := by
  have plain := (exists_base_of_locate located).1
  rcases delete_inv real file with ⟨⟨failure, failed⟩, same⟩ | ⟨there, disk, again, removed, left⟩
  · refine ⟨fun other _ => by rw [same], fun done => ?_⟩
    cases failed.symm.trans done
  · obtain rfl := Except.ok.inj (located.symm.trans again)
    obtain ⟨named, rfl⟩ := Disk.remove_of_direct plain direct removed
    rw [left]
    exact ⟨fun other apart => Disk.node?_erase_of_ne _ apart, fun _ => Disk.node?_erase_self _ named⟩

/-- A write without a place for its file leaves the disk as it is. -/
theorem disk_write_of_error {project : Project} (real : project.dryRun = false) {file : Text}
    (text : Text) {failure : Failure} (nowhere : project.locate file = .error failure) :
    (project.write file text).2.disk = project.disk := by
  have nowhere' : (project.countWritten file text).locate file = .error failure := nowhere
  rw [write_of_real real, nowhere']
  rfl

/-- Writes and deletes stay on their target, whatever links and files there are on the disk, and
whether they succeed or fail.  A path that names no place of the project changes nothing.  Otherwise
the place lies below the root; and if no link is on the way to it, a delete changes nothing but that
place.  So does a write, folders on the way and what stood under the temporary name aside, as long as
that is no link. -/
theorem write_delete_confined {project : Project} (real : project.dryRun = false) (file text : Text) :
    (∀ failure, project.locate file = .error failure →
      (project.write file text).2.disk = project.disk ∧
        (project.delete file).2.disk = project.disk) ∧
    ∀ target, project.locate file = .ok target →
      (∃ base, project.disk.resolve [] project.root.text = .ok base ∧ base <+: target) ∧
      (project.disk.Direct target →
        (project.disk.Unlinked (Disk.temporary target) →
          Disk.ChangesOnly target project.disk (project.write file text).2.disk ∧
          ((project.write file text).1 = .ok () →
            (project.write file text).2.disk.node? target = some (.file (Utf8.encode text)))) ∧
        (∀ other, other ≠ target →
          (project.delete file).2.disk.node? other = project.disk.node? other) ∧
        ((project.delete file).1 = .ok () →
          (project.delete file).2.disk.node? target = none)) := by
  refine ⟨fun failure nowhere => ⟨disk_write_of_error real text nowhere, ?_⟩, fun target located => ?_⟩
  · rcases delete_inv real file with ⟨-, same⟩ | ⟨there, disk, located, -⟩
    · exact same
    · cases nowhere.symm.trans located
  · refine ⟨(exists_base_of_locate located).2, fun direct => ⟨fun unlinked => ?_, ?_⟩⟩
    · exact changesOnly_write real text located direct unlinked
    · exact node?_delete real located direct

/-- A disk with a project's folder, a file beside it, and some more. -/
def neighbourDisk (more : List (Path × Node)) : Disk where
  entries := [
    (["w".toList], .folder),
    (["o".toList], .folder),
    (["o".toList, "x".toList], .file [0x62])] ++ more

/-- A project on such a disk. -/
def neighbour (more : List (Path × Node)) : Project :=
  { root := ["w".toList], disk := neighbourDisk more }

/-- A file that is named through a link is written and deleted at the place behind the link. -/
theorem write_delete_confined_through_link :
    let project := neighbour [(["w".toList, "d".toList], .folder),
      (["w".toList, "d".toList, "x".toList], .file [0x61]), (["w".toList, "l".toList], .link "d".toList)]
    let target : Path := ["w".toList, "d".toList, "x".toList]
    project.locate "l/x" = .ok target ∧ project.disk.Direct target ∧
      (project.write "l/x" "new").2.disk.node? target = some (.file (Utf8.encode "new")) ∧
      Disk.ChangesOnly target project.disk (project.write "l/x" "new").2.disk ∧
      (project.delete "l/x").2.disk.node? target = none := by
  intro project target
  have located : project.locate "l/x" = .ok target := by decide +kernel
  have direct : project.disk.Direct target := .of_folders (by decide +kernel)
  have vacant : project.disk.node? (Disk.temporary target) = none := by decide +kernel
  obtain ⟨onWrite, -, onDelete⟩ :=
    ((@write_delete_confined project rfl "l/x" "new").2 target located).2 direct
  obtain ⟨changes, holds⟩ := onWrite (fun aim => by simp [vacant])
  exact ⟨located, direct, holds (by decide +kernel), changes, onDelete (by decide +kernel)⟩

/-- A link under the temporary name is written through: the file beside the project is overwritten.
Behind a link that leads back to itself the rest of a path is taken as it is written: the file beside
the project is deleted through a link on the way. -/
theorem neighbour_overwritten_and_deleted :
    ((neighbour [(["w".toList, "a.viewbot-tmp".toList], .link "../o/x".toList)]).write "a" "n").2.disk.node?
        ["o".toList, "x".toList] = some (.file [0x6e]) ∧
      ((neighbour [(["w".toList, "l".toList], .link "l".toList),
          (["w".toList, "d".toList], .link "../o".toList)]).delete "l/../d/x").2.disk.node?
        ["o".toList, "x".toList] = none := by
  decide +kernel

end Project

end ReadOnlyViews
