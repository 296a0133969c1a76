import ReadOnlyViews.Proofs.Encoding
import ReadOnlyViews.Proofs.Listing
import ReadOnlyViews.Proofs.RunSteps
import ReadOnlyViews.Proofs.TableCleanup

/-!
What the steps of a run do to the changelogs of views.  A step leaves the files alone, or writes one
file, or deletes one; which file that is follows from its path.  So a view's changelogs stay as they
are until one is made for a view that has none, and the lines of the master that spell the path of a
changelog stay until it is registered for the first time.
-/

namespace ReadOnlyViews

namespace Run

variable {scope : Scope} {run later : Run}

/-- What a step does to the files, those under temporary names aside. -/
inductive Change (scope : Scope) (run later : Run) : Prop where
  | nothing
      (others : ∀ path, ¬ Path.IsTemporary path →
        later.project.disk.file? path = run.project.disk.file? path) : Change scope run later
  | edit {file before : Text} {conversion : Conversion} {asked : Java.AskedNames}
      {converted : ReadOnly.Converted} {target : Path} (allowed : scope.edits file conversion)
      (placed : Path.place run.project.root file = .ok target)
      (read : run.project.read file = .ok before)
      (made : conversion asked before = .ok converted)
      (content : later.project.disk.file? target = some (Utf8.encode converted.text))
      (others : ∀ path, path ≠ target → ¬ Path.IsTemporary path →
        later.project.disk.file? path = run.project.disk.file? path) : Change scope run later
  | generation {file text : Text} {target : Path}
      (allowed : scope.generates run.project file text)
      (placed : Path.place run.project.root file = .ok target)
      (content : later.project.disk.file? target = some (Utf8.encode text))
      (others : ∀ path, path ≠ target → ¬ Path.IsTemporary path →
        later.project.disk.file? path = run.project.disk.file? path) : Change scope run later
  | deletion {file : Text} {target : Path} (allowed : scope.deletes file)
      (placed : Path.place run.project.root file = .ok target)
      (content : later.project.disk.file? target = none)
      (others : ∀ path, path ≠ target →
        later.project.disk.file? path = run.project.disk.file? path) : Change scope run later

private theorem file?_of_not_isTemporary {disk earlier : Disk} {path : Path}
    (files : disk.file? path = earlier.file? path ∨
      (Path.IsTemporary path ∧ disk.file? path = none))
    (permanent : ¬ Path.IsTemporary path) : disk.file? path = earlier.file? path := by
  rcases files with same | ⟨temporary, -⟩
  · exact same
  · exact absurd temporary permanent

theorem Step.change (ready : run.project.IsReal) (step : Step scope run later) :
    Change scope run later := by
  cases step with
  | said | named | blamed | drew | loaded | asked => exact .nothing fun _ _ => rfl
  | @edited entity file before conversion converted project allowed read made changes written =>
    have outcome := Project.written_write ready file converted.text
    rw [written] at outcome
    obtain ⟨target, placed, content, others⟩ := outcome.files_of_done
    exact .edit allowed placed read made content fun path other permanent =>
      file?_of_not_isTemporary (others path other) permanent
  | @generated file content d project allowed written told =>
    have outcome := Project.written_write ready file content
    rw [written] at outcome
    obtain ⟨target, placed, holds, others⟩ := outcome.files_of_done
    exact .generation allowed placed holds fun path other permanent =>
      file?_of_not_isTemporary (others path other) permanent
  | @deleted file d project allowed erased told =>
    have outcome := Project.removed_delete ready file
    rw [erased] at outcome
    obtain ⟨target, placed, gone, others⟩ := outcome.files_of_done
    exact .deletion allowed placed gone others
  | @refusedEdit file text conversion failure project allowed refused =>
    have outcome := Project.written_write ready file text
    rw [refused] at outcome
    exact .nothing fun path => file?_of_not_isTemporary (outcome.files_of_error path)
  | @refusedSource file content failure project allowed refused =>
    have outcome := Project.written_write ready file content
    rw [refused] at outcome
    exact .nothing fun path => file?_of_not_isTemporary (outcome.files_of_error path)
  | @refusedDelete file failure project allowed refused =>
    have outcome := Project.removed_delete ready file
    rw [refused] at outcome
    cases outcome
    exact .nothing fun _ _ => rfl

/-- A run goes on in the project where it started, and counts as deleted only what it may delete. -/
theorem Step.project (ready : run.project.IsReal) (step : Step scope run later) :
    later.project.IsReal ∧ later.project.root = run.project.root ∧
      ∀ file ∈ later.project.deleted, file ∈ run.project.deleted ∨ scope.deletes file := by
  have wrote {file text : Text} {result : Except Failure Unit} {project : Project}
      (wrote : run.project.write file text = (result, project)) :
      project.IsReal ∧ project.root = run.project.root ∧
        ∀ file ∈ project.deleted, file ∈ run.project.deleted ∨ scope.deletes file := by
    have outcome := Project.written_write ready file text
    rw [wrote] at outcome
    refine ⟨outcome.isReal ready, outcome.root_eq, fun other member => .inl ?_⟩
    cases outcome <;> exact (List.mem_filter.mp member).1
  have erased {file : Text} {result : Except Failure Unit} {project : Project}
      (allowed : scope.deletes file) (erased : run.project.delete file = (result, project)) :
      project.IsReal ∧ project.root = run.project.root ∧
        ∀ file ∈ project.deleted, file ∈ run.project.deleted ∨ scope.deletes file := by
    have outcome := Project.removed_delete ready file
    rw [erased] at outcome
    refine ⟨outcome.isReal ready, outcome.root_eq, fun other member => ?_⟩
    cases outcome with
    | refused => exact .inl member
    | done placed found =>
      simp only [Project.withDisk, Project.countDeleted] at member
      split at member
      · exact .inl member
      · rcases List.mem_append.mp member with old | new
        · exact .inl old
        · exact .inr (List.mem_singleton.mp new ▸ allowed)
  cases step with
  | said | named | blamed | drew | loaded | asked =>
    exact ⟨ready, rfl, fun _ member => .inl member⟩
  | edited allowed read made changes written => exact wrote written
  | generated allowed written told => exact wrote written
  | deleted allowed gone told => exact erased allowed gone
  | refusedEdit allowed refused => exact wrote refused
  | refusedSource allowed refused => exact wrote refused
  | refusedDelete allowed refused => exact erased allowed refused

/-! ### Where the files of a run lie -/

/-- A name that stands for itself in a path and in a quoted attribute. -/
structure Spelled (name : Text) : Prop where
  isName : Path.IsName name
  noQuote : '"' ∉ name
  noLineFeed : '\n' ∉ name

/-- A file name is that of a changelog of some view. -/
def IsViewChangelog (name : Name) : Prop :=
  ∃ view stamp, Spelled view ∧ Changelog.stampOf? view name = some stamp

private theorem isName_of_stamp {stamp rest : Text} (isStamp : Changelog.IsStamp stamp)
    (noSlash : '/' ∉ rest) (noNul : '\x00' ∉ rest) : Path.IsName (stamp ++ rest) := by
  have long := isStamp.long
  have others : ∀ c, isDecimal c = false → c ∉ stamp := by
    intro c ends member
    rw [isStamp.digits c member] at ends
    cases ends
  have apart (other : Text) (short : other.length < 14) : stamp ++ rest ≠ other := by
    intro same
    have length := congrArg List.length same
    rw [List.length_append] at length
    omega
  refine ⟨apart [] (by decide), apart ".".toList (by decide), apart "..".toList (by decide), ?_, ?_⟩
  · simp [noSlash, others '/' rfl]
  · simp [noNul, others '\x00' rfl]

theorem IsViewChangelog.isName {name : Name} (ofView : IsViewChangelog name) : Path.IsName name := by
  obtain ⟨view, stamp, spelled, stamped⟩ := ofView
  have isStamp := (Changelog.stampOf?_eq_some_iff.mp stamped).1
  obtain ⟨rest, rfl⟩ := Changelog.exists_of_stampOf? stamped
  have noSlash := Changelog.notMem_of_stampOf? stamped spelled.isName.noSlash rfl (by decide)
    (by decide) (by decide)
  have noNul := Changelog.notMem_of_stampOf? stamped spelled.isName.noNul rfl (by decide)
    (by decide) (by decide)
  exact isName_of_stamp isStamp (fun member => noSlash (List.mem_append_right _ member))
    fun member => noNul (List.mem_append_right _ member)

theorem IsViewChangelog.noQuote {name : Name} (ofView : IsViewChangelog name) : '"' ∉ name := by
  obtain ⟨view, stamp, spelled, stamped⟩ := ofView
  exact Changelog.notMem_of_stampOf? stamped spelled.noQuote rfl (by decide) (by decide) (by decide)

private theorem head?_of_stamp {stamp rest : Text} (isStamp : Changelog.IsStamp stamp) {c : Char}
    (first : (stamp ++ rest).head? = some c) : isDecimal c = true := by
  cases stamp with
  | nil => exact absurd isStamp.long (by simp)
  | cons d stamp =>
    obtain rfl : d = c := by simpa using first
    exact isStamp.digits d (by simp)

private theorem IsViewChangelog.isDecimal_head {name : Name} (ofView : IsViewChangelog name) {c : Char}
    (first : name.head? = some c) : isDecimal c = true := by
  obtain ⟨view, stamp, spelled, stamped⟩ := ofView
  have isStamp := (Changelog.stampOf?_eq_some_iff.mp stamped).1
  obtain ⟨rest, rfl⟩ := Changelog.exists_of_stampOf? stamped
  exact head?_of_stamp isStamp first

theorem IsViewChangelog.getLast? {name : Name} (ofView : IsViewChangelog name) :
    name.getLast? = some 'l' ∨ name.getLast? = some '\n' := by
  obtain ⟨view, stamp, -, stamped⟩ := ofView
  exact Changelog.getLast?_of_stampOf? stamped

private theorem IsViewChangelog.ne_of_getLast? {name last : Name} (ofView : IsViewChangelog name) {c : Char}
    (ends : last.getLast? = some c) (letter : c ≠ 'l') (feed : c ≠ '\n') : name ≠ last := by
  rintro rfl
  rcases ofView.getLast? with mine | mine
  · exact letter (Option.some.inj (ends.symm.trans mine))
  · exact feed (Option.some.inj (ends.symm.trans mine))

theorem IsViewChangelog.notTemporary {name : Name} (ofView : IsViewChangelog name) (folder : Path) :
    ¬ Path.IsTemporary (folder ++ [name]) := by
  rintro ⟨above, start, same⟩
  have names : name = start ++ ".viewbot-tmp".toList :=
    List.singleton_inj.mp (List.append_inj' same rfl).2
  have ends : name.getLast? = some 'p' := by
    rw [names]
    simp
  rcases ofView.getLast? with letter | feed
  · rw [ends] at letter
    cases letter
  · rw [ends] at feed
    cases feed

/-- Where a layout has its changelogs and its master. -/
structure Site (layout : Layout) (root folder master : Path) : Prop where
  folderPlaced : Path.place root layout.changelogFolder = .ok folder
  masterPlaced : Path.place root layout.masterChangelog = .ok master

theorem changelogFolder_eq (layout : Layout) : layout.changelogFolder =
    layout.mainResources ++ "/config/liquibase".toList ++ '/' :: "changelog".toList := by
  simp only [Layout.changelogFolder, Layout.inResources, Text.join, List.append_assoc]
  rfl

theorem masterChangelog_eq (layout : Layout) : layout.masterChangelog =
    layout.mainResources ++ "/config/liquibase".toList ++ '/' :: "master.xml".toList := by
  simp only [Layout.masterChangelog, Layout.inResources, Text.join, List.append_assoc]
  rfl

private theorem applicationYml_eq (layout : Layout) : layout.applicationYml =
    layout.mainResources ++ "/config".toList ++ '/' :: "application.yml".toList := by
  simp only [Layout.applicationYml, Layout.inResources, Text.join, List.append_assoc]
  rfl

private theorem exists_of_place_master {layout : Layout} {root target : Path}
    (placed : Path.place root layout.masterChangelog = .ok target) :
    ∃ above, target = above ++ ["master.xml".toList] := by
  rw [masterChangelog_eq] at placed
  exact Path.exists_eq_append_name_of_place (by simp) (by decide) placed

private theorem exists_of_place_yml {layout : Layout} {root target : Path}
    (placed : Path.place root layout.applicationYml = .ok target) :
    ∃ above, target = above ++ ["application.yml".toList] := by
  rw [applicationYml_eq] at placed
  exact Path.exists_eq_append_name_of_place (by simp) (by decide) placed

section

variable {options : RunOptions} {entities : List Entity} {root folder master target : Path}
  {file : Text} {name : Name}

private theorem eq_of_append_eq {above folder : Path} {one other : Name}
    (same : above ++ [one] = folder ++ [other]) : one = other :=
  List.singleton_inj.mp (List.append_inj' same rfl).2

/-- No edit of a run is one of a view's changelog. -/
theorem Edits.target_ne_changelog {conversion : Conversion}
    (allowed : Edits options entities file conversion) (placed : Path.place root file = .ok target)
    (ofView : IsViewChangelog name) : target ≠ folder ++ [name] := by
  rintro rfl
  rcases allowed.file_cases with java | rfl | rfl
  · obtain ⟨above, last, same, ends⟩ := Path.getLast?_of_place java (by decide) (by decide) placed
    exact ofView.ne_of_getLast? ends (by decide) (by decide) (eq_of_append_eq same)
  · obtain ⟨above, same⟩ := exists_of_place_master placed
    obtain rfl := eq_of_append_eq same
    exact absurd (ofView.isDecimal_head rfl) (by decide)
  · obtain ⟨above, same⟩ := exists_of_place_yml placed
    obtain rfl := eq_of_append_eq same
    exact absurd (ofView.isDecimal_head rfl) (by decide)

/-- The changelog of a table lies under its name in the folder of changelogs. -/
theorem isName_of_isTable {entityClass : Text} (isName : Path.IsName entityClass)
    (ofTable : Changelog.isTable entityClass name ∨ Changelog.isConstraints entityClass name) :
    Path.IsName name := by
  obtain ⟨stamp, rest, rfl, isStamp, letters⟩ := Changelog.exists_of_isTable ofTable
  have absent {c : Char} (notIn : c ∉ entityClass)
      (other : c ∉ "_added_entity_constraints_.xml\n".toList) : c ∉ '_' :: 'a' :: rest := by
    intro member
    apply other
    rcases List.mem_cons.mp member with rfl | member
    · decide
    rcases List.mem_cons.mp member with rfl | member
    · decide
    rcases letters c member with inClass | inRest
    · exact absurd inClass notIn
    · exact List.mem_cons_of_mem _ (List.mem_cons_of_mem _ inRest)
  exact isName_of_stamp isStamp (absent isName.noSlash (by decide)) (absent isName.noNul (by decide))

theorem changelogFolder_ne_nil (layout : Layout) : layout.changelogFolder ≠ [] := by
  rw [changelogFolder_eq]
  simp

/-- No delete of a run is one of a view's changelog. -/
theorem Deletes.target_ne_changelog (classes : ∀ entity ∈ entities, Spelled entity.className)
    (folderPlaced : Path.place root options.layout.changelogFolder = .ok folder)
    (allowed : Deletes options entities file) (placed : Path.place root file = .ok target)
    (ofView : IsViewChangelog name) : target ≠ folder ++ [name] := by
  rintro rfl
  rcases allowed.file_cases with sample | ⟨entity, member, deleted, rfl, ofTable⟩
  · obtain ⟨above, last, same, ends⟩ := Path.getLast?_of_place sample (by decide) (by decide) placed
    exact ofView.ne_of_getLast? ends (by decide) (by decide) (eq_of_append_eq same)
  · have isName := isName_of_isTable (classes entity member).isName ofTable
    have there := Path.place_append_name (changelogFolder_ne_nil _) isName folderPlaced
    obtain rfl := eq_of_append_eq (Except.ok.inj (there.symm.trans placed))
    obtain ⟨view, stamp, -, stamped⟩ := ofView
    rw [Changelog.stampOf?_of_isTable ofTable view] at stamped
    cases stamped

/-- What a run generates is a Java source or the changelog of a view, which lies under its name in
the folder of changelogs. -/
theorem Generates.target_cases {project : Project} {text : Text}
    (tables : ∀ entity ∈ entities, Spelled entity.table)
    (folderPlaced : Path.place root options.layout.changelogFolder = .ok folder)
    (allowed : Generates options entities project file text)
    (placed : Path.place root file = .ok target) :
    (∃ above last, target = above ++ [last] ∧ last.getLast? = some 'a') ∨
      ∃ entity ∈ entities, ∃ existing clock later drawn stamp,
        target = folder ++ [drawn] ∧ IsViewChangelog drawn ∧
        project.list options.layout.changelogFolder = .ok existing ∧
        Changelog.nextView existing entity.table clock = (.ok (drawn, stamp), later) := by
  rcases allowed.file_cases with java | ⟨entity, member, existing, clock, later, drawn, stamp, rfl,
    listed, next⟩
  · exact .inl (Path.getLast?_of_place java (by decide) (by decide) placed)
  · obtain ⟨stamped, -⟩ := Changelog.nextView_cases next
    have ofView : IsViewChangelog drawn := ⟨entity.table, stamp, tables entity member, stamped⟩
    have there := Path.place_append_name (changelogFolder_ne_nil _) ofView.isName folderPlaced
    exact .inr ⟨entity, member, existing, clock, later, drawn, stamp,
      Except.ok.inj (placed.symm.trans there), ofView, listed, next⟩

/-- A location that ends like this is not the master's. -/
private theorem ne_master_of_getLast? (masterPlaced :
      Path.place root options.layout.masterChangelog = .ok master) {above : Path} {last : Name}
    {c : Char} (ends : last.getLast? = some c) (other : c ≠ 'l') : above ++ [last] ≠ master := by
  rintro rfl
  obtain ⟨_, same⟩ := exists_of_place_master masterPlaced
  rw [eq_of_append_eq same] at ends
  exact other (Option.some.inj ends).symm

private theorem ne_master_of_isDecimal (masterPlaced :
      Path.place root options.layout.masterChangelog = .ok master) {above : Path} {last : Name}
    (digit : ∀ c, last.head? = some c → isDecimal c = true) : above ++ [last] ≠ master := by
  rintro rfl
  obtain ⟨_, same⟩ := exists_of_place_master masterPlaced
  rw [eq_of_append_eq same] at digit
  exact absurd (digit 'm' rfl) (by decide)

/-- Only a registration and a removal of table includes edit the master. -/
theorem Edits.master_cases {conversion : Conversion}
    (masterPlaced : Path.place root options.layout.masterChangelog = .ok master)
    (allowed : Edits options entities file conversion)
    (placed : Path.place root file = .ok target) :
    target ≠ master ∨ file = options.layout.masterChangelog ∧
      ((∃ entity ∈ entities, ∃ existing clock later name stamp,
          Changelog.nextView existing entity.table clock = (.ok (name, stamp), later) ∧
          conversion = .single "master include" (Changelog.register name)) ∨
        ∃ entity ∈ entities, conversion =
          .single "table includes" (Changelog.removeTableIncludes entity.className)) := by
  cases allowed with
  | @source entity kind member =>
    have java := getLast?_sourceFile options.layout entity kind
    obtain ⟨above, last, rfl, ends⟩ := Path.getLast?_of_place java (by decide) (by decide) placed
    exact .inl (ne_master_of_getLast? masterPlaced ends (by decide))
  | @registration entity existing clock later name stamp member drawn =>
    exact .inr ⟨rfl, .inl ⟨entity, member, existing, clock, later, name, stamp, drawn, rfl⟩⟩
  | @cleanup entity member => exact .inr ⟨rfl, .inr ⟨entity, member, rfl⟩⟩
  | settings settings =>
    obtain ⟨above, rfl⟩ := exists_of_place_yml placed
    obtain ⟨_, rfl⟩ := exists_of_place_master masterPlaced
    exact .inl fun same => absurd (eq_of_append_eq same) (by decide)

private theorem Deletes.target_ne_master (classes : ∀ entity ∈ entities, Spelled entity.className)
    (masterPlaced : Path.place root options.layout.masterChangelog = .ok master)
    (allowed : Deletes options entities file) (placed : Path.place root file = .ok target) :
    target ≠ master := by
  rcases allowed.file_cases with sample | ⟨entity, member, deleted, rfl, ofTable⟩
  · obtain ⟨above, last, rfl, ends⟩ := Path.getLast?_of_place sample (by decide) (by decide) placed
    exact ne_master_of_getLast? masterPlaced ends (by decide)
  · have isName := isName_of_isTable (classes entity member).isName ofTable
    obtain ⟨above, rfl⟩ :=
      Path.exists_eq_append_name_of_place (changelogFolder_ne_nil _) isName placed
    refine ne_master_of_isDecimal masterPlaced fun c first => ?_
    obtain ⟨stamp, rest, rfl, isStamp, -⟩ := Changelog.exists_of_isTable ofTable
    exact head?_of_stamp isStamp first

private theorem Generates.target_ne_master {project : Project} {text : Text}
    (tables : ∀ entity ∈ entities, Spelled entity.table)
    (site : Site options.layout root folder master)
    (allowed : Generates options entities project file text)
    (placed : Path.place root file = .ok target) : target ≠ master := by
  rcases allowed.target_cases tables site.folderPlaced placed with
    ⟨above, last, rfl, ends⟩ | ⟨-, -, -, -, -, drawn, -, rfl, ofView, -⟩
  · exact ne_master_of_getLast? site.masterPlaced ends (by decide)
  · exact ne_master_of_isDecimal site.masterPlaced fun _ => ofView.isDecimal_head

private theorem notTemporary_of_place_master
    (masterPlaced : Path.place root options.layout.masterChangelog = .ok master) :
    ¬ Path.IsTemporary master := by
  rintro ⟨above, start, rfl⟩
  obtain ⟨_, same⟩ := exists_of_place_master masterPlaced
  have ends := congrArg List.getLast? (eq_of_append_eq same)
  simp at ends

/-- A run deletes nothing under the path of a view's changelog. -/
theorem Deletes.ne_changelog (allowed : Deletes options entities file)
    (ofView : IsViewChangelog name) : file ≠ options.layout.changelogFolder ++ '/' :: name := by
  rintro rfl
  rcases allowed.file_cases with sample | ⟨entity, -, deleted, same, ofTable⟩
  · have nonempty := ofView.isName.nonempty
    rw [List.getLast?_append_of_ne_nil _ (by simp), ← List.singleton_append,
      List.getLast?_append_of_ne_nil _ nonempty] at sample
    rcases ofView.getLast? with letter | feed
    · cases letter.symm.trans sample
    · cases feed.symm.trans sample
  · obtain ⟨-, rfl⟩ := List.cons.inj (List.append_cancel_left same)
    obtain ⟨view, stamp, -, stamped⟩ := ofView
    rw [Changelog.stampOf?_of_isTable ofTable view] at stamped
    cases stamped

/-- A run does not delete its master. -/
theorem Deletes.ne_master (allowed : Deletes options entities file) :
    file ≠ options.layout.masterChangelog := by
  rintro rfl
  rcases allowed.file_cases with sample | ⟨entity, -, deleted, same, -⟩
  · cases (getLast?_masterChangelog _).symm.trans sample
  · rw [masterChangelog_eq, changelogFolder_eq] at same
    simp only [List.append_assoc] at same
    cases List.append_cancel_left (List.append_cancel_left same)

end

/-! ### The changelogs of a view -/

/-- A folder holds a changelog of a view. -/
def Holds (disk : Disk) (folder : Path) (view : Text) (name : Name) : Prop :=
  Changelog.stampOf? view name ≠ none ∧ ∃ content, disk.file? (folder ++ [name]) = some content

/-- A view's changelogs stay, or it gets its only one. -/
def Settles (folder : Path) (view : Text) (disk later : Disk) : Prop :=
  (∀ name, Holds later folder view name ↔ Holds disk folder view name) ∨
    ((∀ name, ¬ Holds disk folder view name) ∧
      ∃ name, ∀ other, Holds later folder view other ↔ other = name)

theorem Settles.refl (folder : Path) (view : Text) (disk : Disk) : Settles folder view disk disk :=
  .inl fun _ => .rfl

theorem Settles.trans {folder : Path} {view : Text} {first second third : Disk}
    (front : Settles folder view first second) (back : Settles folder view second third) :
    Settles folder view first third := by
  rcases front with same | ⟨none, name, only⟩
  · rcases back with again | ⟨none, made⟩
    · exact .inl fun name => (again name).trans (same name)
    · exact .inr ⟨fun name holds => none name ((same name).mpr holds), made⟩
  · rcases back with again | ⟨empty, -⟩
    · exact .inr ⟨none, name, fun other => (again other).trans (only other)⟩
    · exact absurd ((only name).mpr rfl) (empty name)

/-- A view that has a changelog keeps what it has. -/
theorem Settles.holds_iff {folder : Path} {view : Text} {disk later : Disk}
    (settles : Settles folder view disk later) {name : Name} (holds : Holds disk folder view name)
    (other : Name) : Holds later folder view other ↔ Holds disk folder view other := by
  rcases settles with same | ⟨none, -⟩
  · exact same other
  · exact absurd holds (none name)

/-- A view that had no changelog has one at most. -/
theorem Settles.unique {folder : Path} {view : Text} {disk later : Disk}
    (settles : Settles folder view disk later) (none : ∀ name, ¬ Holds disk folder view name)
    {name other : Name} (holds : Holds later folder view name)
    (again : Holds later folder view other) : name = other := by
  rcases settles with same | ⟨-, only, isOnly⟩
  · exact absurd ((same name).mp holds) (none name)
  · exact ((isOnly name).mp holds).trans ((isOnly other).mp again).symm

/-- The project writes to a tree, and what it counts as deleted a run was allowed to delete. -/
structure Sound (options : RunOptions) (entities : List Entity) (root : Path) (project : Project) :
    Prop where
  ready : project.IsReal
  sameRoot : project.root = root
  gone : ∀ file ∈ project.deleted, Deletes options entities file

variable {options : RunOptions} {entities : List Entity} {root folder master : Path}

theorem Sound.steps (sound : Sound options entities root run.project)
    (steps : Steps (scopeOf options entities) run later) : Sound options entities root later.project := by
  induction steps with
  | refl => exact sound
  | tail _ step ih =>
    obtain ⟨ready, sameRoot, gone⟩ := step.project ih.ready
    refine ⟨ready, sameRoot.trans ih.sameRoot, fun file member => ?_⟩
    rcases gone file member with old | allowed
    · exact ih.gone file old
    · exact allowed

/-- A listing of the folder shows every changelog of a view. -/
theorem Sound.mem_list_iff (sound : Sound options entities root run.project)
    (folderPlaced : Path.place root options.layout.changelogFolder = .ok folder)
    {existing : List Name} (listed : run.project.list options.layout.changelogFolder = .ok existing)
    {name : Name} (ofView : IsViewChangelog name) :
    name ∈ existing ↔ ∃ content, run.project.disk.file? (folder ++ [name]) = some content := by
  have front : Project.frontOf options.layout.changelogFolder =
      options.layout.changelogFolder ++ ['/'] := by
    refine Project.frontOf_eq ?_ (by decide : 'g' ≠ '/')
    rw [changelogFolder_eq, List.getLast?_append_of_ne_nil _ (by simp)]
    rfl
  rw [Project.mem_list_iff sound.ready (sound.sameRoot ▸ folderPlaced) listed, front,
    and_iff_left_iff_imp]
  intro _ gone
  exact (sound.gone _ gone).ne_changelog ofView (by simp)

theorem Spelled.isViewChangelog {view : Text} (spelled : Spelled view) {name : Name}
    (mine : Changelog.stampOf? view name ≠ none) : IsViewChangelog name := by
  obtain ⟨stamp, stamped⟩ := Option.ne_none_iff_exists'.mp mine
  exact ⟨view, stamp, spelled, stamped⟩

/-- Where the files with a view's names are the same, its changelogs stay. -/
theorem Settles.of_files {view : Text} {disk later : Disk}
    (files : ∀ name, Changelog.stampOf? view name ≠ none →
      later.file? (folder ++ [name]) = disk.file? (folder ++ [name])) :
    Settles folder view disk later := by
  refine .inl fun name => and_congr_right fun stamped => ?_
  rw [files name stamped]

/-- The changelog that is drawn for a view is one that the view has, or its only one. -/
theorem Sound.settles_of_drawn (sound : Sound options entities root run.project)
    (folderPlaced : Path.place root options.layout.changelogFolder = .ok folder)
    {view : Text} (spelled : Spelled view) {existing : List Name}
    (listed : run.project.list options.layout.changelogFolder = .ok existing)
    {clock ticked : Clock} {drawn stamp : Text}
    (next : Changelog.nextView existing view clock = (.ok (drawn, stamp), ticked))
    {later : Disk} {content : Bytes} (present : later.file? (folder ++ [drawn]) = some content)
    (kept : ∀ name, Changelog.stampOf? view name ≠ none → name ≠ drawn →
      later.file? (folder ++ [name]) = run.project.disk.file? (folder ++ [name])) :
    Settles folder view run.project.disk later := by
  obtain ⟨stamped, origin⟩ := Changelog.nextView_cases next
  have mine : Changelog.stampOf? view drawn ≠ none := by simp [stamped]
  rcases origin with ⟨old, -⟩ | fresh
  · refine .inl fun name => and_congr_right fun mine => ?_
    by_cases isDrawn : name = drawn
    · subst isDrawn
      have before := (sound.mem_list_iff folderPlaced listed (spelled.isViewChangelog mine)).mp old
      exact iff_of_true ⟨_, present⟩ before
    · rw [kept name mine isDrawn]
  · have none : ∀ name, ¬ Holds run.project.disk folder view name := by
      rintro name ⟨mine, there⟩
      have shown :=
        (sound.mem_list_iff folderPlaced listed (spelled.isViewChangelog mine)).mpr there
      exact mine (fresh name shown)
    refine .inr ⟨none, drawn, fun other => ⟨fun holds => ?_, ?_⟩⟩
    · by_contra isOther
      refine none other ⟨holds.1, ?_⟩
      rw [← kept other holds.1 isOther]
      exact holds.2
    · rintro rfl
      exact ⟨mine, _, present⟩

theorem Change.settles (site : Site options.layout root folder master)
    (names : ∀ entity ∈ entities, Spelled entity.className ∧ Spelled entity.table)
    (sound : Sound options entities root run.project)
    (change : Change (scopeOf options entities) run later) {view : Text} (spelled : Spelled view) :
    Settles folder view run.project.disk later.project.disk := by
  have permanent {name : Name} (mine : Changelog.stampOf? view name ≠ none) :
      ¬ Path.IsTemporary (folder ++ [name]) := (spelled.isViewChangelog mine).notTemporary folder
  cases change with
  | nothing others => exact .of_files fun name mine => others _ (permanent mine)
  | edit allowed placed read made content others =>
    refine .of_files fun name mine => others _ ?_ (permanent mine)
    exact (Edits.target_ne_changelog allowed placed (spelled.isViewChangelog mine)).symm
  | deletion allowed placed content others =>
    refine .of_files fun name mine => others _ ?_
    exact (Deletes.target_ne_changelog (fun entity member => (names entity member).1)
      (sound.sameRoot ▸ site.folderPlaced) allowed placed (spelled.isViewChangelog mine)).symm
  | generation allowed placed content others =>
    rcases Generates.target_cases (fun entity member => (names entity member).2)
      (sound.sameRoot ▸ site.folderPlaced) allowed placed with
      ⟨above, last, rfl, ends⟩ | ⟨entity, member, existing, clock, ticked, drawn, stamp, rfl, named,
        listed, next⟩
    · refine .of_files fun name mine => others _ ?_ (permanent mine)
      exact fun same => (spelled.isViewChangelog mine).ne_of_getLast? ends (by decide) (by decide)
        (eq_of_append_eq same)
    · have kept (name : Name) (mine : Changelog.stampOf? view name ≠ none) (other : name ≠ drawn) :
          later.project.disk.file? (folder ++ [name]) =
            run.project.disk.file? (folder ++ [name]) :=
        others _ (fun same => other (eq_of_append_eq same)) (permanent mine)
      -- the changelog is another view's, or this view is the entity's
      by_cases foreign : Changelog.stampOf? view drawn = none
      · refine .of_files fun name mine => kept name mine ?_
        rintro rfl
        exact mine foreign
      · obtain ⟨digits, mine⟩ := Option.ne_none_iff_exists'.mp foreign
        obtain rfl : view = entity.table := Changelog.view_eq_of_stampOf? mine
          (Changelog.nextView_cases next).1 spelled.noLineFeed (names entity member).2.noLineFeed
        exact sound.settles_of_drawn site.folderPlaced spelled listed next content kept

/-! ### The includes of the master -/

/-- A file reads as a text. -/
def Reads (disk : Disk) (path : Path) (text : Text) : Prop :=
  ∃ content, disk.file? path = some content ∧ Utf8.decode content = .ok text

theorem reads_encode {disk : Disk} {path : Path} {text : Text}
    (content : disk.file? path = some (Utf8.encode text)) : Reads disk path text :=
  ⟨_, content, Utf8.decode_encode text⟩

theorem Reads.unique {disk : Disk} {path : Path} {text other : Text} (reads : Reads disk path text)
    (again : Reads disk path other) : text = other := by
  obtain ⟨content, found, decoded⟩ := reads
  obtain ⟨same, refound, redecoded⟩ := again
  obtain rfl := Option.some.inj (found.symm.trans refound)
  exact Except.ok.inj (decoded.symm.trans redecoded)

private theorem reads_of_read {project : Project} (ready : project.IsReal) {file : Text} {target : Path}
    (placed : Path.place project.root file = .ok target) {text : Text}
    (read : project.read file = .ok text) : Reads project.disk target text := by
  obtain ⟨-, there, content, again, found, decoded⟩ := (Project.read_eq_ok_iff ready).mp read
  obtain rfl : target = there := Except.ok.inj (placed.symm.trans again)
  exact ⟨content, found, decoded⟩

/-- The master stays a text that carries the path of each view's changelog, or gets its include line
for the first time. -/
def Enters (master : Path) (disk later : Disk) : Prop :=
  ∀ text, Reads disk master text → ∃ newer, Reads later master newer ∧
    ∀ name, IsViewChangelog name → '\n' ∉ name →
      Changelog.Carries name text newer ∨ Changelog.pathLines name text = [] ∧
        Changelog.pathLines name newer = [Changelog.includeLine name]

private theorem Enters.of_file? {disk later : Disk} (same : later.file? master = disk.file? master) :
    Enters master disk later := by
  rintro text ⟨content, found, decoded⟩
  exact ⟨text, ⟨content, same.trans found, decoded⟩, fun _ _ _ => .inl (.of_eq rfl)⟩

theorem Enters.trans {first second third : Disk} (front : Enters master first second)
    (back : Enters master second third) : Enters master first third := by
  intro text reads
  obtain ⟨middle, readsMiddle, toMiddle⟩ := front text reads
  obtain ⟨last, readsLast, toLast⟩ := back middle readsMiddle
  refine ⟨last, readsLast, fun name ofView noLineFeed => ?_⟩
  rcases toMiddle name ofView noLineFeed, toLast name ofView noLineFeed with
    ⟨carries | ⟨none, first⟩, again | ⟨empty, second⟩⟩
  · exact .inl (carries.trans again)
  · have length_eq := carries.length_eq
    rw [empty, List.length_nil] at length_eq
    exact .inr ⟨List.eq_nil_of_length_eq_zero length_eq.symm, second⟩
  · exact .inr ⟨none, again.pathLines_eq first⟩
  · cases first.symm.trans empty

theorem Change.enters (site : Site options.layout root folder master)
    (names : ∀ entity ∈ entities, Spelled entity.className ∧ Spelled entity.table)
    (sound : Sound options entities root run.project)
    (change : Change (scopeOf options entities) run later) :
    Enters master run.project.disk later.project.disk := by
  have permanent := notTemporary_of_place_master site.masterPlaced
  obtain ⟨sameRoot, ready⟩ := And.intro sound.sameRoot sound.ready
  cases change with
  | nothing others => exact .of_file? (others master permanent)
  | deletion allowed placed content others =>
    refine .of_file? (others master ?_)
    exact (Deletes.target_ne_master (fun entity member => (names entity member).1)
      (sameRoot ▸ site.masterPlaced) allowed placed).symm
  | generation allowed placed content others =>
    refine .of_file? (others master ?_ permanent)
    exact (Generates.target_ne_master (fun entity member => (names entity member).2)
      (sameRoot ▸ site) allowed placed).symm
  | @edit file before conversion asked converted target allowed placed read made content others =>
    rcases Edits.master_cases (sameRoot ▸ site.masterPlaced) allowed placed with apart | ⟨rfl, kind⟩
    · exact .of_file? (others master apart.symm permanent)
    obtain rfl : target = master :=
      Except.ok.inj (placed.symm.trans (sameRoot ▸ site.masterPlaced))
    intro text reads
    obtain rfl : text = before := reads.unique (reads_of_read ready placed read)
    refine ⟨converted.text, reads_encode content, fun name ofView noLineFeed => ?_⟩
    rcases kind with ⟨entity, member, existing, clock, ticked, drawn, stamp, next, rfl⟩ |
      ⟨entity, member, rfl⟩
    · obtain rfl := Except.ok.inj made
      obtain ⟨stamped, -⟩ := Changelog.nextView_cases next
      have drawnView : IsViewChangelog drawn :=
        ⟨entity.table, stamp, (names entity member).2, stamped⟩
      by_cases first : name = drawn ∧ Text.includes (Changelog.quotedPath name) text = false
      · obtain ⟨rfl, absent⟩ := first
        exact .inr ⟨(Changelog.pathLines_eq_nil_iff noLineFeed).mpr absent,
          Changelog.pathLines_register_self ofView.noQuote noLineFeed absent⟩
      · refine .inl (Changelog.carries_register ofView.noQuote drawnView.noQuote noLineFeed fun same => ?_)
        rw [← Bool.not_eq_false]
        exact fun absent => first ⟨same, absent⟩
    · obtain rfl := Except.ok.inj made
      obtain ⟨view, stamp, -, stamped⟩ := ofView
      exact .inl (.of_eq
        (Changelog.pathLines_removeTableIncludes (names entity member).1.noQuote stamped text))

/-- Whatever stands under a path is text. -/
def IsText (disk : Disk) (path : Path) : Prop :=
  ∀ content, disk.file? path = some content → ∃ text, Utf8.decode content = .ok text

/-- A run writes texts only. -/
theorem Change.isText (change : Change scope run later) {path : Path}
    (permanent : ¬ Path.IsTemporary path) (isText : IsText run.project.disk path) :
    IsText later.project.disk path := by
  have written {text : Text} (content : later.project.disk.file? path = some (Utf8.encode text)) :
      IsText later.project.disk path := by
    intro bytes found
    obtain rfl := Option.some.inj (found.symm.trans content)
    exact ⟨text, Utf8.decode_encode text⟩
  have kept (same : later.project.disk.file? path = run.project.disk.file? path) :
      IsText later.project.disk path := by
    intro bytes found
    exact isText bytes (same.symm.trans found)
  cases change with
  | nothing others => exact kept (others path permanent)
  | @edit _ _ _ _ _ target _ _ _ _ content others =>
    by_cases there : path = target
    · subst there
      exact written content
    · exact kept (others path there permanent)
  | @generation _ _ target _ _ content others =>
    by_cases there : path = target
    · subst there
      exact written content
    · exact kept (others path there permanent)
  | @deletion _ target _ _ content others =>
    by_cases there : path = target
    · subst there
      intro bytes found
      cases content.symm.trans found
    · exact kept (others path there)

/-- What becomes of the changelogs of views, of the master's includes, and of texts. -/
structure Proceeds (folder master : Path) (disk later : Disk) : Prop where
  settles : ∀ view, Spelled view → Settles folder view disk later
  enters : Enters master disk later
  texts : ∀ path, ¬ Path.IsTemporary path → IsText disk path → IsText later path

theorem Proceeds.refl (folder master : Path) (disk : Disk) : Proceeds folder master disk disk where
  settles view _ := .refl folder view disk
  enters := .of_file? rfl
  texts _ _ isText := isText

theorem Proceeds.trans {first second third : Disk} (front : Proceeds folder master first second)
    (back : Proceeds folder master second third) : Proceeds folder master first third where
  settles view spelled := (front.settles view spelled).trans (back.settles view spelled)
  enters := front.enters.trans back.enters
  texts path permanent isText := back.texts path permanent (front.texts path permanent isText)

theorem Steps.proceeds (site : Site options.layout root folder master)
    (names : ∀ entity ∈ entities, Spelled entity.className ∧ Spelled entity.table)
    (sound : Sound options entities root run.project)
    (steps : Steps (scopeOf options entities) run later) :
    Proceeds folder master run.project.disk later.project.disk := by
  induction steps with
  | refl => exact .refl folder master _
  | @tail middle later before step ih =>
    have soundMiddle := sound.steps before
    have change := step.change soundMiddle.ready
    refine ih.trans ⟨fun view spelled => ?_, ?_, fun path permanent isText => ?_⟩
    · exact change.settles site names soundMiddle spelled
    · exact change.enters site names soundMiddle
    · exact change.isText permanent isText

/-! ### The removal of table definitions -/

/-- What the removal of an entity's table definitions may do to files. -/
def cleanupScope (options : RunOptions) (entity : Entity) : Scope where
  edits file conversion := file = options.layout.masterChangelog ∧
    conversion = .single "table includes" (Changelog.removeTableIncludes entity.className)
  generates _ _ _ := False
  deletes := Deletes options [entity]
  names _ := False

private theorem steps_cleanupScope (run : Run) (entity : Entity) :
    Steps (cleanupScope run.options entity) run (after (removeTableDefinitions entity) run) :=
  steps_removeTableDefinitions rfl ⟨rfl, rfl⟩ fun _ allowed => allowed

/-- A view's changelog keeps its content, and the master keeps the lines that spell its path and
spells it as often; a path that is spread over lines may come about once more. -/
def Spares (folder master : Path) (name : Name) (disk later : Disk) : Prop :=
  later.file? (folder ++ [name]) = disk.file? (folder ++ [name]) ∧
    ∀ text, Reads disk master text → ∃ newer, Reads later master newer ∧
      Changelog.pathLines name newer = Changelog.pathLines name text ∧
      Changelog.includeCount name text ≤ Changelog.includeCount name newer ∧
      ('\n' ∉ name → Changelog.includeCount name newer = Changelog.includeCount name text)

theorem Spares.trans {name : Name} {first second third : Disk}
    (front : Spares folder master name first second)
    (back : Spares folder master name second third) : Spares folder master name first third := by
  refine ⟨back.1.trans front.1, fun text reads => ?_⟩
  obtain ⟨middle, readsMiddle, lines, more, same⟩ := front.2 text reads
  obtain ⟨last, readsLast, linesLast, evenMore, again⟩ := back.2 middle readsMiddle
  exact ⟨last, readsLast, linesLast.trans lines, Nat.le_trans more evenMore,
    fun noLineFeed => (again noLineFeed).trans (same noLineFeed)⟩

private theorem Spares.of_file? {name : Name} {disk later : Disk}
    (changelog : later.file? (folder ++ [name]) = disk.file? (folder ++ [name]))
    (same : later.file? master = disk.file? master) : Spares folder master name disk later := by
  refine ⟨changelog, ?_⟩
  rintro text ⟨content, found, decoded⟩
  exact ⟨text, ⟨content, same.trans found, decoded⟩, rfl, Nat.le_refl _, fun _ => rfl⟩

theorem Change.spares {entity : Entity} (spelledClass : Spelled entity.className)
    (site : Site options.layout run.project.root folder master) (ready : run.project.IsReal)
    (change : Change (cleanupScope options entity) run later) {name : Name}
    (ofView : IsViewChangelog name) :
    Spares folder master name run.project.disk later.project.disk := by
  have permanent := notTemporary_of_place_master site.masterPlaced
  have classes : ∀ other ∈ [entity], Spelled other.className := by simpa using spelledClass
  cases change with
  | nothing others => exact .of_file? (others _ (ofView.notTemporary folder)) (others master permanent)
  | generation allowed => exact allowed.elim
  | deletion allowed placed content others =>
    exact .of_file?
      (others _ (Deletes.target_ne_changelog classes site.folderPlaced allowed placed ofView).symm)
      (others master (Deletes.target_ne_master classes site.masterPlaced allowed placed).symm)
  | @edit file before conversion asked converted target allowed placed read made content others =>
    obtain ⟨rfl, rfl⟩ := allowed
    have known : Edits options [entity] options.layout.masterChangelog
        (.single "table includes" (Changelog.removeTableIncludes entity.className)) :=
      .cleanup (by simp)
    obtain rfl : target = master := Except.ok.inj (placed.symm.trans site.masterPlaced)
    refine ⟨others _ (known.target_ne_changelog placed ofView).symm (ofView.notTemporary folder), ?_⟩
    intro text reads
    obtain rfl : text = before := reads.unique (reads_of_read ready placed read)
    obtain rfl := Except.ok.inj made
    obtain ⟨view, stamp, spelled, stamped⟩ := ofView
    exact ⟨_, reads_encode content,
      Changelog.pathLines_removeTableIncludes spelledClass.noQuote stamped text,
      Changelog.includeCount_removeTableIncludes spelledClass.noQuote stamped spelled.noLineFeed text⟩

/-- The removal of an entity's table definitions spares every view's changelog. -/
theorem spares_removeTableDefinitions {entity : Entity} (spelledClass : Spelled entity.className)
    (site : Site run.options.layout run.project.root folder master) (ready : run.project.IsReal)
    {name : Name} (ofView : IsViewChangelog name) :
    Spares folder master name run.project.disk
      (after (removeTableDefinitions entity) run).project.disk := by
  suffices spares : ∀ later, Steps (cleanupScope run.options entity) run later →
      later.project.IsReal ∧ later.project.root = run.project.root ∧
        Spares folder master name run.project.disk later.project.disk from
    (spares _ (steps_cleanupScope run entity)).2.2
  intro later steps
  induction steps with
  | refl => exact ⟨ready, rfl, .of_file? rfl rfl⟩
  | @tail middle later before step ih =>
    obtain ⟨readyMiddle, sameRoot, spares⟩ := ih
    obtain ⟨readyLater, rooted, -⟩ := step.project readyMiddle
    have change := step.change readyMiddle
    exact ⟨readyLater, rooted.trans sameRoot,
      spares.trans (change.spares spelledClass (sameRoot ▸ site) readyMiddle ofView)⟩

end Run

end ReadOnlyViews
