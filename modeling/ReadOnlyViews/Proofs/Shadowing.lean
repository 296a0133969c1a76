import ReadOnlyViews.Proofs.DryProjects
import ReadOnlyViews.Proofs.FaithfulReport

/-!
A dry run beside the real one.  Steps of both go together if they ask the same questions of their
projects, and if what one of them does to the disk is what the other one holds back.  Steps that do
so can be put in a row, repeated and guarded; the smallest of them are the questions, the writes and
the deletes themselves.
-/

namespace ReadOnlyViews

private theorem Text.pieces_join {mark : Char} {parts : List Text} (nonempty : parts ≠ [])
    (whole : ∀ part ∈ parts, mark ∉ part) : pieces mark (join [mark] parts) = parts := by
  induction parts with
  | nil => exact absurd rfl nonempty
  | cons part parts ih =>
    have ofPart := pieces_of_notMem (whole part (by simp))
    cases parts with
    | nil => exact ofPart
    | cons next parts =>
      rw [join, List.append_assoc, List.singleton_append, pieces_append_mark, ofPart,
        ih (by simp) fun other member => whole other (by simp [member]), List.singleton_append]

/-- The path of a place as seen from the root leads there. -/
theorem Path.place_relativeText {root target : Path} (plain : IsPlain root) {file : Text}
    (placed : place root file = .ok target) :
    place root (relativeText (target.drop root.length)) = .ok target := by
  have plainTarget := isPlain_of_place placed
  obtain ⟨base, -, based, -, within⟩ := plainReading_of_place placed
  obtain rfl : root = base := Except.ok.inj ((plainReading_text plain).symm.trans based)
  obtain ⟨names, rfl⟩ := within
  have plainNames : IsPlain names := fun name member => plainTarget name (by simp [member])
  have read : plainReading root (relativeText names) = .ok (root ++ names) := by
    cases names with
    | nil =>
      rw [List.append_nil]
      rfl
    | cons name names =>
      have cut : segments (relativeText (name :: names)) = name :: names :=
        Text.pieces_join (by simp) fun part member => (plainNames part member).noSlash
      rw [plainReading_of_isPlain (cut.symm ▸ plainNames), cut]
  rw [List.drop_left, place, based]
  simp [bind, Except.bind, read]

namespace Project

/-- The project has written or deleted a file under this path. -/
def Touches (project : Project) (file : Text) : Prop :=
  file ∈ project.written.map (·.1) ∨ file ∈ project.deleted

variable {project : Project} {file other text : Text}

/-- The disk does not refuse to read a file that is there. -/
theorem read_ne_disk (ready : project.IsReal) (present : project.has file = .ok true)
    (fault : DiskFault) (path : Path) : project.read file ≠ .error (.disk fault path none) := by
  obtain ⟨kept, target, content, placed, found⟩ := (has_eq_true_iff ready).mp present
  have got := (readFile_eq_ok_iff ready.tree (Path.isPlain_of_place placed)).mpr found
  rw [read_of_unheld ready.tree kept (ready.unheld file), placed]
  simp only [bind, Except.bind, got, onDisk, textOf]
  split <;> simp

private theorem written_of_write : (project.write file text).2.written =
    putPair file (Digest.ofText text) project.written := by
  unfold write
  dsimp only
  split
  · rfl
  · split
    · rfl
    · split <;> rfl

private theorem deleted_of_write :
    (project.write file text).2.deleted = project.deleted.filter (· != file) := by
  unfold write
  dsimp only
  split
  · rfl
  · split
    · rfl
    · split <;> rfl

private theorem touches_write_self : (project.write file text).2.Touches file := by
  left
  rw [written_of_write, mem_keys_iff]
  exact ⟨_, by rw [lookup_putPair, if_pos rfl]⟩

theorem Touches.write (touched : project.Touches other) :
    (project.write file text).2.Touches other := by
  by_cases same : other = file
  · exact same ▸ touches_write_self
  · refine touched.imp (fun written => ?_) (fun gone => ?_)
    · rw [written_of_write, mem_keys_iff, lookup_putPair, if_neg same]
      exact mem_keys_iff.mp written
    · rw [deleted_of_write, List.mem_filter]
      exact ⟨gone, bne_iff_ne.mpr same⟩

theorem Touches.delete (touched : project.Touches other) :
    (project.delete file).2.Touches other := by
  have grown : other ∈ project.deleted → other ∈ (project.countDeleted file).deleted := by
    intro gone
    unfold countDeleted
    dsimp only
    split
    · exact gone
    · exact List.mem_append_left _ gone
  unfold Project.delete
  split
  · exact touched
  · exact touched
  · dsimp only
    split
    · exact touched.imp_right grown
    · split
      · exact touched.imp_right grown
      · split <;> exact touched.imp_right grown

end Project

/-- The file that the SQL of an entity's view is read from, unless the SQL is given in place. -/
def Entity.sqlFile? (entity : Entity) : Option Text :=
  if ((entity.viewSql?.map Text.trim).filter (!·.isEmpty)).isSome then none
  else entity.viewSqlFile?.filter (!·.isEmpty)

namespace Run

/-- The paths under which a run over entities asks for files, with the MyBatis settings that it has
loaded: the entities' sources and what is generated for them, the files of the application that it
edits or reads, and whatever is in the folder of changelogs. -/
inductive Uses (options : RunOptions) (entities : List Entity)
    (loaded : Option MyBatis.Settings) : Text → Prop where
  | source {entity : Entity} (kind : ReadOnly.SourceKind) (member : entity ∈ entities) :
      Uses options entities loaded (options.layout.sourceFile entity kind)
  | master : Uses options entities loaded options.layout.masterChangelog
  | application : Uses options entities loaded options.layout.applicationYml
  | generator : Uses options entities loaded Project.generatorFile
  | listed {name : Name} (isName : Path.IsName name) :
      Uses options entities loaded (options.layout.changelogFolder ++ '/' :: name)
  | view {entity : Entity} {name stamp : Text} (member : entity ∈ entities)
      (stamped : Changelog.stampOf? entity.table name = some stamp) :
      Uses options entities loaded (options.layout.changelogFolder ++ '/' :: name)
  | removed {file : Text} (allowed : Deletes options entities file) :
      Uses options entities loaded file
  | model {entity : Entity} {settings : MyBatis.Settings} (member : entity ∈ entities)
      (known : loaded = some settings) :
      Uses options entities loaded (options.layout.inMain (Text.pieces '.' settings.modelPackage ++
        [(MyBatis.modelName entity settings options.layout.package).name ++ ".java"]))
  | mapper {entity : Entity} {settings : MyBatis.Settings} (member : entity ∈ entities)
      (known : loaded = some settings) :
      Uses options entities loaded (options.layout.inMain (Text.pieces '.' settings.mapperPackage ++
        [(MyBatis.mapperName entity settings options.layout.package).name ++ ".java"]))

/-- A file that the SQL of no view is read from. -/
def SparesSql (entities : List Entity) (root : Path) (file : Text) : Prop :=
  ∀ entity ∈ entities, ∀ sqlFile, entity.sqlFile? = some sqlFile →
    ∀ path, Path.place root sqlFile = .ok path → Path.place root file ≠ .ok path

/-- What a real run and the dry run beside it have in common. -/
structure Frame where
  options : RunOptions
  entities : List Entity
  root : Path
  disk : Disk
  loaded : Option MyBatis.Settings
  isPlain : Path.IsPlain root
  isShort : Path.HasShortNames root

namespace Frame

/-- The paths that both runs use. -/
def Named (frame : Frame) : Text → Prop := Uses frame.options frame.entities frame.loaded

/-- A dry project is where the real project of a run is, too. -/
structure Shadows (frame : Frame) (dry real : Project) : Prop where
  stands : Project.Overlays frame.Named dry real
  root_eq : real.root = frame.root
  disk_eq : dry.disk = frame.disk
  held : ∀ {file text : Text}, dry.pending.lookup file = some text → real.Touches file

/-- Nothing was told of the disk refusing, no file was touched that holds a view's SQL, and the
MyBatis settings are the known ones, if they are loaded. -/
structure Quiet (frame : Frame) (run : Run) : Prop where
  silent : ∀ d ∈ run.reporter.items, ¬ d.TellsFault
  spares : ∀ file, run.project.Touches file → SparesSql frame.entities frame.root file
  loaded : ∀ settings, run.settings = some settings → frame.loaded = some settings

end Frame

/-- A later run has said, touched and loaded what the earlier one has. -/
structure Within (run later : Run) : Prop where
  options : later.options = run.options
  items : run.reporter.items ⊆ later.reporter.items
  touches : ∀ file, run.project.Touches file → later.project.Touches file
  loaded : ∀ settings, run.settings = some settings → later.settings = some settings

theorem Within.refl (run : Run) : Within run run :=
  ⟨rfl, List.Subset.refl _, fun _ touched => touched, fun _ known => known⟩

theorem Within.trans {run middle later : Run} (first : Within run middle)
    (second : Within middle later) : Within run later where
  options := second.options.trans first.options
  items := List.Subset.trans first.items second.items
  touches file touched := second.touches file (first.touches file touched)
  loaded settings known := second.loaded settings (first.loaded settings known)

theorem Frame.Quiet.of_within {frame : Frame} {run later : Run} (quiet : frame.Quiet later)
    (within : Within run later) : frame.Quiet run where
  silent d said := quiet.silent d (within.items said)
  spares file touched := quiet.spares file (within.touches file touched)
  loaded settings known := quiet.loaded settings (within.loaded settings known)

namespace Frame

variable {frame : Frame} {α β : Type}

/-- A step that ends quietly, and not because the disk refused. -/
inductive Calm (frame : Frame) : EStateM.Result Failure Run α → Prop where
  | ok {value : α} {later : Run} (quiet : frame.Quiet later) : Calm frame (.ok value later)
  | error {failure : Failure} {later : Run} (quiet : frame.Quiet later)
      (other : ∀ fault path onto, failure ≠ .disk fault path onto) :
      Calm frame (.error failure later)

/-- A step of the dry run ends as that of the real run, with a project beside the real one. -/
inductive Mirrored (frame : Frame) :
    EStateM.Result Failure Run α → EStateM.Result Failure Run α → Prop where
  | ok {value : α} {later : Run} {dry : Project} (shadows : frame.Shadows dry later.project) :
      Mirrored frame (.ok value (later.withProject dry)) (.ok value later)
  | error {failure : Failure} {later : Run} {dry : Project}
      (shadows : frame.Shadows dry later.project) :
      Mirrored frame (.error failure (later.withProject dry)) (.error failure later)

/-- The step takes nothing back. -/
def Grows (frame : Frame) (step : RunM α) : Prop :=
  ∀ run, run.options = frame.options → Within run (after step run)

/-- From this run on, the step is taken alike beside it. -/
def AlikeAt (frame : Frame) (step : RunM α) (real : Run) : Prop :=
  ∀ dry, frame.Shadows dry real.project → frame.Calm (step real) →
    frame.Mirrored (step (real.withProject dry)) (step real)

/-- A step that takes nothing back, and that a dry run takes as the real run does where something is
known of the real run. -/
structure SimulatesFrom (frame : Frame) (known : Run → Prop) (step : RunM α) : Prop where
  grows : frame.Grows step
  alike : ∀ real, real.options = frame.options → known real → frame.AlikeAt step real

/-- A step that takes nothing back, and that a dry run takes as the real run does. -/
abbrev Simulates (frame : Frame) (step : RunM α) : Prop :=
  frame.SimulatesFrom (fun _ => True) step

theorem SimulatesFrom.mono {step : RunM α} {known stronger : Run → Prop}
    (simulates : frame.SimulatesFrom known step) (implies : ∀ run, stronger run → known run) :
    frame.SimulatesFrom stronger step :=
  ⟨simulates.grows, fun real told knows => simulates.alike real told (implies real knows)⟩

theorem Simulates.known {step : RunM α} (simulates : frame.Simulates step) {known : Run → Prop} :
    frame.SimulatesFrom known step := simulates.mono fun _ _ => trivial

theorem Calm.quiet {step : RunM α} {run : Run} (calm : frame.Calm (step run)) :
    frame.Quiet (after step run) := by
  unfold after
  cases went : step run <;> rw [went] at calm <;> cases calm <;> assumption

section

variable {first : RunM α} {rest : α → RunM β}

theorem Grows.bind (grows : frame.Grows first)
    (further : ∀ run value later, first run = .ok value later → frame.Grows (rest value)) :
    frame.Grows (first >>= rest) := by
  intro run told
  have within := grows run told
  cases went : first run with
  | ok value later =>
    rw [after_bind_of_ok went]
    have middle : after first run = later := by simp only [after, went]
    rw [middle] at within
    exact within.trans (further run value later went later (within.options.trans told))
  | error failure later =>
    rw [after_bind_of_error went]
    simpa only [after, went] using within

theorem AlikeAt.bind {real : Run} (one : frame.AlikeAt first real)
    (grows : ∀ value later, first real = .ok value later → Within later (after (rest value) later))
    (others : ∀ value later, first real = .ok value later → frame.Quiet later →
      frame.AlikeAt (rest value) later) :
    frame.AlikeAt (first >>= rest) real := by
  intro dry shadows calm
  cases went : first real with
  | ok value later =>
    rw [bind_of_ok went] at calm ⊢
    have quiet : frame.Quiet later := calm.quiet.of_within (grows value later went)
    have mirrored := one dry shadows (went ▸ .ok quiet)
    rw [went] at mirrored
    generalize beside : first (real.withProject dry) = ended at mirrored
    cases mirrored with
    | @ok _ _ next shadows =>
      rw [bind_of_ok beside]
      exact others value later went quiet next shadows calm
  | error failure later =>
    rw [bind_of_error went] at calm ⊢
    have again : frame.Calm (first real) := by
      rw [went]
      cases calm with
      | error quiet other => exact .error quiet other
    have mirrored := one dry shadows again
    rw [went] at mirrored
    generalize beside : first (real.withProject dry) = mirror at mirrored
    cases mirrored with
    | @error _ _ next shadows =>
      rw [bind_of_error beside]
      exact .error shadows

private theorem Grows.within_of_ok (grows : frame.Grows first) {run later : Run} {value : α}
    (told : run.options = frame.options) (went : first run = .ok value later) :
    Within run later := by
  have within := grows run told
  simpa only [after, went] using within

theorem SimulatesFrom.bind {known : Run → Prop} (one : frame.SimulatesFrom known first)
    (next : α → Run → Prop) (others : ∀ value, frame.SimulatesFrom (next value) (rest value))
    (leads : ∀ {real value later}, known real → first real = .ok value later →
      Within real later → next value later) :
    frame.SimulatesFrom known (first >>= rest) where
  grows := one.grows.bind fun _ value _ _ => (others value).grows
  alike real told knows := by
    refine (one.alike real told knows).bind (fun value later went => ?_)
      fun value later went _ => ?_
    · exact (others value).grows later ((one.grows.within_of_ok told went).options.trans told)
    · have within := one.grows.within_of_ok told went
      exact (others value).alike later (within.options.trans told) (leads knows went within)

theorem Simulates.bind (one : frame.Simulates first)
    (others : ∀ run value later, first run = .ok value later → frame.Simulates (rest value)) :
    frame.Simulates (first >>= rest) where
  grows := one.grows.bind fun run value later went => (others run value later went).grows
  alike real told _ := by
    refine (one.alike real told trivial).bind (fun value later went => ?_)
      fun value later went _ => ?_
    · exact (others real value later went).grows later
        ((one.grows.within_of_ok told went).options.trans told)
    · exact (others real value later went).alike later
        ((one.grows.within_of_ok told went).options.trans told) trivial

end

/-- A step that looks at the run and does the same in both. -/
theorem SimulatesFrom.get_bind {known : Run → Prop} {rest : Run → RunM α}
    (same : ∀ run dry, frame.Quiet run → frame.Calm (rest run run) →
      frame.Shadows dry run.project → rest (run.withProject dry) = rest run)
    (others : ∀ run, run.options = frame.options → frame.SimulatesFrom known (rest run)) :
    frame.SimulatesFrom known (get >>= rest) where
  grows run told := (others run told).grows run told
  alike real told knows dry shadows calm := by
    rw [get_bind_apply] at calm ⊢
    have quiet := calm.quiet.of_within ((others real told).grows real told)
    rw [get_bind_apply, same real dry quiet calm shadows]
    exact (others real told).alike real told knows dry shadows calm

theorem simulates_pure (value : α) : frame.Simulates (pure value) where
  grows run _ := .refl run
  alike _ _ _ _ shadows _ := .ok shadows

theorem simulates_throw (failure : Failure) : frame.Simulates (throw failure : RunM α) where
  grows run _ := .refl run
  alike _ _ _ _ shadows _ := .error shadows

/-- A change of what a run keeps besides its project. -/
theorem simulates_modify {update : Run → Run} (within : ∀ run, Within run (update run))
    (project_eq : ∀ run, (update run).project = run.project)
    (apart : ∀ run project, update (run.withProject project) = (update run).withProject project) :
    frame.Simulates (modify update) where
  grows run _ := within run
  alike real _ _ dry shadows _ := by
    show frame.Mirrored (.ok () (update (real.withProject dry))) (.ok () (update real))
    rw [apart]
    exact .ok (project_eq real ▸ shadows)

theorem simulates_say (d : Diagnostic) : frame.Simulates (say d) :=
  simulates_modify
    (fun _ => ⟨rfl, List.subset_append_left _ _, fun _ touched => touched, fun _ known => known⟩)
    (fun _ => rfl) (fun _ _ => rfl)

theorem simulates_record (update : RunReport → RunReport) : frame.Simulates (record update) :=
  simulates_modify
    (fun _ => ⟨rfl, List.Subset.refl _, fun _ touched => touched, fun _ known => known⟩)
    (fun _ => rfl) (fun _ _ => rfl)

theorem SimulatesFrom.forM {known : Run → Prop} {items : List α} {each : α → RunM Unit}
    (stays : ∀ {run later}, Within run later → known run → known later)
    (one : ∀ item ∈ items, frame.SimulatesFrom known (each item)) :
    frame.SimulatesFrom known (items.forM each) := by
  induction items with
  | nil => exact (simulates_pure ()).known
  | cons item items ih =>
    refine (one item (by simp)).bind (fun _ => known) (fun _ => ?_)
      fun knows _ within => stays within knows
    exact ih fun other member => one other (by simp [member])

theorem SimulatesFrom.tryCatch {known : Run → Prop} {step : RunM α} {handler : Failure → RunM α}
    (one : frame.SimulatesFrom known step) (handles : ∀ failure, frame.Simulates (handler failure))
    (tells : ∀ fault path onto run, ¬ frame.Calm (handler (.disk fault path onto) run)) :
    frame.SimulatesFrom known (tryCatch step handler) where
  grows run told := by
    have within := one.grows run told
    cases went : step run with
    | ok value later =>
      simpa only [after, tryCatch_eq, went] using within
    | error failure later =>
      simp only [after, went] at within
      have further := (handles failure).grows later (within.options.trans told)
      simpa only [after, tryCatch_eq, went] using within.trans further
  alike real told knows dry shadows calm := by
    have within := one.grows real told
    cases went : step real with
    | ok value later =>
      have ended : MonadExcept.tryCatch step handler real = .ok value later := by
        rw [tryCatch_eq, went]
      rw [ended] at calm ⊢
      have mirrored := one.alike real told knows dry shadows (went ▸ calm)
      rw [went] at mirrored
      generalize beside : step (real.withProject dry) = mirror at mirrored
      cases mirrored with
      | ok shadows =>
        rw [tryCatch_eq, beside]
        exact .ok shadows
    | error failure later =>
      have ended : MonadExcept.tryCatch step handler real = handler failure later := by
        rw [tryCatch_eq, went]
      simp only [after, went] at within
      have toldLater := within.options.trans told
      rw [ended] at calm ⊢
      have other : ∀ fault path onto, failure ≠ .disk fault path onto := by
        rintro fault path onto rfl
        exact tells fault path onto later calm
      have quiet := calm.quiet.of_within ((handles failure).grows later toldLater)
      have mirrored := one.alike real told knows dry shadows (went ▸ .error quiet other)
      rw [went] at mirrored
      generalize beside : step (real.withProject dry) = mirror at mirrored
      cases mirrored with
      | @error _ _ next shadows =>
        have same : MonadExcept.tryCatch step handler (real.withProject dry) =
            handler failure (later.withProject next) := by rw [tryCatch_eq, beside]
        rw [same]
        exact (handles failure).alike later toldLater trivial next shadows calm

/-! ### Questions and changes -/

theorem eq_of_ask {question : Project → Except Failure α} {run later : Run} {answer : α}
    (asked : ask question run = .ok answer later) :
    question run.project = .ok answer ∧ later = run := by
  cases answered : question run.project with
  | ok known =>
    obtain ⟨rfl, rfl⟩ : known = answer ∧ run = later := by simpa [ask, answered] using asked
    exact ⟨rfl, rfl⟩
  | error failure => simp [ask, answered] at asked

/-- A question that both projects answer alike unless the real disk refuses. -/
theorem simulates_ask {question : Project → Except Failure α}
    (same : ∀ {dry real : Project}, frame.Shadows dry real →
      (∀ fault path onto, question real ≠ .error (.disk fault path onto)) →
      question dry = question real) :
    frame.Simulates (ask question) where
  grows run _ := by
    have nothing : after (ask question) run = run := by
      cases answered : question run.project <;> simp [after, ask, answered]
    rw [nothing]
    exact .refl run
  alike real _ _ dry shadows calm := by
    cases answered : question real.project with
    | ok answer =>
      have beside : question (real.withProject dry).project = .ok answer :=
        (same shadows (by simp [answered])).trans answered
      simp only [ask, answered, beside]
      exact .ok shadows
    | error failure =>
      have other : ∀ fault path onto, failure ≠ .disk fault path onto := by
        simp only [ask, answered] at calm
        cases calm
        assumption
      have beside : question (real.withProject dry).project = .error failure :=
        (same shadows (by simpa [answered] using other)).trans answered
      simp only [ask, answered, beside]
      exact .error shadows

theorem simulates_has {file : Text} (named : frame.Named file) :
    frame.Simulates (ask (·.has file)) :=
  simulates_ask fun shadows answers =>
    shadows.stands.has_eq named fun fault path => answers fault path none

private theorem simulates_read {file : Text} (named : frame.Named file) :
    frame.Simulates (ask (·.read file)) :=
  simulates_ask fun shadows answers =>
    shadows.stands.read_eq named fun fault path => answers fault path none

theorem Shadows.write {dry real later : Project} (shadows : frame.Shadows dry real)
    {file text : Text} (named : frame.Named file) (keeps : Project.KeepsName file)
    (wrote : real.write file text = (.ok (), later)) :
    dry.write file text = (.ok (), (dry.write file text).2) ∧
      frame.Shadows (dry.write file text).2 later := by
  obtain rfl : (real.write file text).2 = later := by rw [wrote]
  refine ⟨Prod.ext (Project.write_of_dry shadows.stands.holdsBack) rfl, ?_⟩
  constructor
  case stands =>
    exact shadows.stands.write named (fun _ placed => keeps.notTemporary placed) wrote
  case root_eq =>
    exact (Project.written_write shadows.stands.ready file text).root_eq.trans shadows.root_eq
  case disk_eq =>
    exact (Project.disk_write_of_dry shadows.stands.holdsBack).trans shadows.disk_eq
  case held =>
    intro other known held
    by_cases same : other = file
    · exact same ▸ Project.touches_write_self
    · have before : dry.pending.lookup other = some known := by
        simpa [Project.write, shadows.stands.holdsBack, lookup_putPair, same] using held
      exact (shadows.held before).write

/-- A write to a place that the project could be asked about is refused by the disk only. -/
theorem Shadows.exists_of_write_eq_error {dry real later : Project}
    (shadows : frame.Shadows dry real) {file text : Text} {there : Bool}
    (asked : real.has file = .ok there) {failure : Failure}
    (refused : real.write file text = (.error failure, later)) :
    ∃ fault path onto, failure = .disk fault path onto := by
  have written := refused ▸ Project.written_write shadows.stands.ready file text
  cases written with
  | refused => exact ⟨_, _, _, rfl⟩
  | nowhere placed =>
    by_cases gone : file ∈ real.deleted
    · obtain ⟨-, target, there, -⟩ := shadows.stands.gone gone
      cases placed.symm.trans there
    · rw [Project.has_of_real shadows.stands.ready gone, placed] at asked
      cases asked

theorem Shadows.delete {dry real : Project} (shadows : frame.Shadows dry real) {file : Text}
    (named : frame.Named file) :
    frame.Shadows (dry.delete file).2 (real.delete file).2 := by
  have pending_delete {other text : Text}
      (held : (dry.delete file).2.pending.lookup other = some text) :
      dry.pending.lookup other = some text := by
    unfold Project.delete at held
    split at held
    · exact held
    · exact held
    · simp only [shadows.stands.holdsBack, if_true, lookup_filter_ne] at held
      split at held
      · cases held
      · exact held
  exact {
    stands := shadows.stands.delete named
    root_eq := (Project.removed_delete shadows.stands.ready file).root_eq.trans shadows.root_eq
    disk_eq := (Project.disk_delete_of_dry shadows.stands.holdsBack).trans shadows.disk_eq
    held := fun held => (shadows.held (pending_delete held)).delete }

/-- A delete has the same outcome in both projects unless the real disk refuses. -/
theorem Shadows.delete_eq {dry real : Project} (shadows : frame.Shadows dry real) {file : Text}
    (named : frame.Named file)
    (answers : ∀ fault path onto, (real.delete file).1 ≠ .error (.disk fault path onto)) :
    (dry.delete file).1 = (real.delete file).1 := by
  by_cases present : real.has file = .ok true
  · obtain ⟨erased, erasedReal, -⟩ := shadows.stands.delete_of_present named present
    rw [erased, erasedReal]
  · cases asked : real.has file with
    | error failure =>
      have failed : (real.delete file).1 = .error failure := by simp [Project.delete, asked]
      have same := shadows.stands.has_eq named fun fault path refused =>
        answers fault path none
          (failed.trans (congrArg _ (Except.error.inj (asked.symm.trans refused))))
      simp only [Project.delete, same, asked]
    | ok there =>
      cases there with
      | true => exact absurd asked present
      | false =>
        have same := shadows.stands.has_eq named (by simp [asked])
        simp only [Project.delete, same, asked]

theorem simulates_delete {file : Text} (named : frame.Named file) :
    frame.Simulates (change (·.delete file)) where
  grows run _ := by
    have reached : after (change (·.delete file)) run =
        run.withProject (run.project.delete file).2 := by
      cases erased : run.project.delete file with
      | mk result project => cases result <;> simp only [after, change, erased] <;> rfl
    rw [reached]
    exact ⟨rfl, List.Subset.refl _, fun _ touched => touched.delete, fun _ known => known⟩
  alike real _ _ dry shadows calm := by
    have next := shadows.delete named
    cases erased : real.project.delete file with
    | mk result project =>
      have same : (∀ fault path onto, result ≠ .error (.disk fault path onto)) →
          dry.delete file = (result, (dry.delete file).2) := fun answers =>
        Prod.ext ((shadows.delete_eq named (by simpa [erased] using answers)).trans
          (by rw [erased])) rfl
      rw [erased] at next
      cases result with
      | ok =>
        have beside : (real.withProject dry).project.delete file = _ := same (by simp)
        simp only [change, erased, beside]
        exact @Mirrored.ok Unit frame () (real.withProject project) _ next
      | error failure =>
        have other : ∀ fault path onto, failure ≠ .disk fault path onto := by
          simp only [change, erased] at calm
          cases calm
          assumption
        have beside : (real.withProject dry).project.delete file = _ := same (by simpa using other)
        simp only [change, erased, beside]
        exact @Mirrored.error Unit frame failure (real.withProject project) _ next

/-- The project answers whether there is the file. -/
def Answers (file : Text) (run : Run) : Prop := ∃ there, run.project.has file = .ok there

private theorem simulates_write {file : Text} (named : frame.Named file) (keeps : Project.KeepsName file)
    (text : Text) : frame.SimulatesFrom (Answers file) (change (·.write file text)) where
  grows run _ := by
    have reached : after (change (·.write file text)) run =
        run.withProject (run.project.write file text).2 := by
      cases wrote : run.project.write file text with
      | mk result project => cases result <;> simp only [after, change, wrote] <;> rfl
    rw [reached]
    exact ⟨rfl, List.Subset.refl _, fun _ touched => touched.write, fun _ known => known⟩
  alike real _ answers dry shadows calm := by
    obtain ⟨there, asked⟩ := answers
    cases wrote : real.project.write file text with
    | mk result project =>
      cases result with
      | error failure =>
        simp only [change, wrote] at calm
        obtain ⟨fault, path, onto, refused⟩ := shadows.exists_of_write_eq_error asked wrote
        cases calm with
        | error quiet other => exact absurd refused (other fault path onto)
      | ok =>
        obtain ⟨held, next⟩ := shadows.write named keeps wrote
        have beside : (real.withProject dry).project.write file text = _ := held
        simp only [change, wrote, beside]
        exact @Mirrored.ok Unit frame () (real.withProject project) _ next

theorem simulates_writeIfChanged {file : Text} (named : frame.Named file)
    (keeps : Project.KeepsName file) (content : Text) :
    frame.Simulates (writeIfChanged file content) := by
  have writes : frame.SimulatesFrom (Answers file) (do
      change (·.write file content)
      return true : RunM Bool) :=
    (simulates_write named keeps content).bind _ (fun _ => simulates_pure true) fun _ _ _ => trivial
  unfold writeIfChanged
  refine SimulatesFrom.bind (simulates_has named) (fun _ => Answers file) (fun there => ?_)
    fun _ went _ => ?_
  · cases there with
    | false => exact writes
    | true =>
      refine (simulates_read named).known.bind (fun _ => Answers file) (fun text => ?_)
        fun answers went _ => ?_
      · by_cases same : text = content
        · simp only [same, if_true]
          exact (simulates_pure false).known
        · simp only [same, if_false]
          exact writes
      · obtain ⟨-, rfl⟩ := eq_of_ask went
        exact answers
  · obtain ⟨asked, rfl⟩ := eq_of_ask went
    exact ⟨_, asked⟩

end Frame

end Run

end ReadOnlyViews
