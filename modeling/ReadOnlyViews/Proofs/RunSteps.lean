import Mathlib.Logic.Relation
import ReadOnlyViews.Proofs.Texts
import ReadOnlyViews.Run.Batch

/-!
What a run can do.  Every run over entities is a row of steps: something is said, a clock is read, a
file is edited, generated or deleted and listed as such, or the disk refuses a change.  The relation
says for each change of a file which file it is and where its new content comes from, so whatever
holds of a run is shown step by step, and the functions of a run are taken apart only here.
-/

namespace ReadOnlyViews

/-- The source of a kind that belongs to an entity. -/
def Layout.sourceFile (layout : Layout) (entity : Entity) : ReadOnly.SourceKind → Text
  | .entity => layout.entityFile entity
  | .repository => layout.repositoryFile entity
  | .resource => layout.resourceFile entity
  | .service => layout.serviceFile entity
  | .test => layout.resourceTestFile entity

/-- The ways in which a run words a failure. -/
def Failure.wordings (failure : Failure) : List Text :=
  ["failed to edit: ".toList ++ failure.message,
    "failed to write changelog: ".toList ++ failure.message,
    "failed to generate: ".toList ++ failure.message,
    "failed to delete: ".toList ++ failure.message,
    failure.message ++ "; changelog not generated".toList,
    "unexpected failure: ".toList ++ failure.label ++ ": ".toList ++ failure.message]

/-- A diagnostic tells that the disk refused something. -/
def Diagnostic.TellsFault (d : Diagnostic) : Prop :=
  ∃ fault path onto, d.message ∈ (Failure.disk fault path onto).wordings

/-- A diagnostic about a fault of the disk gives the number of the fault. -/
theorem Diagnostic.TellsFault.errno_infix {d : Diagnostic} (tells : d.TellsFault) :
    "[Errno ".toList <:+: d.message := by
  obtain ⟨fault, path, onto, worded⟩ := tells
  have starts : "[Errno ".toList <+: (Failure.disk fault path onto).message := by
    unfold Failure.message
    simp only [List.append_assoc, List.prefix_append]
  have numbered := starts.isInfix
  generalize (Failure.disk fault path onto) = failure at worded numbered starts
  simp only [Failure.wordings, List.mem_cons, List.not_mem_nil, or_false] at worded
  rcases worded with edit | write | generate | delete | unwritten | unexpected
  · exact edit ▸ numbered.trans (List.suffix_append _ _).isInfix
  · exact write ▸ numbered.trans (List.suffix_append _ _).isInfix
  · exact generate ▸ numbered.trans (List.suffix_append _ _).isInfix
  · exact delete ▸ numbered.trans (List.suffix_append _ _).isInfix
  · exact unwritten ▸ numbered.trans (List.prefix_append _ _).isInfix
  · exact unexpected ▸ numbered.trans (List.suffix_append _ _).isInfix

/-- Diagnostics that give no number of a fault tell of none. -/
theorem Run.silent_of_words {items : List Diagnostic}
    (words : items.all (fun d => !Text.includes "[Errno " d.message) = true) :
    ∀ d ∈ items, ¬ d.TellsFault := by
  intro d said tells
  have without := List.all_eq_true.mp words d said
  rw [Bool.not_eq_true', Text.includes_eq_false_iff] at without
  exact without tells.errno_infix

/-- What an edit of a file comes to.  Only the last case changes the project's files. -/
inductive Workspace.Edited (wellFormed : Text → Bool) (space : Workspace) (file : Text)
    (conversion : Conversion) : Except Failure FileEdit × Workspace → Prop where
  | unread {failure : Failure} (read : space.project.read file = .error failure) :
      Edited wellFormed space file conversion (.error failure, space)
  | failed {before : Text} {failure : Failure} (read : space.project.read file = .ok before)
      (made : conversion space.asked before = .error failure) :
      Edited wellFormed space file conversion (.ok { file, error := some failure }, space)
  | kept {converted : ReadOnly.Converted} (read : space.project.read file = .ok converted.text)
      (made : conversion space.asked converted.text = .ok converted) :
      Edited wellFormed space file conversion
        (.ok { file, steps := converted.steps }, { space with asked := converted.asked })
  | reverted {before : Text} {converted : ReadOnly.Converted}
      (read : space.project.read file = .ok before)
      (made : conversion space.asked before = .ok converted) (changes : converted.text ≠ before)
      (breaks : (Text.endsWith ".java" file && !wellFormed converted.text && wellFormed before) =
        true) :
      Edited wellFormed space file conversion
        (.ok { file, steps := converted.steps, error := some .brokenEdit, reverted := true },
          { space with asked := converted.asked })
  | refused {before : Text} {converted : ReadOnly.Converted} {failure : Failure} {project : Project}
      (read : space.project.read file = .ok before)
      (made : conversion space.asked before = .ok converted)
      (refused : space.project.write file converted.text = (.error failure, project)) :
      Edited wellFormed space file conversion
        (.error failure, { project, asked := converted.asked })
  | changed {before : Text} {converted : ReadOnly.Converted} {project : Project}
      (read : space.project.read file = .ok before)
      (made : conversion space.asked before = .ok converted) (changes : converted.text ≠ before)
      (written : space.project.write file converted.text = (.ok (), project)) :
      Edited wellFormed space file conversion
        (.ok { file, changed := true, steps := converted.steps },
          { project, asked := converted.asked })

theorem Workspace.edited_edit (wellFormed : Text → Bool) (space : Workspace) (file : Text)
    (conversion : Conversion) :
    Edited wellFormed space file conversion (space.edit wellFormed file conversion) := by
  unfold edit
  split
  · exact .unread ‹_›
  · rename_i before read
    split
    · exact .failed read ‹_›
    · rename_i text steps asked made
      dsimp only
      split
      · rename_i same
        subst same
        exact @Edited.kept _ _ _ _ ⟨text, steps, asked⟩ read made
      · rename_i changes
        split
        · rename_i breaks
          exact @Edited.reverted _ _ _ _ before ⟨text, steps, asked⟩ read made changes breaks
        · split
          · rename_i failure project refused
            exact @Edited.refused _ _ _ _ before ⟨text, steps, asked⟩ failure project read made refused
          · rename_i project written
            exact @Edited.changed _ _ _ _ before ⟨text, steps, asked⟩ project read made changes written

namespace Run

/-- The run after something was said. -/
def saying (run : Run) (d : Diagnostic) : Run := { run with reporter := run.reporter.emit d }

/-- The run after several things were said. -/
def sayingAll (run : Run) (ds : List Diagnostic) : Run :=
  { run with reporter := run.reporter.emitAll ds }

/-- The run with an addition to its report. -/
def recording (run : Run) (update : RunReport → RunReport) : Run :=
  { run with report := update run.report }

/-- The run with another project. -/
def withProject (run : Run) (project : Project) : Run :=
  { run with space := { run.space with project } }

/-- The run with other class names asked about. -/
def withAsked (run : Run) (asked : Java.AskedNames) : Run :=
  { run with space := { run.space with asked } }

section

variable (options : RunOptions) (entities : List Entity)

/-- The edits that a run over entities makes: of their sources, of the master changelog and of the
application's settings. -/
inductive Edits : Text → Conversion → Prop where
  | source {entity : Entity} (kind : ReadOnly.SourceKind) (member : entity ∈ entities) :
      Edits (options.layout.sourceFile entity kind) (ReadOnly.convert kind entity.table)
  | registration {entity : Entity} {existing : List Name} {clock later : Clock} {name stamp : Text}
      (member : entity ∈ entities)
      (drawn : Changelog.nextView existing entity.table clock = (.ok (name, stamp), later)) :
      Edits options.layout.masterChangelog (.single "master include" (Changelog.register name))
  | cleanup {entity : Entity} (member : entity ∈ entities) :
      Edits options.layout.masterChangelog
        (.single "table includes" (Changelog.removeTableIncludes entity.className))
  | settings (settings : MyBatis.Settings) :
      Edits options.layout.applicationYml
        (.single "mybatis config" (MyBatis.appendSettings settings options.layout.package))

/-- The files that a run generates in a project: changelogs of views and MyBatis sources. -/
inductive Generates (project : Project) : Text → Text → Prop where
  | changelog {entity : Entity} {existing : List Name} {clock later : Clock} {name stamp : Text}
      (member : entity ∈ entities)
      (listed : project.list options.layout.changelogFolder = .ok existing)
      (drawn : Changelog.nextView existing entity.table clock = (.ok (name, stamp), later))
      (sql : Text) :
      Generates project (options.layout.changelogFolder ++ "/" ++ name)
        (Changelog.renderView entity.className entity.table (Sql.selectStatement sql) stamp)
  | source (parts : List Text) (name content : Text) :
      Generates project (options.layout.inMain (parts ++ [name ++ ".java"])) content

/-- The files that a run deletes: changelogs of an entity's table, and its sample data. -/
inductive Deletes : Text → Prop where
  | changelog {entity : Entity} {name : Name} (member : entity ∈ entities)
      (ofTable : Changelog.isTable entity.className name ∨
        Changelog.isConstraints entity.className name) :
      Deletes (options.layout.changelogFolder ++ "/" ++ name)
  | sample {entity : Entity} (member : entity ∈ entities) :
      Deletes (options.layout.fakeDataFolder ++ "/" ++ entity.table ++ ".csv")

end

/-- A path ends as its last part does. -/
private theorem getLast?_ofParts (parts : List Text) {name : Text} {c : Char}
    (ends : name.getLast? = some c) :
    (Text.join "/".toList (parts ++ [name])).getLast? = some c := by
  rw [Text.getLast?_join _ _ ?_, ends]
  rintro rfl
  cases ends

theorem getLast?_sourceFile (layout : Layout) (entity : Entity) (kind : ReadOnly.SourceKind) :
    (layout.sourceFile entity kind).getLast? = some 'a' := by
  cases kind with
  | entity => exact getLast?_ofParts [_, _, "domain".toList] (by simp)
  | repository => exact getLast?_ofParts [_, _, "repository".toList] (by simp)
  | resource => exact getLast?_ofParts [_, _, "web".toList, "rest".toList] (by simp)
  | service => exact getLast?_ofParts [_, _, "service".toList] (by simp)
  | test => exact getLast?_ofParts [_, _, "web".toList, "rest".toList] (by simp)

theorem getLast?_inMain (layout : Layout) (parts : List Text) (name : Text) :
    (layout.inMain (parts ++ [name ++ ".java"])).getLast? = some 'a' :=
  getLast?_ofParts (_ :: _ :: parts) (by simp)

theorem getLast?_changelogFolder (layout : Layout) : layout.changelogFolder.getLast? = some 'g' :=
  getLast?_ofParts [_, "config".toList, "liquibase".toList] (by decide)

theorem getLast?_masterChangelog (layout : Layout) : layout.masterChangelog.getLast? = some 'l' :=
  getLast?_ofParts [_, "config".toList, "liquibase".toList] (by decide)

theorem getLast?_applicationYml (layout : Layout) : layout.applicationYml.getLast? = some 'l' :=
  getLast?_ofParts [_, "config".toList] (by decide)

/-- A run edits Java sources, the master and the application's settings. -/
theorem Edits.file_cases {options : RunOptions} {entities : List Entity} {file : Text}
    {conversion : Conversion} (allowed : Edits options entities file conversion) :
    file.getLast? = some 'a' ∨ file = options.layout.masterChangelog ∨
      file = options.layout.applicationYml := by
  cases allowed with
  | source kind member => exact .inl (getLast?_sourceFile _ _ kind)
  | registration | cleanup => exact .inr (.inl rfl)
  | settings => exact .inr (.inr rfl)

/-- A run generates changelogs of views and Java sources. -/
theorem Generates.file_cases {options : RunOptions} {entities : List Entity} {project : Project}
    {file content : Text} (allowed : Generates options entities project file content) :
    file.getLast? = some 'a' ∨
      ∃ entity ∈ entities, ∃ existing clock later name stamp,
        file = options.layout.changelogFolder ++ '/' :: name ∧
        project.list options.layout.changelogFolder = .ok existing ∧
        Changelog.nextView existing entity.table clock = (.ok (name, stamp), later) := by
  cases allowed with
  | @changelog entity existing clock later name stamp member listed drawn sql =>
    exact .inr ⟨entity, member, existing, clock, later, name, stamp, by simp, listed, drawn⟩
  | source parts name => exact .inl (getLast?_inMain _ parts name)

/-- A run deletes changelogs of tables and sample data. -/
theorem Deletes.file_cases {options : RunOptions} {entities : List Entity} {file : Text}
    (allowed : Deletes options entities file) :
    file.getLast? = some 'v' ∨
      ∃ entity ∈ entities, ∃ name, file = options.layout.changelogFolder ++ '/' :: name ∧
        (Changelog.isTable entity.className name ∨
          Changelog.isConstraints entity.className name) := by
  cases allowed with
  | @changelog entity name member ofTable => exact .inr ⟨entity, member, name, by simp, ofTable⟩
  | sample member =>
    left
    rw [List.getLast?_append_of_ne_nil _ (by decide)]
    decide

/-- More entities allow more deletes. -/
theorem Deletes.mono {options : RunOptions} {entities more : List Entity} {file : Text}
    (allowed : Deletes options entities file) (within : ∀ entity ∈ entities, entity ∈ more) :
    Deletes options more file := by
  cases allowed with
  | changelog member ofTable => exact .changelog (within _ member) ofTable
  | sample member => exact .sample (within _ member)

/-- What steps may do: the edits of files with their conversions, the files that are generated in a
project with their contents, the files that are deleted, and the entities that are listed. -/
structure Scope where
  edits : Text → Conversion → Prop
  generates : Project → Text → Text → Prop
  deletes : Text → Prop
  names : Text → Prop

/-- What a run over entities may do to files; the entities that it may list are given. -/
def scopeOf (options : RunOptions) (entities : List Entity)
    (names : Text → Prop := fun _ => True) : Scope where
  edits := Edits options entities
  generates := Generates options entities
  deletes := Deletes options entities
  names

/-- One step of a run. -/
inductive Step (scope : Scope) (run : Run) : Run → Prop where
  | said (d : Diagnostic) : Step scope run (run.saying d)
  | named {name : Text} (allowed : scope.names name) :
      Step scope run (run.recording fun report => { report with entities := report.entities ++ [name] })
  | blamed {entity : Text} {d : Diagnostic} (isError : d.level = .error)
      (about : d.entity = some entity) :
      Step scope run ((run.saying d).recording fun report =>
        { report with failed := report.failed ++ [entity] })
  | drew (clock : Clock) : Step scope run { run with clock }
  | loaded (settings : MyBatis.Settings) : Step scope run { run with settings := some settings }
  | asked (names : Java.AskedNames) : Step scope run (run.withAsked names)
  | edited {entity : Option Text} {file before : Text} {conversion : Conversion}
      {converted : ReadOnly.Converted} {project : Project}
      (allowed : scope.edits file conversion)
      (read : run.project.read file = .ok before)
      (made : conversion run.space.asked before = .ok converted)
      (changes : converted.text ≠ before)
      (written : run.project.write file converted.text = (.ok (), project)) :
      Step scope run ((((run.withAsked converted.asked).withProject project).sayingAll
        (editDiagnostics entity { file, changed := true, steps := converted.steps })).recording
          fun report => { report with changed := report.changed ++ [file] })
  | generated {file content : Text} {d : Diagnostic} {project : Project}
      (allowed : scope.generates run.project file content)
      (written : run.project.write file content = (.ok (), project))
      (told : d.path = some file) :
      Step scope run (((run.withProject project).recording
        fun report => { report with generated := report.generated ++ [file] }).saying d)
  | deleted {file : Text} {d : Diagnostic} {project : Project}
      (allowed : scope.deletes file)
      (erased : run.project.delete file = (.ok (), project))
      (told : d.path = some file) :
      Step scope run (((run.withProject project).recording
        fun report => { report with deleted := report.deleted ++ [file] }).saying d)
  | refusedEdit {file text : Text} {conversion : Conversion} {failure : Failure} {project : Project}
      (allowed : scope.edits file conversion)
      (refused : run.project.write file text = (.error failure, project)) :
      Step scope run (run.withProject project)
  | refusedSource {file content : Text} {failure : Failure} {project : Project}
      (allowed : scope.generates run.project file content)
      (refused : run.project.write file content = (.error failure, project)) :
      Step scope run (run.withProject project)
  | refusedDelete {file : Text} {failure : Failure} {project : Project}
      (allowed : scope.deletes file)
      (refused : run.project.delete file = (.error failure, project)) :
      Step scope run (run.withProject project)

/-- Steps in a row. -/
abbrev Steps (scope : Scope) : Run → Run → Prop := Relation.ReflTransGen (Step scope)

/-- The run that a step of it leaves behind, whether it fails or not. -/
def after {α : Type} (step : RunM α) (run : Run) : Run :=
  match step run with
  | .ok _ later => later
  | .error _ later => later

variable {scope : Scope} {options : RunOptions} {entities : List Entity} {names : Text → Prop}

theorem Steps.options_eq {run later : Run} (steps : Steps scope run later) :
    later.options = run.options := by
  induction steps with
  | refl => rfl
  | tail _ step ih =>
    rw [← ih]
    cases step <;> rfl

private theorem items_saying (run : Run) (d : Diagnostic) :
    (run.saying d).reporter.items = run.reporter.items ++ [d] := rfl

theorem items_sayingAll (run : Run) (ds : List Diagnostic) :
    (run.sayingAll ds).reporter.items = run.reporter.items ++ ds := by
  induction ds generalizing run with
  | nil => exact (List.append_nil _).symm
  | cons d ds ih =>
    refine (ih (run.saying d)).trans ?_
    rw [items_saying, List.append_assoc, List.singleton_append]

/-- Nothing that was said is taken back. -/
theorem Steps.items_subset {run later : Run} (steps : Steps scope run later) :
    run.reporter.items ⊆ later.reporter.items := by
  induction steps with
  | refl => exact List.Subset.refl _
  | @tail middle later _ step ih =>
    refine List.Subset.trans ih ?_
    cases step with
    | said d | blamed | generated | deleted => exact List.subset_append_left _ _
    | @edited entity file before conversion converted project allowed read made changes written =>
      have items := items_sayingAll ((middle.withAsked converted.asked).withProject project)
        (editDiagnostics entity { file, changed := true, steps := converted.steps })
      exact items ▸ List.subset_append_left _ _
    | named | drew | loaded | asked | refusedEdit | refusedSource | refusedDelete =>
      exact List.Subset.refl _

section

variable {α β : Type} {run : Run}

private theorem steps_of_ok {step : RunM α} {result : α} {later : Run} (done : step run = .ok result later)
    (steps : Steps scope run later) : Steps scope run (after step run) := by
  simpa only [after, done] using steps

theorem steps_to_of_ok {step : RunM α} {result : α} {later : Run}
    (done : step run = .ok result later) (steps : Steps scope run (after step run)) :
    Steps scope run later := by
  simpa only [after, done] using steps

theorem eq_ok_after {step : RunM α} {result : α} (answered : step.run' run = some result) :
    step run = .ok result (after step run) := by
  delta EStateM.run' EStateM.run at answered
  cases went : step run with
  | ok value later =>
    rw [went] at answered
    cases answered
    simp only [after, went]
  | error failure later =>
    rw [went] at answered
    cases answered

theorem bind_of_ok {first : RunM α} {rest : α → RunM β} {result : α} {later : Run}
    (went : first run = .ok result later) : (first >>= rest) run = rest result later := by
  simp only [bind, EStateM.bind, went]

theorem bind_of_error {first : RunM α} {rest : α → RunM β} {failure : Failure} {later : Run}
    (went : first run = .error failure later) : (first >>= rest) run = .error failure later := by
  simp only [bind, EStateM.bind, went]

theorem after_bind_of_ok {first : RunM α} {rest : α → RunM β} {result : α} {later : Run}
    (went : first run = .ok result later) :
    after (first >>= rest) run = after (rest result) later := by
  simp only [after, bind_of_ok went]

theorem after_bind_of_error {first : RunM α} {rest : α → RunM β} {failure : Failure} {later : Run}
    (went : first run = .error failure later) : after (first >>= rest) run = later := by
  simp only [after, bind_of_error went]

private theorem steps_bind {first : RunM α} {rest : α → RunM β}
    (before : Steps scope run (after first run))
    (behind : ∀ result later, first run = .ok result later → later.options = run.options →
      Steps scope later (after (rest result) later)) :
    Steps scope run (after (first >>= rest) run) := by
  cases went : first run with
  | ok result later =>
    simp only [after, went] at before
    rw [after_bind_of_ok went]
    exact before.trans (behind result later went before.options_eq)
  | error failure later =>
    rw [after_bind_of_error went]
    simpa only [after, went] using before

theorem get_bind_apply {rest : Run → RunM α} (run : Run) : (get >>= rest) run = rest run run := rfl

theorem after_get_bind {rest : Run → RunM β} : after (get >>= rest) run = after (rest run) run := rfl

theorem after_set_bind {other : Run} {rest : PUnit → RunM β} :
    after (set other >>= rest) run = after (rest ()) other := rfl

theorem after_bind_pure {first : RunM α} (result : β) :
    after (first >>= fun _ => pure result) run = after first run := by
  cases went : first run with
  | ok value later =>
    rw [after_bind_of_ok went]
    simp only [after, went]
    rfl
  | error failure later =>
    rw [after_bind_of_error went]
    simp only [after, went]

/-- What follows a step is a row of steps from where the step ended. -/
theorem steps_after_bind {first : RunM α} {rest : α → RunM β}
    (behind : ∀ result later, first run = .ok result later →
      Steps scope later (after (rest result) later)) :
    Steps scope (after first run) (after (first >>= rest) run) := by
  cases went : first run with
  | ok result later =>
    rw [after_bind_of_ok went]
    simpa only [after, went] using behind result later went
  | error failure later =>
    rw [after_bind_of_error went]
    simp only [after, went]
    exact .refl

theorem exists_of_bind_eq_ok {first : RunM α} {rest : α → RunM β} {result : β} {final : Run}
    (ran : (first >>= rest) run = .ok result final) :
    ∃ value middle, first run = .ok value middle ∧ rest value middle = .ok result final := by
  cases went : first run with
  | ok value middle => exact ⟨value, middle, rfl, by simpa [bind, EStateM.bind, went] using ran⟩
  | error failure middle => simp [bind, EStateM.bind, went] at ran

theorem tryCatch_eq (step : RunM α) (handler : Failure → RunM α) (run : Run) :
    tryCatch step handler run =
      match step run with
      | .ok result later => .ok result later
      | .error failure later => handler failure later := by
  show EStateM.tryCatch step handler run = _
  delta EStateM.tryCatch
  cases step run <;> rfl

private theorem steps_tryCatch {step : RunM α} {handler : Failure → RunM α}
    (before : Steps scope run (after step run))
    (behind : ∀ failure later, step run = .error failure later →
      Steps scope later (after (handler failure) later)) :
    Steps scope run (after (tryCatch step handler) run) := by
  cases went : step run with
  | ok result later =>
    have both : after (tryCatch step handler) run = later := by
      simp only [after, tryCatch_eq, went]
    rw [both]
    simpa only [after, went] using before
  | error failure later =>
    have both : after (tryCatch step handler) run = after (handler failure) later := by
      simp only [after, tryCatch_eq, went]
    simp only [after, went] at before
    rw [both]
    exact before.trans (behind failure later went)

/-- Whatever is done about a failure is a row of steps from where it happened. -/
theorem steps_after_tryCatch {step : RunM α} {handler : Failure → RunM α}
    (behind : ∀ failure later, step run = .error failure later →
      Steps scope later (after (handler failure) later)) :
    Steps scope (after step run) (after (tryCatch step handler) run) := by
  cases went : step run with
  | ok result later =>
    simp only [after, tryCatch_eq, went]
    exact .refl
  | error failure later =>
    simpa only [after, tryCatch_eq, went] using behind failure later went

private theorem steps_pure (result : α) : Steps scope run (after (pure result : RunM α) run) :=
  .refl

private theorem steps_throw (failure : Failure) :
    Steps scope run (after (throw failure : RunM α) run) := .refl

private theorem steps_say (d : Diagnostic) : Steps scope run (after (say d) run) :=
  .single (.said d)

private theorem steps_ask (question : Project → Except Failure α) :
    Steps scope run (after (ask question) run) := by
  cases answered : question run.project with
  | ok answer => simp [after, ask, answered, Relation.ReflTransGen.refl]
  | error failure => simp [after, ask, answered, Relation.ReflTransGen.refl]

private theorem steps_ask_bind {question : Project → Except Failure α} {rest : α → RunM β}
    (behind : ∀ answer, question run.project = .ok answer →
      Steps scope run (after (rest answer) run)) :
    Steps scope run (after (ask question >>= rest) run) := by
  refine steps_bind (steps_ask question) fun answer later asked _ => ?_
  cases answered : question run.project with
  | ok known =>
    obtain ⟨rfl, rfl⟩ : known = answer ∧ run = later := by simpa [ask, answered] using asked
    exact behind known answered
  | error failure => simp [ask, answered] at asked

private theorem steps_get_bind {rest : Run → RunM β}
    (behind : Steps scope run (after (rest run) run)) :
    Steps scope run (after (get >>= rest) run) := behind

theorem steps_forM {items : List α} {each : α → RunM Unit}
    (one : ∀ item ∈ items, ∀ run : Run, run.options = options →
      Steps scope run (after (each item) run)) (told : run.options = options) :
    Steps scope run (after (items.forM each) run) := by
  induction items generalizing run with
  | nil => exact steps_pure ()
  | cons item items ih =>
    refine steps_bind (one item (by simp) run told) fun _ later _ same => ?_
    exact ih (fun other member => one other (by simp [member])) (same.trans told)

/-- What is done for some items and then for others. -/
theorem after_forM_append {front back : List α} {each : α → RunM Unit} {middle : Run}
    (went : front.forM each run = .ok () middle) :
    after ((front ++ back).forM each) run = after (back.forM each) middle := by
  induction front generalizing run with
  | nil =>
    cases went
    rfl
  | cons item front ih =>
    obtain ⟨_, next, first, others⟩ := exists_of_bind_eq_ok went
    exact (after_bind_of_ok first).trans (ih others)

end

theorem forM_say (ds : List Diagnostic) (run : Run) : ds.forM say run = .ok () (run.sayingAll ds) := by
  induction ds generalizing run with
  | nil => rfl
  | cons d ds ih => exact ih (run.saying d)

private theorem steps_sayingAll {run : Run} (ds : List Diagnostic) :
    Steps scope run (run.sayingAll ds) := by
  induction ds generalizing run with
  | nil => exact .refl
  | cons d ds ih => exact .head (.said d) ih

private theorem steps_forM_say {run : Run} (ds : List Diagnostic) :
    Steps scope run (after (ds.forM say) run) :=
  steps_of_ok (forM_say ds run) (steps_sayingAll ds)

/-! ### Parts of steps

What a function of a run does in one of its cases has a name here, for everything that is shown of
runs step by step. -/

/-- What is done about an edit that failed: it is said of the file, or goes on as a failure. -/
def reportFailedEdit (entity : Option Text) (file : Text) (failure : Failure) : RunM Bool :=
  if isReported failure then do
    say { level := .error, message := "failed to edit: " ++ failure.message, entity,
          path := some file }
    return false
  else throw failure

/-- What is done about an edit that went through: what came of it is said, and a change is listed. -/
def concludeEdit (entity : Option Text) (file : Text) (edit : FileEdit) : RunM Bool := do
  (editDiagnostics entity edit).forM say
  if edit.changed then record fun report => { report with changed := report.changed ++ [file] }
  return edit.error.isNone

/-- What is done about a SQL file that may not be read: its entity has failed. -/
def refuseSqlFile (entity : Entity) (failure : Failure) : RunM Bool := do
  if failure.family ≠ .validation then throw failure
  say { level := .error, message := failure.message, entity := some entity.name }
  recordFailed entity
  return false

/-- The removal of the files of an entity's table definitions. -/
def deleteArtifacts (layout : Layout) (entity : Entity) : RunM Unit := do
  let names ← ask (·.list layout.changelogFolder)
  (names.filter fun name =>
      Changelog.isTable entity.className name || Changelog.isConstraints entity.className name).forM
    fun name => deleteArtifact entity (layout.changelogFolder ++ "/" ++ name)
  let sample := layout.fakeDataFolder ++ "/" ++ entity.table ++ ".csv"
  if ← ask (·.has sample) then deleteArtifact entity sample

private theorem steps_reportFailedEdit (run : Run) (entity : Option Text) (file : Text) (failure : Failure) :
    Steps scope run (after (reportFailedEdit entity file failure) run) := by
  unfold reportFailedEdit
  split
  · exact steps_bind (steps_say _) fun _ _ _ _ => steps_pure _
  · exact steps_throw failure

private theorem after_concludeEdit (entity : Option Text) (file : Text) (edit : FileEdit) (run : Run) :
    after (concludeEdit entity file edit) run =
      if edit.changed then (run.sayingAll (editDiagnostics entity edit)).recording
        fun report => { report with changed := report.changed ++ [file] }
      else run.sayingAll (editDiagnostics entity edit) := by
  unfold concludeEdit
  rw [after_bind_of_ok (forM_say _ _)]
  cases edit.changed with
  | false => rfl
  | true => rfl

/-- What is said of an edit that changed nothing. -/
theorem steps_concludeEdit {run : Run} (entity : Option Text) (file : Text) {edit : FileEdit}
    (unchanged : edit.changed = false) :
    Steps scope run (after (concludeEdit entity file edit) run) := by
  rw [after_concludeEdit, unchanged]
  exact steps_sayingAll _

/-- An edit of a file is a row of steps; at most one of them changes the file. -/
theorem steps_editFile {run : Run} {entity : Option Text} {file : Text} {conversion : Conversion}
    (allowed : scope.edits file conversion) (required : Bool) :
    Steps scope run (after (editFile entity file conversion required) run) := by
  unfold editFile
  refine steps_ask_bind fun there _ => ?_
  cases there with
  | false =>
    cases required with
    | false => exact steps_bind (steps_say _) fun _ _ _ _ => steps_pure _
    | true => exact steps_bind (steps_say _) fun _ _ _ _ => steps_pure _
  | true =>
    refine steps_get_bind ?_
    have noted (asked : Java.AskedNames) : Steps scope run (run.withAsked asked) :=
      .single (.asked asked)
    have outcome := Workspace.edited_edit run.parses run.space file conversion
    cases pair : run.space.edit run.parses file conversion with
    | mk result space =>
      rw [pair] at outcome
      cases outcome with
      | @unread failure => exact steps_reportFailedEdit run entity file failure
      | @failed _ failure =>
        exact @steps_concludeEdit scope run entity file { file, error := some failure } rfl
      | @kept converted =>
        exact (noted converted.asked).trans (@steps_concludeEdit scope
          (run.withAsked converted.asked) entity file { file, steps := converted.steps } rfl)
      | @reverted _ converted =>
        exact (noted converted.asked).trans (@steps_concludeEdit scope
          (run.withAsked converted.asked) entity file
          { file, steps := converted.steps, error := some .brokenEdit, reverted := true } rfl)
      | @refused _ converted failure project _ _ refused =>
        exact ((noted converted.asked).tail (.refusedEdit allowed refused)).trans
          (steps_reportFailedEdit ((run.withAsked converted.asked).withProject project) entity file
            failure)
      | @changed _ converted project read made changes written =>
        have concluded := after_concludeEdit entity file
          { file, changed := true, steps := converted.steps }
          ((run.withAsked converted.asked).withProject project)
        exact concluded ▸ .single (.edited allowed read made changes written)

private theorem steps_viewSql {run : Run} (entity : Entity) :
    Steps scope run (after (viewSql entity) run) := by
  unfold viewSql
  refine steps_get_bind ?_
  dsimp only
  split
  · exact steps_pure _
  · rename_i failure _
    have blames (d : Diagnostic) (isError : d.level = .error)
        (about : d.entity = some entity.name) :
        Steps scope run (after (do
          say d
          recordFailed entity
          return (none : Option Text)) run) :=
      .single (.blamed isError about)
    split
    · exact blames _ rfl rfl
    · exact steps_bind (steps_say _) fun _ _ _ _ => steps_pure _
    · exact steps_bind (steps_say _) fun _ _ _ _ => steps_pure _
    · exact blames _ rfl rfl
    · exact steps_throw failure

private theorem steps_refuseSqlFile {run : Run} (entity : Entity) (failure : Failure) :
    Steps scope run (after (refuseSqlFile entity failure) run) := by
  unfold refuseSqlFile
  by_cases invalid : failure.family ≠ .validation
  · rw [if_pos invalid]
    exact steps_throw failure
  · rw [if_neg invalid]
    exact .single (.blamed rfl rfl)

private theorem steps_sqlFileAllowed {run : Run} (entity : Entity) :
    Steps scope run (after (sqlFileAllowed entity) run) := by
  unfold sqlFileAllowed
  split
  · exact steps_pure _
  · refine steps_get_bind ?_
    dsimp only
    split
    · exact steps_pure _
    · exact steps_refuseSqlFile entity _
    · exact steps_refuseSqlFile entity _

theorem steps_registerChangelog {run : Run} (told : run.options = options) {entity : Entity}
    {existing : List Name} {clock later : Clock} {name stamp : Text} (member : entity ∈ entities)
    (drawn : Changelog.nextView existing entity.table clock = (.ok (name, stamp), later)) :
    Steps (scopeOf options entities names) run (after (registerChangelog entity name) run) := by
  unfold registerChangelog
  refine steps_get_bind (steps_ask_bind fun there _ => ?_)
  rw [told]
  cases there with
  | true =>
    exact steps_bind (steps_editFile (Edits.registration member drawn) false) fun _ _ _ _ => steps_pure _
  | false => exact steps_say _

/-- What a write of a generated file comes to. -/
inductive WroteIfChanged (run : Run) (file content : Text) : EStateM.Result Failure Run Bool → Prop where
  | unknown {failure : Failure}
      (asked : run.project.has file = .error failure ∨ run.project.read file = .error failure) :
      WroteIfChanged run file content (.error failure run)
  | same (present : run.project.has file = .ok true) (read : run.project.read file = .ok content) :
      WroteIfChanged run file content (.ok false run)
  | refused {failure : Failure} {project : Project}
      (refused : run.project.write file content = (.error failure, project)) :
      WroteIfChanged run file content (.error failure (run.withProject project))
  | written {project : Project} (written : run.project.write file content = (.ok (), project)) :
      WroteIfChanged run file content (.ok true (run.withProject project))

theorem wroteIfChanged (run : Run) (file content : Text) :
    WroteIfChanged run file content (writeIfChanged file content run) := by
  have writes : WroteIfChanged run file content
      ((change (·.write file content) >>= fun _ => pure true : RunM Bool) run) := by
    cases wrote : run.project.write file content with
    | mk result project =>
      cases result with
      | error failure =>
        simp only [bind, EStateM.bind, change, wrote]
        exact .refused wrote
      | ok _ =>
        simp only [bind, EStateM.bind, change, wrote]
        exact .written wrote
  cases present : run.project.has file with
  | error failure =>
    simp only [writeIfChanged, bind, EStateM.bind, ask, present]
    exact .unknown (.inl present)
  | ok there =>
    cases there with
    | false =>
      simpa [writeIfChanged, bind, EStateM.bind, ask, present] using writes
    | true =>
      cases read : run.project.read file with
      | error failure =>
        simp only [writeIfChanged, bind, EStateM.bind, ask, present, read, if_true]
        exact .unknown (.inr read)
      | ok old =>
        by_cases equal : old = content
        · subst equal
          simp [writeIfChanged, bind, EStateM.bind, ask, present, read]
          exact .same present read
        · simpa [writeIfChanged, bind, EStateM.bind, ask, present, read, equal] using writes

/-- A changelog is written and listed, or not written at all. -/
theorem steps_storeChangelog {run : Run} {file content : Text}
    (allowed : scope.generates run.project file content) (entity : Entity) :
    Steps scope run (after (storeChangelog entity file content) run) := by
  have outcome := wroteIfChanged run file content
  unfold storeChangelog
  refine steps_tryCatch ?_ fun failure later _ => ?_
  · cases wrote : writeIfChanged file content run with
    | ok written later =>
      rw [wrote] at outcome
      simp only [after, bind, EStateM.bind, wrote]
      cases outcome with
      | same => exact .refl
      | written written => exact .single (.generated allowed written rfl)
    | error failure later =>
      rw [wrote] at outcome
      simp only [after, bind, EStateM.bind, wrote]
      cases outcome with
      | unknown => exact .refl
      | refused refused => exact .single (.refusedSource allowed refused)
  · cases reported : isReported failure with
    | true => exact steps_bind (steps_say _) fun _ _ _ _ => steps_pure _
    | false => exact steps_throw failure

private theorem steps_drawChangelog {run : Run} (existing : List Name) (view : Text) :
    Steps scope run (after (drawChangelog existing view) run) := by
  unfold drawChangelog
  refine steps_get_bind ?_
  cases Changelog.nextView existing view run.clock with
  | mk result clock =>
    cases result with
    | ok drawn => exact .single (.drew clock)
    | error failure => exact .single (.drew clock)

theorem exists_nextView_of_drawChangelog {run later : Run} {existing : List Name} {view : Text}
    {drawn : Text × Text} (drew : drawChangelog existing view run = .ok drawn later) :
    ∃ clock, Changelog.nextView existing view run.clock = (.ok drawn, clock) ∧
      later = { run with clock } := by
  unfold drawChangelog at drew
  obtain ⟨_, _, got, drew⟩ := exists_of_bind_eq_ok drew
  cases got
  cases next : Changelog.nextView existing view run.clock with
  | mk result clock =>
    rw [next] at drew
    cases result with
    | error failure => cases drew
    | ok pair =>
      cases drew
      exact ⟨clock, rfl, rfl⟩

theorem steps_writeViewChangelog {run : Run} (told : run.options = options) {entity : Entity}
    (member : entity ∈ entities) :
    Steps (scopeOf options entities names) run (after (writeViewChangelog entity) run) := by
  unfold writeViewChangelog
  refine steps_bind (steps_viewSql entity) fun sql asking _ same => ?_
  have toldAsking : asking.options = options := same.trans told
  cases sql with
  | none => exact steps_pure _
  | some sql =>
    refine steps_get_bind (steps_ask_bind fun existing listed => ?_)
    refine steps_bind (steps_drawChangelog existing entity.table) fun drawn drawing drew _ => ?_
    obtain ⟨clock, next, rfl⟩ := exists_nextView_of_drawChangelog drew
    obtain ⟨name, stamp⟩ := drawn
    dsimp only
    rw [toldAsking] at listed ⊢
    refine steps_bind (steps_storeChangelog (Generates.changelog member listed next sql) entity)
      fun written later _ same => ?_
    have toldLater : later.options = options := same
    cases written with
    | false => exact steps_pure _
    | true =>
      exact steps_bind (steps_registerChangelog toldLater member next) fun _ _ _ _ =>
        steps_pure _

private theorem steps_deleteArtifact {run : Run} {entity : Entity} {file : Text}
    (allowed : scope.deletes file) :
    Steps scope run (after (deleteArtifact entity file) run) := by
  unfold deleteArtifact
  refine steps_tryCatch ?_ fun failure later _ => ?_
  · cases erased : run.project.delete file with
    | mk result project =>
      cases result with
      | error failure =>
        simp only [after, bind, EStateM.bind, change, erased]
        exact .single (.refusedDelete allowed erased)
      | ok _ =>
        simp only [after, bind, EStateM.bind, change, erased]
        exact .single (.deleted allowed erased rfl)
  · by_cases other : failure.family ≠ .disk
    · rw [if_pos other]
      exact steps_throw failure
    · rw [if_neg other]
      exact steps_say _

private theorem steps_deleteArtifacts {run : Run} {entity : Entity}
    (deletes : ∀ file, Deletes options [entity] file → scope.deletes file) :
    Steps scope run (after (deleteArtifacts options.layout entity) run) := by
  unfold deleteArtifacts
  refine steps_ask_bind fun names _ => ?_
  refine steps_bind (steps_forM ?_ rfl) fun _ later _ _ => ?_
  · intro name chosen run _
    have ofTable := (List.mem_filter.mp chosen).2
    rw [Bool.or_eq_true] at ofTable
    exact steps_deleteArtifact (deletes _ (.changelog (by simp) ofTable))
  · refine steps_ask_bind fun there _ => ?_
    cases there with
    | false => exact steps_pure _
    | true => exact steps_deleteArtifact (deletes _ (.sample (by simp)))

theorem steps_removeTableDefinitions {run : Run} (told : run.options = options) {entity : Entity}
    (edits : scope.edits options.layout.masterChangelog
      (.single "table includes" (Changelog.removeTableIncludes entity.className)))
    (deletes : ∀ file, Deletes options [entity] file → scope.deletes file) :
    Steps scope run (after (removeTableDefinitions entity) run) := by
  unfold removeTableDefinitions
  refine steps_get_bind (steps_ask_bind fun there _ => ?_)
  dsimp only
  rw [told]
  cases there with
  | false => exact steps_deleteArtifacts deletes
  | true => exact steps_bind (steps_editFile edits false) fun _ _ _ _ => steps_deleteArtifacts deletes

/-- An entity is blamed with an error, and listed as failed if it is not listed yet. -/
theorem steps_blameOnce {run : Run} {entity : Text} {d : Diagnostic} (isError : d.level = .error)
    (about : d.entity = some entity) :
    Steps scope run ((run.saying d).recording fun report =>
      if report.failed.contains entity then report
      else { report with failed := report.failed ++ [entity] }) := by
  by_cases listed : run.report.failed.contains entity
  · have again : (run.saying d).recording (fun report =>
        if report.failed.contains entity then report
        else { report with failed := report.failed ++ [entity] }) = run.saying d := by
      simp only [recording, saying, listed, if_true]
    rw [again]
    exact .single (.said d)
  · have first : (run.saying d).recording (fun report =>
        if report.failed.contains entity then report
        else { report with failed := report.failed ++ [entity] }) =
        (run.saying d).recording fun report =>
          { report with failed := report.failed ++ [entity] } := by
      simp only [recording, saying, listed, Bool.false_eq_true, if_false]
    rw [first]
    exact .single (.blamed isError about)

theorem steps_guarded {run : Run} {entity : Entity} {step : RunM Unit}
    (steps : Steps scope run (after step run)) :
    Steps scope run (after (guarded entity step) run) := by
  unfold guarded
  refine steps_tryCatch steps fun failure later _ => ?_
  exact steps_blameOnce rfl rfl

theorem steps_prepareView {run : Run} (told : run.options = options) {entity : Entity}
    (member : entity ∈ entities) :
    Steps (scopeOf options entities names) run (after (prepareView entity) run) := by
  unfold prepareView
  refine steps_bind (steps_say _) fun _ spoken _ toSpoken => ?_
  refine steps_bind (steps_sqlFileAllowed entity) fun allowed checked _ toChecked => ?_
  have toldChecked : checked.options = options := toChecked.trans (toSpoken.trans told)
  cases allowed with
  | false => exact steps_pure _
  | true =>
    refine steps_get_bind ?_
    dsimp only
    rw [toldChecked]
    have converts (kind : ReadOnly.SourceKind) (required : Bool) (run : Run) :
        Steps (scopeOf options entities names) run (after (editFile (some entity.name)
          (options.layout.sourceFile entity kind) (ReadOnly.convert kind entity.table)
          required) run) :=
      steps_editFile (Edits.source kind member) required
    refine steps_bind (converts .entity true _) fun inOrder _ _ _ => ?_
    cases inOrder with
    | false => exact steps_pure _
    | true =>
      refine steps_bind (converts .repository false _) fun _ _ _ _ => ?_
      refine steps_bind (converts .resource false _) fun _ _ _ _ => ?_
      refine steps_bind (converts .service false _) fun _ _ _ _ => ?_
      exact steps_bind (converts .test false _) fun _ _ _ _ => steps_pure _

/-- What follows the changelog of a view. -/
theorem steps_cleanup {run : Run} (told : run.options = options) {entity : Entity}
    (member : entity ∈ entities) :
    Steps (scopeOf options entities names) run
      (after (if options.withCleanup then removeTableDefinitions entity else pure ()) run) := by
  split
  · refine steps_removeTableDefinitions told (.cleanup member) fun file allowed => ?_
    exact allowed.mono fun other only => List.mem_singleton.mp only ▸ member
  · exact steps_pure _

theorem steps_runView {run : Run} (told : run.options = options) {entity : Entity}
    (member : entity ∈ entities) :
    Steps (scopeOf options entities names) run (after (runView entity) run) := by
  unfold runView
  refine steps_bind (steps_prepareView told member) fun ready prepared _ toPrepared => ?_
  have toldPrepared : prepared.options = options := toPrepared.trans told
  cases ready with
  | false => exact steps_pure _
  | true =>
    refine steps_get_bind ?_
    dsimp only
    rw [toldPrepared]
    split
    · exact steps_bind (steps_writeViewChangelog toldPrepared member) fun _ _ _ same =>
        steps_cleanup (same.trans toldPrepared) member
    · exact steps_cleanup toldPrepared member

theorem steps_takeTurn {run : Run} (told : run.options = options) {entity : Entity}
    (member : entity ∈ entities) :
    Steps (scopeOf options entities) run (after (takeTurn entity) run) := by
  unfold takeTurn
  refine steps_bind (.single (.named trivial)) fun _ _ _ same => ?_
  split
  · exact steps_guarded (steps_runView (same.trans told) member)
  · exact steps_pure _

private theorem steps_generate {run : Run} {entity : Entity} {file content : Text}
    (allowed : scope.generates run.project file content) :
    Steps scope run (after (generate entity file content) run) := by
  have outcome := wroteIfChanged run file content
  unfold generate
  cases wrote : writeIfChanged file content run with
  | ok written later =>
    rw [wrote] at outcome
    simp only [after, bind, EStateM.bind, tryCatch_eq, wrote]
    cases outcome with
    | same => exact .refl
    | written written => exact .single (.generated allowed written rfl)
  | error failure later =>
    rw [wrote] at outcome
    have reached : Steps scope run later := by
      cases outcome with
      | unknown => exact .refl
      | refused refused => exact .single (.refusedSource allowed refused)
    simp only [after, bind, EStateM.bind, tryCatch_eq, wrote]
    cases reported : isReported failure with
    | true => exact reached.tail (.said _)
    | false => exact reached

theorem after_encode (half? : Option (Nat × Nat)) (run : Run) : after (encode half?) run = run := by
  cases half? with
  | none => rfl
  | some half => rfl

theorem after_encodeSettings (settings : MyBatis.Settings) (yml package : Text) (run : Run) :
    after (encodeSettings settings yml package) run = run := by
  unfold encodeSettings
  rw [after_get_bind]
  dsimp only
  split
  · exact after_encode _ run
  · rfl

theorem steps_generatePair {run : Run} (told : run.options = options) (settings : MyBatis.Settings)
    (entity : Entity) :
    Steps (scopeOf options entities names) run (after (generatePair settings entity) run) := by
  unfold generatePair
  refine steps_get_bind ?_
  dsimp only
  rw [told]
  refine steps_bind (after_encode _ _ ▸ .refl) fun _ _ _ _ => ?_
  refine steps_bind (steps_generate (.source _ _ _)) fun _ _ _ _ => ?_
  exact steps_bind (after_encode _ _ ▸ .refl) fun _ _ _ _ => steps_generate (.source _ _ _)

theorem steps_myBatisSettings {run : Run} :
    Steps scope run (after myBatisSettings run) := by
  unfold myBatisSettings
  refine steps_get_bind ?_
  split
  · exact steps_pure _
  · refine steps_ask_bind fun answer _ => ?_
    exact steps_bind (steps_forM_say _) fun _ _ _ _ => .single (.loaded _)

theorem steps_runMyBatis {run : Run} (told : run.options = options) (wanting : List Entity) :
    Steps (scopeOf options entities names) run (after (runMyBatis wanting) run) := by
  unfold runMyBatis
  refine steps_bind steps_myBatisSettings fun settings loaded _ same => ?_
  refine steps_get_bind ?_
  dsimp only
  rw [same, told]
  refine steps_bind (steps_forM ?_ (same.trans told)) fun _ later _ _ => ?_
  · intro entity _ run told
    exact steps_guarded (steps_generatePair told settings entity)
  · refine steps_ask_bind fun there _ => ?_
    cases there with
    | true =>
      refine steps_bind (after_encodeSettings _ _ _ _ ▸ .refl) fun _ _ _ _ => ?_
      exact steps_bind (steps_editFile (Edits.settings settings) false) fun _ _ _ _ => steps_pure _
    | false => exact steps_say _

/-- The MyBatis settings that a run has or loads can be encoded. -/
def HasTextSettings (run : Run) : Prop := ∀ settings ∈ myBatisSettings.run' run, settings.halves = []

instance (run : Run) : Decidable run.HasTextSettings :=
  inferInstanceAs (Decidable (∀ _ ∈ _, _))

theorem HasTextSettings.halves_eq_nil {run later : Run} (texts : run.HasTextSettings)
    {settings : MyBatis.Settings} (loads : myBatisSettings run = .ok settings later) :
    settings.halves = [] := by
  refine texts settings ?_
  delta EStateM.run' EStateM.run
  rw [loads]
  rfl

/-- Settings that can be encoded are put into the application's without a failure. -/
theorem encodeSettings_of_texts {settings : MyBatis.Settings} (texts : settings.halves = [])
    (yml package : Text) : encodeSettings settings yml package = pure () := by
  funext run
  unfold encodeSettings MyBatis.Settings.half?
  rw [texts, get_bind_apply]
  dsimp only
  split <;> rfl

theorem mem_of_mem_selected {options : RunOptions} {entities : List Entity} {entity : Entity}
    (member : entity ∈ selected options entities) : entity ∈ entities := by
  unfold selected at member
  split at member
  · exact member
  · exact (List.mem_filter.mp member).1

/-- The run once the entities that it takes had their turns. -/
def afterTurns (entities : List Entity) (run : Run) : Run :=
  after ((selected run.options entities).forM takeTurn) (run.recording fun _ => {})

/-- The turns of the entities that a run takes. -/
theorem steps_takeTurns (entities : List Entity) {run : Run} :
    Steps (scopeOf run.options entities) (run.recording fun _ => {}) (afterTurns entities run) :=
  steps_forM (fun _ chosen _ told => steps_takeTurn told (mem_of_mem_selected chosen)) rfl

/-- Whether or not a run over entities comes to its end: what follows the entities' turns is a row of
steps, and the project and what was said are as the last one left them. -/
theorem exists_steps_after_batch (entities : List Entity) (run : Run) :
    ∃ last, Steps (scopeOf run.options entities) (afterTurns entities run) last ∧
      (after (batch entities) run).project = last.project ∧
      (after (batch entities) run).reporter = last.reporter := by
  obtain ⟨rest, begins, ends⟩ : ∃ rest : PUnit → RunM RunReport,
      after (batch entities) run =
        after ((selected run.options entities).forM takeTurn >>= rest)
          (run.recording fun _ => {}) ∧
      ∀ viewed : Run, viewed.options = run.options →
        ∃ last, Steps (scopeOf run.options entities) viewed last ∧
          (after (rest ()) viewed).project = last.project ∧
          (after (rest ()) viewed).reporter = last.reporter := by
    refine ⟨_, rfl, fun viewed told => ?_⟩
    dsimp only
    split
    · generalize (selected run.options entities).filter
        (fun entity => entity.isMyBatis && run.options.withMyBatis) = wanting
      refine ⟨_, steps_runMyBatis told wanting, ?_⟩
      cases ran : runMyBatis wanting viewed with
      | ok _ later =>
        have left : after (runMyBatis wanting) viewed = later := by simp only [after, ran]
        rw [after_bind_of_ok ran, left]
        exact ⟨rfl, rfl⟩
      | error failure later =>
        have left : after (runMyBatis wanting) viewed = later := by simp only [after, ran]
        rw [after_bind_of_error ran, left]
        exact ⟨rfl, rfl⟩
    · exact ⟨viewed, .refl, rfl, rfl⟩
  rw [begins]
  cases went : (selected run.options entities).forM takeTurn (run.recording fun _ => {}) with
  | error failure later =>
    rw [after_bind_of_error went]
    refine ⟨later, ?_, rfl, rfl⟩
    simp only [afterTurns, after, went]
    exact .refl
  | ok _ viewed =>
    have steps := steps_to_of_ok went (steps_takeTurns entities)
    rw [after_bind_of_ok went]
    simp only [afterTurns, after, went]
    exact ends viewed steps.options_eq

/-- A run over entities is a row of steps from an empty report; its report then takes in what was
said. -/
theorem exists_steps_of_batch {run final : Run} {entities : List Entity} {report : RunReport}
    (ran : batch entities run = .ok report final) :
    ∃ last, Steps (scopeOf run.options entities) (run.recording fun _ => {}) last ∧
      final = last.recording (fun report => { report with diagnostics := last.reporter.items }) ∧
      report = final.report := by
  unfold batch at ran
  obtain ⟨_, start, started, ran⟩ := exists_of_bind_eq_ok ran
  obtain ⟨_, same, got, ran⟩ := exists_of_bind_eq_ok ran
  cases started
  cases got
  obtain ⟨_, viewed, views, ran⟩ := exists_of_bind_eq_ok ran
  have toViewed : Steps (scopeOf run.options entities) (run.recording fun _ => {}) viewed :=
    steps_to_of_ok views (steps_takeTurns entities)
  dsimp only at ran
  split at ran
  · obtain ⟨_, last, generated, ran⟩ := exists_of_bind_eq_ok ran
    cases ran
    refine ⟨last, toViewed.trans (steps_to_of_ok generated ?_), rfl, rfl⟩
    exact steps_runMyBatis toViewed.options_eq _
  · cases ran
    exact ⟨viewed, toViewed, rfl, rfl⟩

end Run

end ReadOnlyViews
