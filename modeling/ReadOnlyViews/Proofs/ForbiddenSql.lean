import ReadOnlyViews.Proofs.Returning

/-!
A view whose SQL file is forbidden, and the rest of its run.  Its turn leaves entries of its own in the
report and among the diagnostics and nothing else, and no later step of the run looks at those: two runs
that differ by such entries only go on in the same way.
-/

namespace ReadOnlyViews.Run

/-! ## Runs that differ by entries -/

/-- One list has, at one place, entries more than another. -/
def Adds {α : Type} (entries long short : List α) : Prop :=
  ∃ front back, long = front ++ (entries ++ back) ∧ short = front ++ back

theorem Adds.append {α : Type} {entries long short : List α} (adds : Adds entries long short)
    (more : List α) : Adds entries (long ++ more) (short ++ more) := by
  obtain ⟨front, back, rfl, rfl⟩ := adds
  exact ⟨front, back ++ more, by simp, by simp⟩

private theorem adds_self {α : Type} (entries front : List α) : Adds entries (front ++ entries) front :=
  ⟨front, [], by simp, by simp⟩

theorem Adds.nil {α : Type} (list : List α) : Adds [] list list := ⟨list, [], by simp, by simp⟩

/-- Other members are not told apart. -/
theorem Adds.contains_eq {name other : Text} {long short : List Text} (adds : Adds [name] long short)
    (different : other ≠ name) : long.contains other = short.contains other := by
  obtain ⟨front, back, rfl, rfl⟩ := adds
  simp [different]

/-- Reports that differ by the entries of an entity: its name, which is listed and has failed, or
nothing. -/
structure ReportBeside (names : List Text) (long short : RunReport) : Prop where
  entities : Adds names long.entities short.entities
  failed : Adds names long.failed short.failed
  changed : long.changed = short.changed
  generated : long.generated = short.generated
  deleted : long.deleted = short.deleted

/-- Runs that differ by the entries of an entity only. -/
structure Beside (name : Text) (entries : List Diagnostic) (long short : Run) : Prop where
  options : long.options = short.options
  space : long.space = short.space
  clock : long.clock = short.clock
  parses : long.parses = short.parses
  settings : long.settings = short.settings
  items : Adds entries long.reporter.items short.reporter.items
  report : ReportBeside [name] long.report short.report

theorem Beside.project {name : Text} {entries : List Diagnostic} {long short : Run}
    (beside : Beside name entries long short) : long.project = short.project :=
  congrArg Workspace.project beside.space

/-! ## Steps that do not look at the entries -/

section Blind

variable {name : Text} {entries : List Diagnostic} {α β : Type}

/-- Two steps end with the same value or the same failure, in runs that differ by entries only. -/
inductive EndBeside (name : Text) (entries : List Diagnostic) :
    EStateM.Result Failure Run α → EStateM.Result Failure Run α → Prop where
  | ok {value : α} {long short : Run} (beside : Beside name entries long short) :
      EndBeside name entries (.ok value long) (.ok value short)
  | error {failure : Failure} {long short : Run} (beside : Beside name entries long short) :
      EndBeside name entries (.error failure long) (.error failure short)

variable (name entries) in
/-- A step that goes alike in runs that differ by entries only. -/
def Blind (step : RunM α) : Prop :=
  ∀ long short : Run, Beside name entries long short →
    EndBeside name entries (step long) (step short)

theorem Blind.bind {first : RunM α} {rest : α → RunM β} (one : Blind name entries first)
    (others : ∀ value, Blind name entries (rest value)) : Blind name entries (first >>= rest) := by
  intro long short beside
  have ended := one long short beside
  generalize longEnd : first long = a at ended
  generalize shortEnd : first short = b at ended
  cases ended with
  | ok beside =>
    rw [bind_of_ok longEnd, bind_of_ok shortEnd]
    exact others _ _ _ beside
  | error beside =>
    rw [bind_of_error longEnd, bind_of_error shortEnd]
    exact .error beside

theorem Blind.tryCatch {step : RunM α} {handler : Failure → RunM α} (one : Blind name entries step)
    (handles : ∀ failure, Blind name entries (handler failure)) :
    Blind name entries (tryCatch step handler) := by
  intro long short beside
  have ended := one long short beside
  generalize longEnd : step long = a at ended
  generalize shortEnd : step short = b at ended
  rw [tryCatch_eq, tryCatch_eq, longEnd, shortEnd]
  cases ended with
  | ok beside => exact .ok beside
  | error beside => exact handles _ _ _ beside

private theorem blind_pure (value : α) : Blind name entries (pure value) := fun _ _ beside => .ok beside

private theorem blind_throw (failure : Failure) : Blind name entries (throw failure : RunM α) :=
  fun _ _ beside => .error beside

theorem Blind.forM {items : List α} {each : α → RunM Unit}
    (one : ∀ item ∈ items, Blind name entries (each item)) : Blind name entries (items.forM each) := by
  induction items with
  | nil => exact blind_pure ()
  | cons item items ih =>
    exact (one item (by simp)).bind fun _ => ih fun other member => one other (by simp [member])

private theorem blind_get_bind {rest : Run → RunM α}
    (alike : ∀ long short, Beside name entries long short →
      EndBeside name entries (rest long long) (rest short short)) : Blind name entries (get >>= rest) :=
  alike

/-- A step that looks only at what the runs share. -/
theorem Blind.get_bind {rest : Run → RunM α}
    (same : ∀ long short, Beside name entries long short → rest long = rest short)
    (others : ∀ run, Blind name entries (rest run)) : Blind name entries (get >>= rest) := by
  refine blind_get_bind fun long short beside => ?_
  rw [same long short beside]
  exact others short long short beside

private theorem blind_ask (question : Project → Except Failure α) : Blind name entries (ask question) := by
  intro long short beside
  unfold ask
  rw [beside.project]
  cases question short.project with
  | ok answer => exact .ok beside
  | error failure => exact .error beside

private theorem blind_change (action : Project → Except Failure Unit × Project) :
    Blind name entries (change action) := by
  intro long short beside
  unfold change
  rw [beside.project]
  cases action short.project with
  | mk result project =>
    have updated : Beside name entries (long.withProject project) (short.withProject project) :=
      { beside with space := congrArg (fun space : Workspace => { space with project }) beside.space }
    cases result with
    | ok _ => exact .ok updated
    | error failure => exact .error updated

private theorem blind_modify {update : Run → Run}
    (keeps : ∀ long short, Beside name entries long short →
      Beside name entries (update long) (update short)) : Blind name entries (modify update) :=
  fun long short beside => .ok (keeps long short beside)

private theorem blind_say (d : Diagnostic) : Blind name entries (say d) :=
  blind_modify fun _ _ beside => { beside with items := beside.items.append [d] }

private theorem blind_record {update : RunReport → RunReport}
    (keeps : ∀ long short, ReportBeside [name] long short →
      ReportBeside [name] (update long) (update short)) : Blind name entries (record update) :=
  blind_modify fun _ _ beside => { beside with report := keeps _ _ beside.report }

private theorem blind_changed (file : Text) :
    Blind name entries (record fun report => { report with changed := report.changed ++ [file] }) :=
  blind_record fun _ _ report => { report with changed := congrArg (· ++ [file]) report.changed }

private theorem blind_generated (file : Text) :
    Blind name entries (record fun report => { report with generated := report.generated ++ [file] }) :=
  blind_record fun _ _ report => { report with generated := congrArg (· ++ [file]) report.generated }

private theorem blind_deleted (file : Text) :
    Blind name entries (record fun report => { report with deleted := report.deleted ++ [file] }) :=
  blind_record fun _ _ report => { report with deleted := congrArg (· ++ [file]) report.deleted }

private theorem blind_recordFailed (entity : Entity) : Blind name entries (recordFailed entity) :=
  blind_record fun _ _ report => { report with failed := report.failed.append [entity.name] }

/-! ### Files -/

private theorem blind_reportFailedEdit (entity : Option Text) (file : Text) (failure : Failure) :
    Blind name entries (reportFailedEdit entity file failure) := by
  unfold reportFailedEdit
  split
  · exact (blind_say _).bind fun _ => blind_pure _
  · exact blind_throw failure

private theorem blind_concludeEdit (entity : Option Text) (file : Text) (edit : FileEdit) :
    Blind name entries (concludeEdit entity file edit) := by
  unfold concludeEdit
  refine Blind.bind (.forM fun d _ => blind_say d) fun _ => ?_
  cases edit.changed with
  | false => exact blind_pure _
  | true => exact (blind_changed file).bind fun _ => blind_pure _

private theorem blind_editFile (entity : Option Text) (file : Text) (conversion : Conversion) (required : Bool) :
    Blind name entries (editFile entity file conversion required) := by
  unfold editFile
  refine (blind_ask _).bind fun there => ?_
  cases there with
  | false => cases required <;> exact (blind_say _).bind fun _ => blind_pure _
  | true =>
    rw [if_neg (by decide)]
    refine blind_get_bind fun long short beside => ?_
    rw [beside.space, beside.parses]
    cases short.space.edit short.parses file conversion with
    | mk result space =>
      have edited : Beside name entries { long with space, parses := short.parses }
          { short with space } := { beside with space := rfl, parses := rfl }
      cases result with
      | error failure => exact blind_reportFailedEdit entity file failure _ _ edited
      | ok edit => exact blind_concludeEdit entity file edit _ _ edited

private theorem blind_writeIfChanged (file content : Text) : Blind name entries (writeIfChanged file content) := by
  have writes : Blind name entries (do change (·.write file content); return true) :=
    (blind_change _).bind fun _ => blind_pure _
  unfold writeIfChanged
  refine (blind_ask _).bind fun there => ?_
  cases there with
  | false => exact writes
  | true =>
    refine (blind_ask _).bind fun text => ?_
    split
    · exact blind_pure _
    · exact writes

/-! ### Changelogs -/

private theorem blind_viewSql (entity : Entity) : Blind name entries (viewSql entity) := by
  unfold viewSql
  refine Blind.get_bind (fun _ _ beside => by rw [beside.project]) fun run => ?_
  dsimp only
  split
  · exact blind_pure _
  · split
    · exact (blind_say _).bind fun _ => (blind_recordFailed entity).bind fun _ => blind_pure _
    · exact (blind_say _).bind fun _ => blind_pure _
    · exact (blind_say _).bind fun _ => blind_pure _
    · exact (blind_say _).bind fun _ => (blind_recordFailed entity).bind fun _ => blind_pure _
    · exact blind_throw _

private theorem blind_drawChangelog (existing : List Name) (view : Text) :
    Blind name entries (drawChangelog existing view) := by
  unfold drawChangelog
  refine blind_get_bind fun long short beside => ?_
  rw [beside.clock]
  cases Changelog.nextView existing view short.clock with
  | mk result clock =>
    have drew : Beside name entries { long with clock } { short with clock } :=
      { beside with clock := rfl }
    cases result with
    | ok drawn => exact .ok drew
    | error failure => exact .error drew

private theorem blind_storeChangelog (entity : Entity) (file content : Text) :
    Blind name entries (storeChangelog entity file content) := by
  unfold storeChangelog
  refine Blind.tryCatch ?_ fun failure => ?_
  · refine (blind_writeIfChanged file content).bind fun written => ?_
    cases written with
    | false => exact blind_pure _
    | true => exact (blind_generated file).bind fun _ => (blind_say _).bind fun _ => blind_pure _
  · cases isReported failure with
    | true => exact (blind_say _).bind fun _ => blind_pure _
    | false => exact blind_throw failure

private theorem blind_registerChangelog (entity : Entity) (file : Text) :
    Blind name entries (registerChangelog entity file) := by
  unfold registerChangelog
  refine Blind.get_bind (fun _ _ beside => by rw [beside.options]) fun run => ?_
  refine (blind_ask _).bind fun there => ?_
  cases there with
  | true => exact (blind_editFile _ _ _ _).bind fun _ => blind_pure _
  | false => exact blind_say _

private theorem blind_writeViewChangelog (entity : Entity) :
    Blind name entries (writeViewChangelog entity) := by
  unfold writeViewChangelog
  refine (blind_viewSql entity).bind fun sql => ?_
  cases sql with
  | none => exact blind_pure _
  | some sql =>
    refine Blind.get_bind (fun _ _ beside => by rw [beside.options]) fun run => ?_
    refine (blind_ask _).bind fun existing => ?_
    refine (blind_drawChangelog existing entity.table).bind fun drawn => ?_
    refine (blind_storeChangelog entity _ _).bind fun stored => ?_
    cases stored with
    | false => exact blind_pure _
    | true => exact (blind_registerChangelog entity _).bind fun _ => blind_pure _

private theorem blind_deleteArtifact (entity : Entity) (file : Text) :
    Blind name entries (deleteArtifact entity file) := by
  unfold deleteArtifact
  refine Blind.tryCatch ?_ fun failure => ?_
  · exact (blind_change _).bind fun _ => (blind_deleted file).bind fun _ => blind_say _
  · by_cases other : failure.family ≠ .disk
    · rw [if_pos other]
      exact blind_throw failure
    · rw [if_neg other]
      exact blind_say _

private theorem blind_deleteArtifacts (layout : Layout) (entity : Entity) :
    Blind name entries (deleteArtifacts layout entity) := by
  unfold deleteArtifacts
  refine (blind_ask _).bind fun names => ?_
  refine Blind.bind (.forM fun name _ => blind_deleteArtifact entity _) fun _ => ?_
  refine (blind_ask _).bind fun there => ?_
  cases there with
  | false => exact blind_pure _
  | true => exact blind_deleteArtifact entity _

private theorem blind_removeTableDefinitions (entity : Entity) :
    Blind name entries (removeTableDefinitions entity) := by
  unfold removeTableDefinitions
  refine Blind.get_bind (fun _ _ beside => by rw [beside.options]) fun run => ?_
  refine (blind_ask _).bind fun there => ?_
  cases there with
  | false => exact blind_deleteArtifacts _ entity
  | true => exact (blind_editFile _ _ _ _).bind fun _ => blind_deleteArtifacts _ entity

/-! ### Entities -/

private theorem blind_refuseSqlFile (entity : Entity) (failure : Failure) :
    Blind name entries (refuseSqlFile entity failure) := by
  unfold refuseSqlFile
  by_cases other : failure.family ≠ .validation
  · rw [if_pos other]
    exact blind_throw failure
  · rw [if_neg other]
    exact (blind_say _).bind fun _ => (blind_recordFailed entity).bind fun _ => blind_pure _

private theorem blind_sqlFileAllowed (entity : Entity) : Blind name entries (sqlFileAllowed entity) := by
  unfold sqlFileAllowed
  split
  · exact blind_pure _
  · refine Blind.get_bind (fun _ _ beside => by rw [beside.project]) fun run => ?_
    dsimp only
    split
    · exact blind_pure _
    · exact blind_refuseSqlFile entity _
    · exact blind_refuseSqlFile entity _

private theorem blind_prepareView (entity : Entity) : Blind name entries (prepareView entity) := by
  unfold prepareView
  refine (blind_say _).bind fun _ => ?_
  refine (blind_sqlFileAllowed entity).bind fun allowed => ?_
  cases allowed with
  | false => exact blind_pure _
  | true =>
    refine Blind.get_bind (fun _ _ beside => by rw [beside.options]) fun run => ?_
    refine (blind_editFile _ _ _ _).bind fun inOrder => ?_
    cases inOrder with
    | false => exact blind_pure _
    | true =>
      refine (blind_editFile _ _ _ _).bind fun _ => ?_
      refine (blind_editFile _ _ _ _).bind fun _ => ?_
      refine (blind_editFile _ _ _ _).bind fun _ => ?_
      exact (blind_editFile _ _ _ _).bind fun _ => blind_pure _

private theorem blind_runView (entity : Entity) : Blind name entries (runView entity) := by
  have cleanup (options : RunOptions) : Blind name entries
      (if options.withCleanup then removeTableDefinitions entity else pure ()) := by
    split
    · exact blind_removeTableDefinitions entity
    · exact blind_pure ()
  unfold runView
  refine (blind_prepareView entity).bind fun ready => ?_
  cases ready with
  | false => exact blind_pure _
  | true =>
    refine Blind.get_bind (fun _ _ beside => by rw [beside.options]) fun run => ?_
    dsimp only
    split
    · exact (blind_writeViewChangelog entity).bind fun _ => cleanup _
    · exact cleanup _

/-- A guarded step of another entity: whether that one has failed before is the same in both runs. -/
theorem Blind.guarded {step : RunM Unit} (one : Blind name entries step) {entity : Entity}
    (other : entity.name ≠ name) : Blind name entries (guarded entity step) := by
  unfold Run.guarded
  refine one.tryCatch fun failure => (blind_say _).bind fun _ => blind_record fun long short report => ?_
  rw [report.failed.contains_eq other]
  split
  · exact report
  · exact { report with failed := report.failed.append [entity.name] }

private theorem blind_takeTurn {entity : Entity} (other : entity.name ≠ name) :
    Blind name entries (takeTurn entity) := by
  unfold takeTurn
  refine Blind.bind (blind_record fun _ _ report => { report with
    entities := report.entities.append [entity.name] }) fun _ => ?_
  split
  · exact (blind_runView entity).guarded other
  · exact blind_pure _

/-! ### MyBatis sources -/

private theorem blind_generate (entity : Entity) (file content : Text) :
    Blind name entries (generate entity file content) := by
  unfold generate
  refine Blind.bind ((blind_writeIfChanged file content).tryCatch fun failure => ?_) fun written => ?_
  · cases isReported failure with
    | true => exact (blind_say _).bind fun _ => blind_pure _
    | false => exact blind_throw failure
  · cases written with
    | false => exact blind_pure _
    | true => exact (blind_generated file).bind fun _ => blind_say _

private theorem blind_encode (half? : Option (Nat × Nat)) : Blind name entries (encode half?) := by
  cases half? with
  | none => exact blind_pure _
  | some half => exact blind_throw _

private theorem blind_encodeSettings (settings : MyBatis.Settings) (yml package : Text) :
    Blind name entries (encodeSettings settings yml package) := by
  unfold encodeSettings
  refine Blind.get_bind (fun _ _ beside => by rw [beside.project]) fun run => ?_
  dsimp only
  split
  · exact blind_encode _
  · exact blind_pure _

private theorem blind_generatePair (settings : MyBatis.Settings) (entity : Entity) :
    Blind name entries (generatePair settings entity) := by
  unfold generatePair
  refine Blind.get_bind (fun _ _ beside => by rw [beside.options]) fun run => ?_
  refine (blind_encode _).bind fun _ => (blind_generate entity _ _).bind fun _ => ?_
  exact (blind_encode _).bind fun _ => blind_generate entity _ _

private theorem blind_myBatisSettings : Blind name entries myBatisSettings := by
  unfold myBatisSettings
  refine Blind.get_bind (fun _ _ beside => by rw [beside.settings]) fun run => ?_
  cases run.settings with
  | some settings => exact blind_pure _
  | none =>
    refine (blind_ask _).bind fun loaded => ?_
    refine Blind.bind (.forM fun d _ => blind_say d) fun _ => ?_
    refine Blind.bind (blind_modify fun long short beside => ?_) fun _ => blind_pure _
    exact { beside with settings := rfl }

private theorem blind_runMyBatis {entities : List Entity} (others : ∀ entity ∈ entities, entity.name ≠ name) :
    Blind name entries (runMyBatis entities) := by
  unfold runMyBatis
  refine blind_myBatisSettings.bind fun settings => ?_
  refine Blind.get_bind (fun _ _ beside => by rw [beside.options]) fun run => ?_
  refine Blind.bind (.forM fun entity member =>
    (blind_generatePair settings entity).guarded (others entity member)) fun _ => ?_
  refine (blind_ask _).bind fun there => ?_
  cases there with
  | true =>
    refine (blind_encodeSettings _ _ _).bind fun _ => ?_
    exact (blind_editFile _ _ _ _).bind fun _ => blind_pure _
  | false => exact blind_say _

end Blind

/-! ## The turn of a view with a forbidden SQL file -/

/-- A SQL file is forbidden, for a reason: its path has not the form that it must have, or leads out of
the project. -/
def Forbids (run : Run) (file : Text) (failure : Failure) : Prop :=
  failure.family = .validation ∧ (Sql.checkPath file = .error failure ∨
    Sql.checkPath file = .ok () ∧
      run.project.disk.resolveWithin run.project.root file = .error failure)

/-- What is said about an entity whose SQL file is forbidden. -/
def refusal (entity : Entity) (failure : Failure) : List Diagnostic := [
  { level := .info, message := "processing view entity", entity := some entity.name },
  { level := .error, message := failure.message, entity := some entity.name }]

section Turn

variable {run : Run} {entity : Entity} {file : Text} {failure : Failure}

private theorem refuseSqlFile_of_validation (validation : failure.family = .validation) :
    refuseSqlFile entity failure run = .ok false ((run.saying
      { level := .error, message := failure.message, entity := some entity.name }).recording
        fun report => { report with failed := report.failed ++ [entity.name] }) := by
  unfold refuseSqlFile
  rw [if_neg (not_not.mpr validation)]
  rfl

private theorem sqlFileAllowed_of_forbids (names : entity.viewSqlFile? = some file)
    (forbidden : run.Forbids file failure) :
    sqlFileAllowed entity run = .ok false ((run.saying
      { level := .error, message := failure.message, entity := some entity.name }).recording
        fun report => { report with failed := report.failed ++ [entity.name] }) := by
  obtain ⟨validation, refused⟩ := forbidden
  unfold sqlFileAllowed
  rw [names]
  refine (get_bind_apply run).trans ?_
  dsimp only
  obtain checked | ⟨checked, outward⟩ := refused
  · rw [checked]
    exact refuseSqlFile_of_validation validation
  · rw [checked, outward]
    exact refuseSqlFile_of_validation validation

/-- The turn of a view whose SQL file is forbidden leaves entries of its own, and nothing else. -/
theorem exists_takeTurn_of_forbids (view : entity.isView = true)
    (names : entity.viewSqlFile? = some file) (forbidden : run.Forbids file failure) :
    ∃ later, takeTurn entity run = .ok () later ∧
      Beside entity.name (refusal entity failure) later run := by
  let named := run.recording fun report => { report with entities := report.entities ++ [entity.name] }
  let told := named.saying
    { level := .info, message := "processing view entity", entity := some entity.name }
  let later := (told.saying
    { level := .error, message := failure.message, entity := some entity.name }).recording
      fun report => { report with failed := report.failed ++ [entity.name] }
  have stopped : sqlFileAllowed entity told = .ok false later := sqlFileAllowed_of_forbids names forbidden
  have prepared : prepareView entity named = .ok false later :=
    (bind_of_ok rfl).trans (bind_of_ok stopped)
  have viewed : runView entity named = .ok () later := bind_of_ok prepared
  have spared : guarded entity (runView entity) named = .ok () later := by
    unfold guarded
    rw [tryCatch_eq, viewed]
  refine ⟨later, ?_, rfl, rfl, rfl, rfl, rfl, ?_, adds_self _ _, adds_self _ _, rfl, rfl, rfl⟩
  · unfold takeTurn
    rw [if_pos view]
    exact spared
  · show Adds (refusal entity failure) (run.reporter.items ++ [_] ++ [_]) run.reporter.items
    rw [List.append_assoc]
    exact adds_self _ _

end Turn

/-! ## Whole runs -/

variable {run : Run}

private theorem forM_append_of_ok {front back : List Entity} {each : Entity → RunM Unit} {middle : Run}
    (went : front.forM each run = .ok () middle) :
    (front ++ back).forM each run = back.forM each middle := by
  induction front generalizing run with
  | nil =>
    cases went
    rfl
  | cons item front ih =>
    obtain ⟨_, next, first, others⟩ := exists_of_bind_eq_ok went
    exact (bind_of_ok first).trans (ih others)

private theorem selected_append (options : RunOptions) (front back : List Entity) :
    selected options (front ++ back) = selected options front ++ selected options back := by
  unfold selected
  split
  · rfl
  · exact List.filter_append _ _

private theorem selected_singleton (options : RunOptions) (entity : Entity) :
    selected options [entity] = [] ∨ selected options [entity] = [entity] := by
  unfold selected
  split
  · exact .inr rfl
  · rw [List.filter_cons]
    split
    · exact .inr rfl
    · exact .inl rfl

/-- An entity that wants no MyBatis sources makes no difference to those that do. -/
theorem wanting_insert (options : RunOptions) (front back : List Entity) {entity : Entity}
    (plain : entity.isMyBatis = false) :
    wanting options (front ++ entity :: back) = wanting options (front ++ back) := by
  have none : (selected options [entity]).filter
      (fun entity => entity.isMyBatis && options.withMyBatis) = [] := by
    unfold selected
    split <;> simp [List.filter_cons, plain]
  unfold wanting
  rw [show front ++ entity :: back = front ++ ([entity] ++ back) from rfl, selected_append,
    selected_append, selected_append, List.filter_append, List.filter_append, List.filter_append, none,
    List.nil_append]

/-- Two runs end alike: on the same project, and both with a report or both with the same failure; the
reports differ by the given entries only. -/
inductive EndAlike (names : List Text) (entries : List Diagnostic) :
    EStateM.Result Failure Run RunReport → EStateM.Result Failure Run RunReport → Prop where
  | ok {long short : RunReport} {longEnd shortEnd : Run} (project : longEnd.project = shortEnd.project)
      (report : ReportBeside names long short)
      (diagnostics : Adds entries long.diagnostics short.diagnostics) :
      EndAlike names entries (.ok long longEnd) (.ok short shortEnd)
  | error {failure : Failure} {longEnd shortEnd : Run} (project : longEnd.project = shortEnd.project) :
      EndAlike names entries (.error failure longEnd) (.error failure shortEnd)

private theorem endAlike_refl (ended : EStateM.Result Failure Run RunReport) : EndAlike [] [] ended ended := by
  cases ended with
  | ok report run => exact .ok rfl ⟨.nil _, .nil _, rfl, rfl, rfl⟩ (.nil _)
  | error failure run => exact .error rfl

/-- From runs that differ by entries, what is left to do after the turns ends alike. -/
theorem endAlike_of_beside {name : Text} {entries : List Diagnostic} {step : RunM Unit}
    (blind : Blind name entries step) {long short : Run} (beside : Beside name entries long short) :
    EndAlike [name] entries ((step >>= fun _ => conclude) long) ((step >>= fun _ => conclude) short) := by
  have ended := blind long short beside
  generalize longEnd : step long = a at ended
  generalize shortEnd : step short = b at ended
  cases ended with
  | ok beside =>
    rw [bind_of_ok longEnd, bind_of_ok shortEnd]
    exact .ok beside.project
      ⟨beside.report.entities, beside.report.failed, beside.report.changed, beside.report.generated,
        beside.report.deleted⟩ beside.items
  | error beside =>
    rw [bind_of_error longEnd, bind_of_error shortEnd]
    exact .error beside.project

/-- A view with a forbidden SQL file does not influence the rest of its run: with it and without it the
run leaves the same project and ends in the same way, and the reports differ by its entries only, if
the run takes it at all. -/
theorem forbidden_sql_unfelt {before behind : List Entity} {entity : Entity} {file : Text}
    {failure : Failure} (view : entity.isView = true) (plain : entity.isMyBatis = false)
    (alone : ∀ other ∈ before ++ behind, other.name ≠ entity.name)
    (names : entity.viewSqlFile? = some file)
    (forbidden : (afterTurns before run).Forbids file failure) :
    EndAlike ((selected run.options [entity]).map (·.name))
      ((selected run.options [entity]).flatMap (refusal · failure))
      (batch (before ++ entity :: behind) run) (batch (before ++ behind) run) := by
  obtain ⟨middle, turnedBefore, -⟩ :=
    exists_takeTurns (selected run.options before) (run.recording fun _ => {})
  have reached : afterTurns before run = middle := by simp only [afterTurns, after, turnedBefore]
  obtain ⟨short, turnedShort, -⟩ := exists_takeTurns (selected run.options behind) middle
  have shortTurns : (selected run.options (before ++ behind)).forM takeTurn
      (run.recording fun _ => {}) = .ok () short := by
    rw [selected_append, forM_append_of_ok turnedBefore, turnedShort]
  have longTurns : (selected run.options (before ++ entity :: behind)).forM takeTurn
      (run.recording fun _ => {}) =
        (selected run.options [entity] ++ selected run.options behind).forM takeTurn middle := by
    rw [show before ++ entity :: behind = before ++ ([entity] ++ behind) from rfl, selected_append,
      selected_append, forM_append_of_ok turnedBefore]
  rw [batch_of_turns shortTurns]
  obtain passed | taken := selected_singleton run.options entity
  · rw [passed] at longTurns ⊢
    rw [batch_of_turns (longTurns.trans turnedShort), wanting_insert _ _ _ plain]
    exact endAlike_refl _
  · have others (other) (member : other ∈ selected run.options (before ++ behind)) :
        other.name ≠ entity.name := alone other (mem_of_mem_selected member)
    obtain ⟨turned, turn, beside⟩ :=
      exists_takeTurn_of_forbids view names (reached ▸ forbidden)
    have ended : EndBeside entity.name (refusal entity failure) _ _ :=
      Blind.forM (fun other member => blind_takeTurn (others other (by
        rw [selected_append]
        exact List.mem_append_right _ member))) turned middle beside
    obtain ⟨long, turnedLong, -⟩ := exists_takeTurns (selected run.options behind) turned
    rw [turnedLong, turnedShort] at ended
    rw [taken] at longTurns ⊢
    rw [batch_of_turns (longTurns.trans ((bind_of_ok turn).trans turnedLong)),
      wanting_insert _ _ _ plain]
    cases ended with
    | ok beside =>
      refine endAlike_of_beside ?_ beside
      split
      · exact blind_pure ()
      · exact blind_runMyBatis fun other member => others other (List.mem_filter.mp member).1

/-- A view whose SQL file is a link out of the project. -/
def forbiddenView : Entity where
  name := "W"
  className := "W"
  table := "w"
  annotations := [(.string "view", .bool true), (.string "sqlFile", .string "j/p/domain/V.java")]

theorem forbiddenView_unfelt :
    (afterTurns [pairedEntity] (outwardRun (.file []))).Forbids "j/p/domain/V.java"
      (.outsideProject "j/p/domain/V.java") ∧
    EndAlike ["W".toList] (refusal forbiddenView (.outsideProject "j/p/domain/V.java"))
      (batch [pairedEntity, forbiddenView, pairedEntity] (outwardRun (.file [])))
      (batch [pairedEntity, pairedEntity] (outwardRun (.file []))) := by
  have forbidden : (afterTurns [pairedEntity] (outwardRun (.file []))).Forbids "j/p/domain/V.java"
      (.outsideProject "j/p/domain/V.java") := by
    refine ⟨rfl, .inr ⟨by decide +kernel, ?_⟩⟩
    decide +kernel
  exact ⟨forbidden, @forbidden_sql_unfelt _ [pairedEntity] [pairedEntity] forbiddenView _ _
    (by decide +kernel) (by decide +kernel) (by decide +kernel) (by decide +kernel) forbidden⟩

end ReadOnlyViews.Run
