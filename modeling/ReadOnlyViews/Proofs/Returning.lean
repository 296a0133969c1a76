import ReadOnlyViews.Proofs.Confinement
import ReadOnlyViews.Proofs.RunSteps

/-!
Which runs come to their end.  Whatever an entity's turn runs into is told and the next entity has its
turn, so every entity that a run takes is listed.  Two questions at the end of a run are not guarded:
whether the generator's configuration is there, and whether the application's settings are.  A run
over entities that want MyBatis sources ends with a report exactly if both are answered, as long as the
settings that the configuration gives can be encoded.
-/

namespace ReadOnlyViews

private theorem Disk.resolveFrom_eq_error {disk : Disk} {links : Nat} {met : MetLinks} {here : Path}
    {todo : List Todo} {failure : Failure}
    (failed : disk.resolveFrom links met here todo = .error failure) : failure = .nulInPath := by
  rw [resolveFrom.eq_def] at failed
  cases stride : disk.resolveStride met here todo with
  | «at» there => simp [stride] at failed
  | nul => simpa [stride] using failed.symm
  | link here link target met rest =>
    simp only [stride] at failed
    cases links with
    | zero => cases failed
    | succ links => exact resolveFrom_eq_error failed
termination_by links

/-- A path does not resolve for one of two reasons. -/
theorem Disk.resolve_eq_error {disk : Disk} {folder : Path} {raw : Text} {failure : Failure}
    (failed : disk.resolve folder raw = .error failure) :
    failure = .nulInPath ∨ ∃ path, failure = .linkLoop path := by
  unfold resolve at failed
  dsimp only at failed
  cases found : disk.resolveFrom disk.entries.length [] (if Path.isAbsolute raw then [] else folder)
      ((Path.segments raw).map .name) with
  | error other =>
    simp only [found, bind, Except.bind] at failed
    exact .inl (Except.error.inj failed ▸ resolveFrom_eq_error found)
  | ok there =>
    simp only [found, bind, Except.bind] at failed
    split at failed
    · exact .inl (Except.error.inj failed).symm
    · split at failed
      · exact .inr ⟨there, (Except.error.inj failed).symm⟩
      · cases failed

namespace Project

variable {project : Project} {file text : Text}

private theorem locate_eq_error {failure : Failure} (failed : project.locate file = .error failure) :
    failure = .nulInPath ∨ failure = .outsideProject file ∨ ∃ path, failure = .linkLoop path := by
  unfold locate Disk.resolveWithin at failed
  cases based : project.disk.resolve [] project.root.text with
  | error other =>
    simp only [based, bind, Except.bind] at failed
    exact (Except.error.inj failed ▸ Disk.resolve_eq_error based).imp_right .inr
  | ok base =>
    cases found : project.disk.resolve base file with
    | error other =>
      simp only [based, found, bind, Except.bind] at failed
      exact (Except.error.inj failed ▸ Disk.resolve_eq_error found).imp_right .inr
    | ok target =>
      simp only [based, found, bind, Except.bind] at failed
      split at failed
      · cases failed
      · exact .inr (.inl (Except.error.inj failed).symm)

/-- Whether a file is there cannot be told only because its path is no good or because the disk
refuses. -/
theorem has_eq_error {failure : Failure} (failed : project.has file = .error failure) :
    Catalog.isPassedOver failure = true ∨ ∃ path, failure = .linkLoop path := by
  unfold has at failed
  split at failed
  · cases failed
  · split at failed
    · cases failed
    · cases located : project.locate file with
      | error other =>
        simp only [located, bind, Except.bind] at failed
        obtain rfl := Except.error.inj failed
        rcases locate_eq_error located with rfl | rfl | looped
        · exact .inl rfl
        · exact .inl rfl
        · exact .inr looped
      | ok path =>
        simp only [located, bind, Except.bind] at failed
        cases asked : project.disk.isFile path with
        | error fault =>
          simp only [onDisk, asked] at failed
          exact .inl (Except.error.inj failed ▸ rfl)
        | ok there => simp [onDisk, asked] at failed

/-- Only a dry project holds anything back. -/
def HoldsNothingBack (project : Project) : Prop := project.dryRun = false → project.pending = []

theorem write_of_dry (dry : project.dryRun = true) :
    (project.write file text).1 = .ok () := by
  simp [write, dry]

private theorem HoldsNothingBack.of_write {result : Except Failure Unit} {later : Project}
    (sound : project.HoldsNothingBack) (written : project.write file text = (result, later)) :
    later.HoldsNothingBack := by
  obtain rfl : (project.write file text).2 = later := by rw [written]
  cases mode : project.dryRun with
  | true =>
    intro real
    simp [write, mode] at real
  | false =>
    intro _
    rw [write_of_real mode]
    split
    · exact sound mode
    · split <;> exact sound mode

private theorem HoldsNothingBack.of_delete {result : Except Failure Unit} {later : Project}
    (sound : project.HoldsNothingBack) (deleted : project.delete file = (result, later)) :
    later.HoldsNothingBack := by
  obtain rfl : (project.delete file).2 = later := by rw [deleted]
  have filtered (mode : project.dryRun = false) : project.pending.filter (·.1 != file) = [] := by
    simp [sound mode]
  unfold delete
  split
  · exact sound
  · exact sound
  · dsimp only
    split
    · exact filtered
    · split
      · exact filtered
      · split <;> exact filtered

/-- A file that is there is not read only for a reason that is told. -/
theorem isReported_of_read {failure : Failure} (present : project.has file = .ok true)
    (unread : project.read file = .error failure) : Run.isReported failure = true := by
  unfold has at present
  unfold read at unread
  split at present
  · cases present
  · rename_i kept
    rw [if_neg kept] at unread
    split at present
    · rename_i held
      obtain ⟨content, found⟩ := Option.isSome_iff_exists.mp held
      simp [found] at unread
    · rename_i unheld
      simp only [Option.not_isSome_iff_eq_none.mp unheld] at unread
      cases located : project.locate file with
      | error other => simp [located, bind, Except.bind] at present
      | ok path =>
        simp only [located, bind, Except.bind] at unread
        cases content : project.disk.readFile path with
        | error fault =>
          simp only [onDisk, content] at unread
          obtain rfl := Except.error.inj unread
          rfl
        | ok bytes =>
          simp only [onDisk, content] at unread
          split at unread
          · cases unread
          · obtain rfl := Except.error.inj unread
            rfl

/-- A file that is there is not written only for a reason that is told. -/
theorem isReported_of_write {failure : Failure} (sound : project.HoldsNothingBack)
    (present : project.has file = .ok true)
    (refused : (project.write file text).1 = .error failure) : Run.isReported failure = true := by
  cases mode : project.dryRun with
  | true => cases (write_of_dry mode).symm.trans refused
  | false =>
    have located : ∃ target, project.locate file = .ok target := by
      unfold has at present
      split at present
      · cases present
      · rw [sound mode] at present
        cases located : project.locate file with
        | error other => simp [located, bind, Except.bind] at present
        | ok target => exact ⟨target, rfl⟩
    obtain ⟨target, located⟩ := located
    have located' : (project.countWritten file text).locate file = .ok target := located
    rw [write_of_real mode, located'] at refused
    dsimp only at refused
    have told {result : Except Failure Unit} (refuses : Disk.Refuses result)
        (failed : result = .error failure) : Run.isReported failure = true := by
      obtain ⟨fault, place, onto, rfl⟩ := refuses failure failed
      rfl
    have folders := Disk.refuses_makeFolders project.disk target.dropLast.reverse
    split at refused
    · rename_i other disk made
      rw [made] at folders
      exact told folders refused
    · exact told (Disk.refuses_replaceFile _ _ _) refused

private theorem isPassedOver_of_isReported {failure : Failure} (told : Run.isReported failure = true) :
    Catalog.isPassedOver failure = true := by
  simp only [Run.isReported, Bool.or_eq_true] at told
  rcases told with disk | foreseen
  · simp [Catalog.isPassedOver, disk]
  · simp [Catalog.isPassedOver, foreseen]

/-- The generator's configuration is not read for a reason that is passed over, or because of links
that lead back to themselves. -/
theorem generatorValue_eq_error {failure : Failure}
    (failed : project.generatorValue = .error failure) :
    Catalog.isPassedOver failure = true ∨
      ∃ path, failure = .linkLoop path ∧ project.has generatorFile = .error (.linkLoop path) := by
  unfold generatorValue at failed
  cases present : project.has generatorFile with
  | error other =>
    obtain rfl : other = failure := by simpa [present, bind, Except.bind] using failed
    rcases has_eq_error present with passed | ⟨path, rfl⟩
    · exact .inl passed
    · exact .inr ⟨path, rfl, rfl⟩
  | ok there =>
    cases there with
    | false => simp [present, bind, Except.bind, pure, Except.pure] at failed
    | true =>
      cases text : project.read generatorFile with
      | error other =>
        obtain rfl : other = failure := by simpa [present, text, bind, Except.bind] using failed
        exact .inl (isPassedOver_of_isReported (isReported_of_read present text))
      | ok content =>
        simp only [present, text, bind, Except.bind, if_true] at failed
        split at failed
        · cases failed
        · exact .inl (Except.error.inj failed ▸ rfl)

private theorem generatorConfig_eq_error_iff {failure : Failure} :
    project.generatorConfig = .error failure ↔ project.generatorValue = .error failure := by
  unfold generatorConfig
  cases project.generatorValue with
  | error other => simp [bind, Except.bind]
  | ok value => cases value <;> exact iff_of_false nofun nofun

/-- Whatever else goes wrong while the section is read is passed over. -/
theorem myBatisSection_eq_error {failure : Failure} (failed : project.myBatisSection = .error failure) :
    (Catalog.isPassedOver failure || failure.family == .member) = true ∨
      ∃ path, failure = .linkLoop path ∧ project.has generatorFile = .error (.linkLoop path) := by
  unfold myBatisSection at failed
  cases config : project.generatorConfig with
  | error other =>
    obtain rfl : other = failure := by simpa [config, bind, Except.bind] using failed
    refine (generatorValue_eq_error (generatorConfig_eq_error_iff.mp config)).imp_left fun passed => ?_
    rw [passed, Bool.true_or]
  | ok members =>
    simp only [config, bind, Except.bind] at failed
    split at failed
    · cases failed
    · cases failed
    · exact .inl (Except.error.inj failed ▸ rfl)

/-- Loading the settings fails only if it cannot be told whether the configuration is there, because
of links that lead back to themselves. -/
theorem myBatisSettings_eq_error_iff {failure : Failure} :
    project.myBatisSettings = .error failure ↔
      ∃ path, failure = .linkLoop path ∧ project.has generatorFile = .error (.linkLoop path) := by
  constructor
  · intro failed
    unfold myBatisSettings at failed
    split at failed
    · rename_i other unread
      split at failed
      · cases failed
      · rename_i kept
        obtain rfl := Except.error.inj failed
        exact (myBatisSection_eq_error unread).resolve_left kept
    · cases failed
    · cases failed
  · rintro ⟨path, rfl, looped⟩
    have unread : project.generatorValue = .error (.linkLoop path) := by
      simp only [generatorValue, looped, bind, Except.bind]
    have unopened : project.myBatisSection = .error (.linkLoop path) := by
      simp only [myBatisSection, generatorConfig_eq_error_iff.mpr unread, bind, Except.bind]
    rw [myBatisSettings, unopened]
    rfl

end Project

namespace Run

variable {scope : Scope} {options : RunOptions} {run later : Run}

/-- A run that is not dry holds nothing back at any time. -/
theorem Steps.holdsNothingBack (steps : Steps scope run later)
    (sound : run.project.HoldsNothingBack) : later.project.HoldsNothingBack := by
  induction steps with
  | refl => exact sound
  | @tail middle last _ step ih =>
    cases step with
    | edited allowed read made changes written => exact ih.of_write written
    | generated allowed written told => exact ih.of_write written
    | deleted allowed erased told => exact ih.of_delete erased
    | refusedEdit allowed refused => exact ih.of_write refused
    | refusedSource allowed refused => exact ih.of_write refused
    | refusedDelete allowed refused => exact ih.of_delete refused
    | said | named | blamed | drew | loaded | asked => exact ih

/-- Steps that list no entity leave the list of entities. -/
theorem Steps.entities_eq (steps : Steps scope run later) (unnamed : ∀ name, ¬ scope.names name) :
    later.report.entities = run.report.entities := by
  induction steps with
  | refl => rfl
  | tail _ step ih =>
    rw [← ih]
    cases step with
    | named allowed => exact absurd allowed (unnamed _)
    | said | blamed | drew | loaded | asked | edited | generated | deleted | refusedEdit
    | refusedSource | refusedDelete => rfl

/-- A guarded step never fails. -/
theorem exists_guarded (entity : Entity) (step : RunM Unit) (run : Run) :
    ∃ later, guarded entity step run = .ok () later := by
  unfold guarded
  rw [tryCatch_eq]
  split
  · exact ⟨_, rfl⟩
  · exact ⟨_, rfl⟩

/-- An entity's turn never fails, and lists the entity. -/
theorem exists_takeTurn (entity : Entity) (run : Run) :
    ∃ later, takeTurn entity run = .ok () later ∧
      later.report.entities = run.report.entities ++ [entity.name] := by
  let named := run.recording fun report => { report with entities := report.entities ++ [entity.name] }
  have told : named.options = run.options := rfl
  unfold takeTurn
  by_cases view : entity.isView
  · obtain ⟨later, went⟩ := exists_guarded entity (runView entity) named
    have steps : Steps (scopeOf run.options [entity] fun _ => False) named
        (after (guarded entity (runView entity)) named) :=
      steps_guarded (steps_runView told (List.mem_singleton_self entity))
    refine ⟨later, ?_, (steps_to_of_ok went steps).entities_eq fun _ => id⟩
    rw [if_pos view]
    exact went
  · refine ⟨named, ?_, rfl⟩
    rw [if_neg view]
    rfl

/-- The turns of entities never fail, and list them in order. -/
theorem exists_takeTurns (chosen : List Entity) (run : Run) :
    ∃ later, chosen.forM takeTurn run = .ok () later ∧
      later.report.entities = run.report.entities ++ chosen.map (·.name) := by
  induction chosen generalizing run with
  | nil => exact ⟨run, rfl, (List.append_nil _).symm⟩
  | cons entity rest ih =>
    obtain ⟨middle, turned, listed⟩ := exists_takeTurn entity run
    obtain ⟨last, went, all⟩ := ih middle
    refine ⟨last, (bind_of_ok turned).trans went, ?_⟩
    rw [all, listed, List.map_cons, List.append_assoc, List.singleton_append]

/-- The MyBatis sources of entities are generated without a failure. -/
theorem exists_generatePairs (settings : MyBatis.Settings) (entities : List Entity) (run : Run) :
    ∃ later, entities.forM (fun entity => guarded entity (generatePair settings entity)) run =
      .ok () later := by
  induction entities generalizing run with
  | nil => exact ⟨run, rfl⟩
  | cons entity rest ih =>
    obtain ⟨middle, went⟩ := exists_guarded entity (generatePair settings entity) run
    obtain ⟨last, gone⟩ := ih middle
    exact ⟨last, (bind_of_ok went).trans gone⟩

/-- A step of a run comes to its end. -/
def Returns {α : Type} (step : RunM α) (run : Run) : Prop := ∃ result later, step run = .ok result later

private theorem returns_bind_iff {α β : Type} {first : RunM α} {rest : α → RunM β} {result : α}
    (went : first run = .ok result later) :
    Returns (first >>= rest) run ↔ Returns (rest result) later := by
  rw [Returns, bind_of_ok went]
  rfl

private theorem not_returns_bind {α β : Type} {first : RunM α} {rest : α → RunM β} {failure : Failure}
    (went : first run = .error failure later) : ¬ Returns (first >>= rest) run := by
  rintro ⟨result, final, ran⟩
  obtain ⟨value, middle, ok, -⟩ := exists_of_bind_eq_ok ran
  cases went.symm.trans ok

private theorem returns_get_bind {α : Type} {rest : Run → RunM α} :
    Returns (get >>= rest) run ↔ Returns (rest run) run := Iff.rfl

private theorem ask_of_error {α : Type} {question : Project → Except Failure α} {failure : Failure}
    (unanswered : question run.project = .error failure) : ask question run = .error failure run := by
  simp only [ask, unanswered]

private theorem ask_of_ok {α : Type} {question : Project → Except Failure α} {answer : α}
    (answered : question run.project = .ok answer) : ask question run = .ok answer run := by
  simp only [ask, answered]

private theorem returns_reportFailedEdit {failure : Failure} (told : isReported failure = true)
    (entity : Option Text) (file : Text) : Returns (reportFailedEdit entity file failure) run := by
  unfold reportFailedEdit
  rw [if_pos told]
  exact ⟨_, _, rfl⟩

private theorem returns_concludeEdit (run : Run) (entity : Option Text) (file : Text) (edit : FileEdit) :
    Returns (concludeEdit entity file edit) run := by
  refine (returns_bind_iff (forM_say _ _)).mpr ?_
  cases edit.changed <;> exact ⟨_, _, rfl⟩

/-- The edit of a file returns if it can be told whether the file is there. -/
theorem returns_editFile (sound : run.project.HoldsNothingBack) {file : Text} {there : Bool}
    (answered : run.project.has file = .ok there) (entity : Option Text) (conversion : Conversion)
    (required : Bool) : Returns (editFile entity file conversion required) run := by
  unfold editFile
  refine (returns_bind_iff (ask_of_ok answered)).mpr ?_
  cases there with
  | false => cases required <;> exact ⟨_, _, rfl⟩
  | true =>
    have outcome := Workspace.edited_edit run.parses run.space file conversion
    refine returns_get_bind.mpr ?_
    cases pair : run.space.edit run.parses file conversion with
    | mk result space =>
      rw [pair] at outcome
      cases result with
      | ok edit => exact returns_concludeEdit { run with space } entity file edit
      | error failure =>
        have told : isReported failure = true := by
          cases outcome with
          | unread unread => exact Project.isReported_of_read answered unread
          | refused read made refused =>
            exact Project.isReported_of_write sound answered (congrArg Prod.fst refused)
        exact @returns_reportFailedEdit { run with space } failure told entity file

/-- The settings for MyBatis are known, or can be loaded. -/
def CanLoadSettings (run : Run) : Prop :=
  run.settings.isSome ∨ ∀ path, run.project.has Project.generatorFile ≠ .error (.linkLoop path)

/-- The entities that a run takes and whose MyBatis sources it generates. -/
def wanting (options : RunOptions) (entities : List Entity) : List Entity :=
  (selected options entities).filter fun entity => entity.isMyBatis && options.withMyBatis

/-- The run once the MyBatis sources of entities are generated, with the settings that it has or
loads. -/
def afterSources (entities : List Entity) (run : Run) : Run :=
  after (myBatisSettings >>= fun settings =>
    entities.forM fun entity => guarded entity (generatePair settings entity)) run

private theorem returns_myBatisSettings_iff : Returns myBatisSettings run ↔ run.CanLoadSettings := by
  unfold myBatisSettings CanLoadSettings
  rw [returns_get_bind]
  cases run.settings with
  | some settings => exact iff_of_true ⟨settings, run, rfl⟩ (.inl rfl)
  | none =>
    cases loaded : run.project.myBatisSettings with
    | error failure =>
      refine iff_of_false (not_returns_bind (ask_of_error loaded)) ?_
      obtain ⟨path, -, looped⟩ := Project.myBatisSettings_eq_error_iff.mp loaded
      rintro (known | loopless)
      · cases known
      · exact loopless path looped
    | ok pair =>
      refine iff_of_true ((returns_bind_iff (ask_of_ok loaded)).mpr ?_) (.inr fun path looped => ?_)
      · exact (returns_bind_iff (forM_say _ _)).mpr ⟨_, _, rfl⟩
      · have failed := Project.myBatisSettings_eq_error_iff.mpr ⟨path, rfl, looped⟩
        cases loaded.symm.trans failed

/-- A run that finds a configuration which it can load on any interpreter, and use: the settings in it
can be encoded, and it has so few lists and objects that no limit on how deep they are nested is
met. -/
structure HasOrdinaryConfig (run : Run) : Prop where
  texts : run.HasTextSettings
  shallow : ∀ text, run.project.read Project.generatorFile = .ok text →
    text.countP (fun c => c == '[' || c == '\x7b') ≤ 500

/-- The MyBatis part of a run returns exactly if its two questions are answered. -/
theorem returns_runMyBatis_iff (sound : run.project.HoldsNothingBack)
    (texts : run.HasTextSettings) (entities : List Entity) :
    Returns (runMyBatis entities) run ↔
      run.CanLoadSettings ∧
        ∃ there, (afterSources entities run).project.has run.options.layout.applicationYml = .ok there := by
  rw [← returns_myBatisSettings_iff]
  unfold runMyBatis
  cases loads : myBatisSettings run with
  | error failure loaded =>
    refine iff_of_false (not_returns_bind loads) ?_
    rintro ⟨⟨settings, later, ok⟩, -⟩
    cases loads.symm.trans ok
  | ok settings loaded =>
    have toLoaded : Steps (scopeOf run.options []) run loaded := steps_to_of_ok loads steps_myBatisSettings
    obtain ⟨last, generates⟩ := exists_generatePairs settings entities loaded
    have toLast : Steps (scopeOf run.options []) loaded last := by
      refine steps_to_of_ok generates (steps_forM (fun entity _ run told => ?_) toLoaded.options_eq)
      exact steps_guarded (steps_generatePair told settings entity)
    have left : afterSources entities run = last := by
      rw [afterSources, after_bind_of_ok loads]
      simp only [after, generates]
    rw [returns_bind_iff loads, returns_get_bind, left, toLoaded.options_eq, returns_bind_iff generates]
    rw [and_iff_right ⟨settings, loaded, loads⟩]
    cases answered : last.project.has run.options.layout.applicationYml with
    | error failure =>
      refine iff_of_false (not_returns_bind (ask_of_error answered)) ?_
      rintro ⟨there, ⟨⟩⟩
    | ok there =>
      refine iff_of_true ((returns_bind_iff (ask_of_ok answered)).mpr ?_) ⟨there, rfl⟩
      cases there with
      | false => exact ⟨_, _, rfl⟩
      | true =>
        have soundLast := toLast.holdsNothingBack (toLoaded.holdsNothingBack sound)
        obtain ⟨inOrder, later, edited⟩ := returns_editFile soundLast answered none
          (.single "mybatis config" (MyBatis.appendSettings settings run.options.layout.package)) false
        simp only [encodeSettings_of_texts (texts.halves_eq_nil loads), if_true]
        exact (returns_bind_iff rfl).mpr ((returns_bind_iff edited).mpr ⟨_, _, rfl⟩)

/-- The end of a run: its report takes in what was said. -/
def conclude : RunM RunReport := fun last =>
  .ok { last.report with diagnostics := last.reporter.items }
    (last.recording fun report => { report with diagnostics := last.reporter.items })

/-- What a run does once the entities had their turns. -/
theorem batch_of_turns {entities : List Entity} {viewed : Run}
    (turned : (selected run.options entities).forM takeTurn (run.recording fun _ => {}) =
      .ok () viewed) :
    batch entities run =
      ((if (wanting run.options entities).isEmpty then pure ()
        else runMyBatis (wanting run.options entities)) >>= fun _ => conclude) viewed := by
  refine (bind_of_ok turned).trans ?_
  show (if !(wanting run.options entities).isEmpty then _ else _ : RunM RunReport) viewed = _
  cases (wanting run.options entities).isEmpty <;> rfl

/-- A run over a project that has the application's settings or a link in their place; the source of
its entity is a link out of the project. -/
def outwardRun (settings : Node) : Run where
  options := { layout := { package := "p", mainJava := "j", testJava := "t", mainResources := "r" } }
  space := {
    project := {
      root := ["w".toList]
      disk := { entries := [
        (["w".toList], .folder),
        (["w".toList, "j".toList], .folder),
        (["w".toList, "j".toList, "p".toList], .folder),
        (["w".toList, "j".toList, "p".toList, "domain".toList], .folder),
        (["w".toList, "j".toList, "p".toList, "domain".toList, "V.java".toList], .link "/o".toList),
        (["w".toList, "r".toList], .folder),
        (["w".toList, "r".toList, "config".toList], .folder),
        (["w".toList, "r".toList, "config".toList, "application.yml".toList], settings)] } } }
  clock := .fixed ⟨2024, 5, 6, 7, 8, 9⟩

/-- A configuration that gives a package for MyBatis models, as JSON spells it. -/
def packageConfig (package : Text) : Text :=
  "\x7b\"generator-jhipster-view-blueprint\": \x7b\"mybatis\": \x7b\"modelPackage\": \"" ++ package ++
    "\"\x7d\x7d\x7d"

/-- That run in a project with such a configuration. -/
def configuredRun (package : Text) (settings : Node) : Run :=
  let disk := (outwardRun settings).project.disk
  { outwardRun settings with
    space := {
      project := {
        root := ["w".toList]
        disk := { disk with entries := disk.entries ++
          [(["w".toList, ".yo-rc.json".toList], .file (Utf8.encode (packageConfig package)))] } } } }

/-- A view entity that wants MyBatis sources. -/
def pairedEntity : Entity where
  name := "V"
  className := "V"
  table := "v"
  annotations := [(.string "view", .bool true), (.string "mybatis", .bool true)]

end Run

end ReadOnlyViews
