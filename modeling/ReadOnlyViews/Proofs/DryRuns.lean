import ReadOnlyViews.Proofs.Shadowing

/-!
Dry runs.  A dry run goes step by step with the real run on the same tree: both get the same answers
and say the same things, while the dry one only holds back what the real one does to the disk.  One
question goes past what is held back, whether there is a SQL file; so the runs keep together as long
as no view's SQL is in a file that the run itself writes or deletes, no file is used under two
paths, and the disk refuses nothing.
-/

namespace ReadOnlyViews

namespace Run

namespace Frame

variable {frame : Frame} {α : Type}

/-! ### Edits of files -/

/-- A step that tells of the disk refusing is not calm. -/
theorem not_calm_of_tells {step : RunM α} {run : Run} {d : Diagnostic}
    (said : d ∈ (after step run).reporter.items) (tells : d.TellsFault) : ¬ frame.Calm (step run) :=
  fun calm => calm.quiet.silent d said tells

/-- An edit that the real disk does not refuse is made in both workspaces. -/
theorem Shadows.edit {dry : Project} {space : Workspace} (shadows : frame.Shadows dry space.project)
    {file : Text} (named : frame.Named file) (keeps : Project.KeepsName file)
    (present : space.project.has file = .ok true) (wellFormed : Text → Bool)
    (conversion : Conversion) :
    (∃ fault path onto,
        (space.edit wellFormed file conversion).1 = .error (.disk fault path onto)) ∨
      ∃ next, frame.Shadows next (space.edit wellFormed file conversion).2.project ∧
        Workspace.edit wellFormed { space with project := dry } file conversion =
          ((space.edit wellFormed file conversion).1,
            { (space.edit wellFormed file conversion).2 with project := next }) := by
  by_cases refused : ∃ fault path onto, space.project.read file = .error (.disk fault path onto)
  · obtain ⟨fault, path, onto, unread⟩ := refused
    exact .inl ⟨fault, path, onto, by simp only [Workspace.edit, unread]⟩
  have same : dry.read file = space.project.read file :=
    shadows.stands.read_eq named fun fault path unread => refused ⟨fault, path, none, unread⟩
  simp only [Workspace.edit, same]
  cases space.project.read file with
  | error failure => exact .inr ⟨dry, shadows, rfl⟩
  | ok before =>
    cases made : conversion space.asked before with
    | error failure =>
      simp only [made]
      exact .inr ⟨dry, shadows, rfl⟩
    | ok converted =>
      simp only [made]
      by_cases kept : converted.text = before
      · simp only [kept, if_true]
        exact .inr ⟨dry, shadows, rfl⟩
      by_cases breaks : (Text.endsWith ".java" file && !wellFormed converted.text &&
          wellFormed before) = true
      · simp only [kept, breaks, if_true, if_false]
        exact .inr ⟨dry, shadows, rfl⟩
      simp only [kept, breaks, Bool.false_eq_true, if_false]
      cases wrote : space.project.write file converted.text with
      | mk result project =>
        cases result with
        | error failure =>
          obtain ⟨fault, path, onto, rfl⟩ := shadows.exists_of_write_eq_error present wrote
          exact .inl ⟨fault, path, onto, rfl⟩
        | ok =>
          obtain ⟨held, next⟩ := shadows.write named keeps wrote
          exact .inr ⟨_, next, by rw [held]⟩

private theorem within_edit (run : Run) (file : Text) (conversion : Conversion) :
    Within run { run with space := (run.space.edit run.parses file conversion).2 } := by
  have outcome := Workspace.edited_edit run.parses run.space file conversion
  generalize run.space.edit run.parses file conversion = pair at outcome
  have touches : ∀ other, run.project.Touches other → pair.2.project.Touches other := by
    intro other touched
    cases outcome with
    | unread | failed | kept | reverted => exact touched
    | @refused before converted failure project read made refused =>
      have later : (run.project.write file converted.text).2 = project := congrArg Prod.snd refused
      exact later ▸ touched.write
    | @changed before converted project read made changes written =>
      have later : (run.project.write file converted.text).2 = project := congrArg Prod.snd written
      exact later ▸ touched.write
  exact ⟨rfl, List.Subset.refl _, touches, fun _ known => known⟩

private theorem simulates_reportFailedEdit (entity : Option Text) (file : Text) (failure : Failure) :
    frame.Simulates (reportFailedEdit entity file failure) := by
  unfold reportFailedEdit
  split
  · exact (simulates_say _).bind fun _ _ _ _ => simulates_pure _
  · exact simulates_throw failure

private theorem simulates_concludeEdit (entity : Option Text) (file : Text) (edit : FileEdit) :
    frame.Simulates (concludeEdit entity file edit) := by
  unfold concludeEdit
  refine Simulates.bind (.forM (fun _ _ => trivial) fun d _ => simulates_say d) fun _ _ _ _ => ?_
  cases edit.changed with
  | false => exact simulates_pure _
  | true => exact (simulates_record _).bind fun _ _ _ _ => simulates_pure _

private theorem simulates_editFile {file : Text} (named : frame.Named file) (keeps : Project.KeepsName file)
    (entity : Option Text) (conversion : Conversion) (required : Bool) :
    frame.Simulates (editFile entity file conversion required) := by
  unfold editFile
  refine SimulatesFrom.bind (simulates_has named)
    (fun there run => there = true → run.project.has file = .ok true) (fun there => ?_)
    fun _ went _ => ?_
  · cases there with
    | false =>
      refine Simulates.known ?_
      cases required with
      | false => exact (simulates_say _).bind fun _ _ _ _ => simulates_pure _
      | true => exact (simulates_say _).bind fun _ _ _ _ => simulates_pure _
    | true =>
      rw [if_neg (by decide)]
      constructor
      case grows =>
        intro run told
        have within := within_edit run file conversion
        rw [after_get_bind]
        cases pair : run.space.edit run.parses file conversion with
        | mk result space =>
          rw [pair] at within
          cases result with
          | error failure => exact within.trans ((simulates_reportFailedEdit entity file failure).grows _ told)
          | ok edit => exact within.trans ((simulates_concludeEdit entity file edit).grows _ told)
      case alike =>
        intro real told present dry shadows calm
        have outcome := @Shadows.edit frame dry real.space shadows file named keeps (present rfl)
          real.parses conversion
        rcases outcome with ⟨fault, path, onto, refused⟩ | ⟨next, shadowsNext, beside⟩
        · have tells : Diagnostic.TellsFault
              { level := .error
                message := "failed to edit: " ++ (Failure.disk fault path onto).message
                entity
                path := some file } := ⟨fault, path, onto, .head _⟩
          refine absurd calm (not_calm_of_tells ?_ tells)
          rw [after_get_bind]
          cases pair : real.space.edit real.parses file conversion with
          | mk result space =>
            rw [pair] at refused
            obtain rfl : result = _ := refused
            exact List.mem_append_right _ (List.mem_singleton.mpr rfl)
        · rw [get_bind_apply] at calm ⊢
          rw [get_bind_apply]
          have besideRun : (real.withProject dry).space.edit (real.withProject dry).parses file
              conversion = _ := beside
          rw [besideRun]
          cases pair : real.space.edit real.parses file conversion with
          | mk result space =>
            rw [pair] at calm shadowsNext
            cases result with
            | error failure =>
              exact (simulates_reportFailedEdit entity file failure).alike { real with space } told trivial
                next shadowsNext calm
            | ok edit =>
              exact (simulates_concludeEdit entity file edit).alike { real with space } told trivial next
                shadowsNext calm
  · obtain ⟨asked, rfl⟩ := eq_of_ask went
    rintro rfl
    exact asked

/-! ### The SQL of a view -/

/-- Both projects have the same file at a place where neither wrote or deleted one. -/
theorem Shadows.file?_eq {dry real : Project} (shadows : frame.Shadows dry real) {path : Path}
    (untouched : ∀ file, real.Touches file → Path.place real.root file ≠ .ok path) :
    real.disk.file? path = dry.disk.file? path := by
  refine shadows.stands.kept fun file _ placed => ⟨?_, fun gone => ?_⟩
  · by_contra held
    obtain ⟨text, found⟩ := Option.ne_none_iff_exists'.mp held
    exact untouched file (shadows.held found) placed
  · exact untouched file (.inr gone) placed

/-- A file that neither project wrote or deleted is read alike, under any path. -/
theorem Shadows.read_eq_of_untouched {dry real : Project} (shadows : frame.Shadows dry real)
    {file : Text} {path : Path} (placed : Path.place real.root file = .ok path)
    (untouched : ∀ file, real.Touches file → Path.place real.root file ≠ .ok path)
    {content : Bytes} (found : real.disk.file? path = some content) :
    dry.read file = real.read file := by
  have plain := Path.isPlain_of_place placed
  have foundDry : dry.disk.file? path = some content := shadows.file?_eq untouched ▸ found
  have kept : file ∉ real.deleted := fun gone => untouched file (.inr gone) placed
  have unheld : dry.pending.lookup file = none := by
    by_contra held
    obtain ⟨text, found⟩ := Option.ne_none_iff_exists'.mp held
    exact untouched file (shadows.held found) placed
  rw [Project.read_of_unheld shadows.stands.tree (shadows.stands.deleted_eq ▸ kept) unheld,
    Project.read_of_unheld shadows.stands.ready.tree kept (shadows.stands.ready.unheld file),
    shadows.stands.root_eq, placed]
  simp only [bind, Except.bind, (Project.readFile_eq_ok_iff shadows.stands.tree plain).mpr foundDry,
    (Project.readFile_eq_ok_iff shadows.stands.ready.tree plain).mpr found]

private theorem Shadows.resolveWithin_eq {dry real : Project} (shadows : frame.Shadows dry real)
    (file : Text) : dry.disk.resolveWithin dry.root file = real.disk.resolveWithin real.root file :=
  (Project.locate_eq_place shadows.stands.tree.linkFree file).trans
    ((congrArg (Path.place · file) shadows.stands.root_eq).trans
      (Project.locate_eq_place shadows.stands.ready.tree.linkFree file).symm)

/-- A view has the same SQL in both projects if its file is not touched and the real disk does not
refuse. -/
theorem Shadows.viewText_eq {dry real : Project} (shadows : frame.Shadows dry real)
    (spares : ∀ file, real.Touches file → SparesSql frame.entities frame.root file)
    {entity : Entity} (member : entity ∈ frame.entities)
    (answers : ∀ fault path onto, (viewSource entity).text real.disk real.root (readAt real) ≠
      .error (.disk fault path onto)) :
    (viewSource entity).text dry.disk dry.root (readAt dry) =
      (viewSource entity).text real.disk real.root (readAt real) := by
  unfold Sql.ViewSource.text at answers ⊢
  cases inline : (entity.viewSql?.map Text.trim).filter (!·.isEmpty) with
  | some sql => simp only [viewSource, inline]
  | none =>
    cases given : entity.viewSqlFile?.filter (!·.isEmpty) with
    | none => simp only [viewSource, inline, given]
    | some file =>
      simp only [viewSource, inline, given, shadows.resolveWithin_eq] at answers ⊢
      have isSql : entity.sqlFile? = some file := by simp [Entity.sqlFile?, inline, given]
      have located : real.disk.resolveWithin real.root file = Path.place real.root file :=
        Project.locate_eq_place shadows.stands.ready.tree.linkFree file
      rw [located] at answers ⊢
      cases checked : Sql.checkPath file with
      | error failure => rfl
      | ok =>
        cases placed : Path.place real.root file with
        | error failure => rfl
        | ok target =>
          have untouched other (touched : real.Touches other) :
              Path.place real.root other ≠ .ok target := by
            rw [shadows.root_eq] at placed ⊢
            exact spares other touched entity member file isSql target placed
          cases asked : real.disk.isFile target with
          | error fault =>
            refine absurd ?_ (answers fault target none)
            simp [checked, placed, asked, bind, Except.bind]
          | ok there =>
            have askedDry := Disk.isFile_of_folders shadows.stands.tree shadows.stands.ready.tree
              shadows.stands.folders (Path.isPlain_of_place placed) (shadows.file?_eq untouched)
              asked
            cases there with
            | false => simp only [bind, Except.bind, asked, askedDry]
            | true =>
              obtain ⟨content, found⟩ := (Project.isFile_eq_true_iff shadows.stands.ready.tree
                (Path.isPlain_of_place placed)).mp asked
              have same : readAt dry target = readAt real target := by
                unfold readAt
                rw [shadows.stands.root_eq]
                refine shadows.read_eq_of_untouched ?_ untouched found
                exact Path.place_relativeText (shadows.root_eq ▸ frame.isPlain) placed
              simp only [bind, Except.bind, asked, askedDry, same]

private theorem simulates_recordFailed (entity : Entity) : frame.Simulates (recordFailed entity) :=
  simulates_record _

private theorem simulates_viewSql {entity : Entity} (member : entity ∈ frame.entities) :
    frame.Simulates (viewSql entity) := by
  have blames (d : Diagnostic) : frame.Simulates (do
      say d
      recordFailed entity
      return (none : Option Text)) :=
    (simulates_say d).bind fun _ _ _ _ => (simulates_recordFailed entity).bind fun _ _ _ _ =>
      simulates_pure _
  have warns (d : Diagnostic) : frame.Simulates (do
      say d
      return (none : Option Text)) :=
    (simulates_say d).bind fun _ _ _ _ => simulates_pure _
  unfold viewSql
  refine SimulatesFrom.get_bind (fun run dry quiet calm shadows => ?_) fun run _ => ?_
  · have answers fault path onto : (viewSource entity).text run.project.disk run.project.root
        (readAt run.project) ≠ .error (.disk fault path onto) := by
      intro refused
      have tells : Diagnostic.TellsFault
          { level := .warn, entity := some entity.name
            message := (Failure.disk fault path onto).message ++ "; changelog not generated" } :=
        ⟨fault, path, onto, .tail _ (.tail _ (.tail _ (.tail _ (.head _))))⟩
      dsimp only at calm
      rw [refused] at calm
      exact absurd calm
        (not_calm_of_tells (List.mem_append_right _ (List.mem_singleton.mpr rfl)) tells)
    have same : (viewSource entity).text (run.withProject dry).project.disk
        (run.withProject dry).project.root (readAt (run.withProject dry).project) = _ :=
      shadows.viewText_eq quiet.spares member answers
    dsimp only
    rw [same]
  · dsimp only
    split
    · exact simulates_pure _
    · split
      · exact blames _
      · exact warns _
      · exact warns _
      · exact blames _
      · exact simulates_throw _

private theorem simulates_refuseSqlFile (entity : Entity) (failure : Failure) :
    frame.Simulates (refuseSqlFile entity failure) := by
  unfold refuseSqlFile
  by_cases invalid : failure.family ≠ .validation
  · rw [if_pos invalid]
    exact simulates_throw failure
  · rw [if_neg invalid]
    exact (simulates_say _).bind fun _ _ _ _ =>
      (simulates_recordFailed entity).bind fun _ _ _ _ => simulates_pure _

private theorem simulates_sqlFileAllowed (entity : Entity) : frame.Simulates (sqlFileAllowed entity) := by
  unfold sqlFileAllowed
  split
  · exact simulates_pure _
  · rename_i file _
    refine SimulatesFrom.get_bind (fun run dry _ _ shadows => ?_) fun run _ => ?_
    · have same : (run.withProject dry).project.disk.resolveWithin
            (run.withProject dry).project.root file =
          run.project.disk.resolveWithin run.project.root file :=
        shadows.resolveWithin_eq file
      dsimp only
      rw [same]
    · dsimp only
      split
      · exact simulates_pure _
      · exact simulates_refuseSqlFile entity _
      · exact simulates_refuseSqlFile entity _

/-! ### Changelogs -/

/-- Behind the folder of changelogs a run uses names only. -/
theorem isName_of_uses {name : Name}
    (uses : frame.Named (frame.options.layout.changelogFolder ++ '/' :: name))
    (noSlash : '/' ∉ name) (noNul : '\x00' ∉ name) : Path.IsName name := by
  have ofEnd {c : Char}
      (ends : (frame.options.layout.changelogFolder ++ '/' :: name).getLast? = some c)
      (slash : c ≠ '/') (dot : c ≠ '.') : Path.IsName name := by
    rw [List.getLast?_append_of_ne_nil _ (by simp)] at ends
    refine ⟨?_, ?_, ?_, noSlash, noNul⟩
    · rintro rfl
      exact slash (Option.some.inj ends).symm
    · rintro rfl
      exact dot (Option.some.inj ends).symm
    · rintro rfl
      exact dot (Option.some.inj ends).symm
  generalize file_eq : frame.options.layout.changelogFolder ++ '/' :: name = file at uses
  rw [file_eq] at ofEnd
  cases uses with
  | source kind member => exact ofEnd (getLast?_sourceFile _ _ kind) (by decide) (by decide)
  | master => exact ofEnd (getLast?_masterChangelog _) (by decide) (by decide)
  | application => exact ofEnd (getLast?_applicationYml _) (by decide) (by decide)
  | generator => exact @ofEnd 'n' (by decide) (by decide) (by decide)
  | listed isName =>
    obtain rfl : name = _ := List.cons.inj (List.append_cancel_left file_eq) |>.2
    exact isName
  | view member stamped =>
    obtain ⟨c, ends, slash, dot, -⟩ :=
      keepsName_of_stampOf? stamped frame.options.layout.changelogFolder
    exact ofEnd ends slash dot
  | removed allowed =>
    rcases allowed.file_cases with sample | ⟨entity, -, other, rfl, ofTable⟩
    · exact ofEnd sample (by decide) (by decide)
    · obtain rfl : name = other := List.cons.inj (List.append_cancel_left file_eq) |>.2
      obtain ⟨stamp, rest, rfl, -⟩ := Changelog.exists_of_isTable ofTable
      refine ⟨by simp, ?_, ?_, noSlash, noNul⟩
      · intro dot
        have member : '_' ∈ ".".toList := dot ▸ (by simp)
        revert member
        decide
      · intro dots
        have member : '_' ∈ "..".toList := dots ▸ (by simp)
        revert member
        decide
  | model | mapper => exact ofEnd (getLast?_inMain _ _ _) (by decide) (by decide)

private theorem simulates_list :
    frame.Simulates (ask (·.list frame.options.layout.changelogFolder)) :=
  simulates_ask fun shadows answers =>
    shadows.stands.list_eq (getLast?_changelogFolder _) (by decide) (fun _ isName => .listed isName)
      (fun _ => isName_of_uses) fun fault path => answers fault path none

private theorem simulates_drawChangelog (existing : List Name) (view : Text) :
    frame.Simulates (drawChangelog existing view) := by
  have within (run : Run) (clock : Clock) : Within run { run with clock } :=
    ⟨rfl, List.Subset.refl _, fun _ touched => touched, fun _ known => known⟩
  unfold drawChangelog
  constructor
  case grows =>
    intro run _
    rw [after_get_bind]
    cases Changelog.nextView existing view run.clock with
    | mk result clock => cases result <;> exact within run clock
  case alike =>
    intro real _ _ dry shadows _
    rw [get_bind_apply, get_bind_apply]
    have same : (real.withProject dry).clock = real.clock := rfl
    rw [same]
    cases Changelog.nextView existing view real.clock with
    | mk result clock =>
      cases result with
      | ok drawn => exact @Mirrored.ok _ frame drawn { real with clock } dry shadows
      | error failure => exact @Mirrored.error _ frame failure { real with clock } dry shadows

private theorem simulates_storeChangelog {file : Text} (named : frame.Named file)
    (keeps : Project.KeepsName file) (entity : Entity) (content : Text) :
    frame.Simulates (storeChangelog entity file content) := by
  unfold storeChangelog
  refine SimulatesFrom.tryCatch ?_ (fun failure => ?_) fun fault path onto run => ?_
  · refine (simulates_writeIfChanged named keeps content).bind fun _ written _ _ => ?_
    cases written with
    | false => exact simulates_pure _
    | true =>
      exact (simulates_record _).bind fun _ _ _ _ => (simulates_say _).bind fun _ _ _ _ =>
        simulates_pure _
  · cases isReported failure with
    | true => exact (simulates_say _).bind fun _ _ _ _ => simulates_pure _
    | false => exact simulates_throw failure
  · have tells : Diagnostic.TellsFault
        { level := .error, entity := some entity.name, path := some file
          message := "failed to write changelog: " ++ (Failure.disk fault path onto).message } :=
      ⟨fault, path, onto, .tail _ (.head _)⟩
    exact not_calm_of_tells (List.mem_append_right _ (List.mem_singleton.mpr rfl)) tells

/-- An edit of the master changelog, if there is one. -/
theorem simulates_editMaster (entity : Entity) (conversion : Conversion) (required : Bool) :
    frame.Simulates
      (editFile (some entity.name) frame.options.layout.masterChangelog conversion required) :=
  simulates_editFile .master ⟨'l', getLast?_masterChangelog _, by decide⟩ _ conversion required

private theorem simulates_registerChangelog (entity : Entity) (name : Text) :
    frame.Simulates (registerChangelog entity name) := by
  unfold registerChangelog
  refine SimulatesFrom.get_bind (fun _ _ _ _ _ => rfl) fun run told => ?_
  dsimp only
  rw [told]
  refine (simulates_has .master).bind fun _ there _ _ => ?_
  cases there with
  | true => exact (simulates_editMaster entity _ _).bind fun _ _ _ _ => simulates_pure _
  | false => exact simulates_say _

private theorem simulates_writeViewChangelog {entity : Entity} (member : entity ∈ frame.entities) :
    frame.Simulates (writeViewChangelog entity) := by
  unfold writeViewChangelog
  refine (simulates_viewSql member).bind fun _ sql _ _ => ?_
  cases sql with
  | none => exact simulates_pure _
  | some sql =>
    refine SimulatesFrom.get_bind (fun _ _ _ _ _ => rfl) fun run told => ?_
    dsimp only
    rw [told]
    refine simulates_list.bind fun _ existing _ _ => ?_
    refine (simulates_drawChangelog existing entity.table).bind fun _ drawn _ drew => ?_
    obtain ⟨clock, next, -⟩ := exists_nextView_of_drawChangelog drew
    obtain ⟨name, stamp⟩ := drawn
    have stamped := (Changelog.nextView_cases next).1
    have spelled : frame.options.layout.changelogFolder ++ "/".toList ++ name =
        frame.options.layout.changelogFolder ++ '/' :: name := by simp
    dsimp only
    rw [spelled]
    refine (simulates_storeChangelog (.view member stamped) (keepsName_of_stampOf? stamped _)
      entity _).bind fun _ stored _ _ => ?_
    cases stored with
    | false => exact simulates_pure _
    | true => exact (simulates_registerChangelog entity name).bind fun _ _ _ _ => simulates_pure _

private theorem simulates_deleteArtifact {file : Text} (named : frame.Named file) (entity : Entity) :
    frame.Simulates (deleteArtifact entity file) := by
  unfold deleteArtifact
  refine SimulatesFrom.tryCatch ?_ (fun failure => ?_) fun fault path onto run => ?_
  · exact (simulates_delete named).bind fun _ _ _ _ => (simulates_record _).bind fun _ _ _ _ =>
      simulates_say _
  · by_cases other : failure.family ≠ .disk
    · rw [if_pos other]
      exact simulates_throw failure
    · rw [if_neg other]
      exact simulates_say _
  · have tells : Diagnostic.TellsFault
        { level := .warn, entity := some entity.name, path := some file
          message := "failed to delete: " ++ (Failure.disk fault path onto).message } :=
      ⟨fault, path, onto, .tail _ (.tail _ (.tail _ (.head _)))⟩
    exact not_calm_of_tells (List.mem_append_right _ (List.mem_singleton.mpr rfl)) tells

private theorem simulates_deleteArtifacts {entity : Entity} (member : entity ∈ frame.entities) :
    frame.Simulates (deleteArtifacts frame.options.layout entity) := by
  have isSample : frame.Named
      (frame.options.layout.fakeDataFolder ++ "/" ++ entity.table ++ ".csv") :=
    .removed (.sample member)
  unfold deleteArtifacts
  refine simulates_list.bind fun _ names _ _ => ?_
  refine Simulates.bind (.forM (fun _ _ => trivial) fun name chosen => ?_) fun _ _ _ _ => ?_
  · have ofTable := (List.mem_filter.mp chosen).2
    rw [Bool.or_eq_true] at ofTable
    exact simulates_deleteArtifact (.removed (.changelog member ofTable)) entity
  · refine (simulates_has isSample).bind fun _ there _ _ => ?_
    cases there with
    | false => exact simulates_pure _
    | true => exact simulates_deleteArtifact isSample entity

private theorem simulates_removeTableDefinitions {entity : Entity} (member : entity ∈ frame.entities) :
    frame.Simulates (removeTableDefinitions entity) := by
  unfold removeTableDefinitions
  refine SimulatesFrom.get_bind (fun _ _ _ _ _ => rfl) fun run told => ?_
  dsimp only
  rw [told]
  refine (simulates_has .master).bind fun _ there _ _ => ?_
  cases there with
  | false => exact simulates_deleteArtifacts member
  | true =>
    exact (simulates_editMaster entity _ _).bind fun _ _ _ _ => simulates_deleteArtifacts member

/-! ### Whole runs -/

theorem SimulatesFrom.guarded {known : Run → Prop} {step : RunM Unit}
    (one : frame.SimulatesFrom known step) (entity : Entity) :
    frame.SimulatesFrom known (guarded entity step) := by
  unfold Run.guarded
  refine one.tryCatch (fun failure => ?_) fun fault path onto run => ?_
  · exact (simulates_say _).bind fun _ _ _ _ => simulates_record _
  · have tells : Diagnostic.TellsFault
        { level := .error, entity := some entity.name
          message := "unexpected failure: " ++ (Failure.disk fault path onto).label ++ ": " ++
            (Failure.disk fault path onto).message } :=
      ⟨fault, path, onto, .tail _ (.tail _ (.tail _ (.tail _ (.tail _ (.head _)))))⟩
    exact not_calm_of_tells (List.mem_append_right _ (List.mem_singleton.mpr rfl)) tells

private theorem simulates_prepareView {entity : Entity} (member : entity ∈ frame.entities) :
    frame.Simulates (prepareView entity) := by
  have converts (kind : ReadOnly.SourceKind) (required : Bool) : frame.Simulates
      (editFile (some entity.name) (frame.options.layout.sourceFile entity kind)
        (ReadOnly.convert kind entity.table) required) :=
    simulates_editFile (.source kind member) ⟨'a', getLast?_sourceFile _ _ kind, by decide⟩ _ _ _
  unfold prepareView
  refine (simulates_say _).bind fun _ _ _ _ => ?_
  refine (simulates_sqlFileAllowed entity).bind fun _ allowed _ _ => ?_
  cases allowed with
  | false => exact simulates_pure _
  | true =>
    refine SimulatesFrom.get_bind (fun _ _ _ _ _ => rfl) fun run told => ?_
    dsimp only
    rw [told]
    refine (converts .entity true).bind fun _ inOrder _ _ => ?_
    cases inOrder with
    | false => exact simulates_pure _
    | true =>
      refine (converts .repository false).bind fun _ _ _ _ => ?_
      refine (converts .resource false).bind fun _ _ _ _ => ?_
      refine (converts .service false).bind fun _ _ _ _ => ?_
      exact (converts .test false).bind fun _ _ _ _ => simulates_pure _

private theorem simulates_runView {entity : Entity} (member : entity ∈ frame.entities) :
    frame.Simulates (runView entity) := by
  have cleanup : frame.Simulates
      (if frame.options.withCleanup then removeTableDefinitions entity else pure ()) := by
    split
    · exact simulates_removeTableDefinitions member
    · exact simulates_pure ()
  unfold runView
  refine (simulates_prepareView member).bind fun _ ready _ _ => ?_
  cases ready with
  | false => exact simulates_pure _
  | true =>
    refine SimulatesFrom.get_bind (fun _ _ _ _ _ => rfl) fun run told => ?_
    dsimp only
    rw [told]
    split
    · exact (simulates_writeViewChangelog member).bind fun _ _ _ _ => cleanup
    · exact cleanup

private theorem simulates_takeTurn {entity : Entity} (member : entity ∈ frame.entities) :
    frame.Simulates (takeTurn entity) := by
  unfold takeTurn
  refine (simulates_record _).bind fun _ _ _ _ => ?_
  split
  · exact (simulates_runView member).guarded entity
  · exact simulates_pure _

private theorem simulates_generate {file : Text} (named : frame.Named file) (keeps : Project.KeepsName file)
    (entity : Entity) (content : Text) : frame.Simulates (generate entity file content) := by
  unfold generate
  refine Simulates.bind (.tryCatch (simulates_writeIfChanged named keeps content)
    (fun failure => ?_) fun fault path onto run => ?_) fun _ written _ _ => ?_
  · cases isReported failure with
    | true => exact (simulates_say _).bind fun _ _ _ _ => simulates_pure _
    | false => exact simulates_throw failure
  · have tells : Diagnostic.TellsFault
        { level := .error, entity := some entity.name, path := some file
          message := "failed to generate: " ++ (Failure.disk fault path onto).message } :=
      ⟨fault, path, onto, .tail _ (.tail _ (.head _))⟩
    exact not_calm_of_tells (List.mem_append_right _ (List.mem_singleton.mpr rfl)) tells
  · cases written with
    | false => exact simulates_pure _
    | true => exact (simulates_record _).bind fun _ _ _ _ => simulates_say _

private theorem simulates_encode (half? : Option (Nat × Nat)) : frame.Simulates (encode half?) := by
  cases half? with
  | none => exact simulates_pure _
  | some half => exact simulates_throw _

private theorem simulates_generatePair {settings : MyBatis.Settings} (loaded : frame.loaded = some settings)
    {entity : Entity} (member : entity ∈ frame.entities) :
    frame.Simulates (generatePair settings entity) := by
  unfold generatePair
  refine SimulatesFrom.get_bind (fun _ _ _ _ _ => rfl) fun run told => ?_
  dsimp only
  rw [told]
  refine (simulates_encode _).bind fun _ _ _ _ => ?_
  refine (simulates_generate (.model member loaded) ⟨'a', getLast?_inMain _ _ _, by decide⟩
    entity _).bind fun _ _ _ _ => ?_
  refine (simulates_encode _).bind fun _ _ _ _ => ?_
  exact simulates_generate (.mapper member loaded) ⟨'a', getLast?_inMain _ _ _, by decide⟩ entity _

/-- A step that uses settings is taken alike once they are loaded. -/
theorem simulatesFrom_generatePair (settings : MyBatis.Settings) {entity : Entity}
    (member : entity ∈ frame.entities) :
    frame.SimulatesFrom (·.settings = some settings) (generatePair settings entity) := by
  have grows : frame.Grows (generatePair settings entity) :=
    (@simulates_generatePair { frame with loaded := some settings } settings rfl entity
      member).grows
  refine ⟨grows, fun real told known dry shadows calm => ?_⟩
  have loaded := (calm.quiet.of_within (grows real told)).loaded settings known
  exact (simulates_generatePair loaded member).alike real told trivial dry shadows calm

/-- Both projects give the same MyBatis settings. -/
theorem Shadows.myBatisSettings_eq {dry real : Project} (shadows : frame.Shadows dry real) :
    dry.myBatisSettings = real.myBatisSettings := by
  have isPlain : Path.IsPlain real.root := shadows.root_eq ▸ frame.isPlain
  have isShort : Path.HasShortNames real.root := shadows.root_eq ▸ frame.isShort
  have has_eq : dry.has Project.generatorFile = real.has Project.generatorFile :=
    shadows.stands.has_eq .generator
      (Project.has_ne_disk shadows.stands.ready isPlain isShort (by decide) (by decide))
  have value_eq : dry.generatorValue = real.generatorValue := by
    unfold Project.generatorValue
    rw [has_eq]
    cases asked : real.has Project.generatorFile with
    | error failure => rfl
    | ok there =>
      cases there with
      | false => rfl
      | true =>
        have read_eq := shadows.stands.read_eq .generator
          (Project.read_ne_disk shadows.stands.ready asked)
        simp only [read_eq]
  unfold Project.myBatisSettings Project.myBatisSection Project.generatorConfig
  rw [value_eq]

private theorem myBatisSettings_of_some {run : Run} {settings : MyBatis.Settings}
    (loaded : run.settings = some settings) : myBatisSettings run = .ok settings run := by
  unfold myBatisSettings
  rw [get_bind_apply, loaded]
  rfl

private theorem myBatisSettings_of_ok {run : Run} {settings : MyBatis.Settings} {ds : List Diagnostic}
    (unloaded : run.settings = none) (answered : run.project.myBatisSettings = .ok (settings, ds)) :
    myBatisSettings run = .ok settings { run.sayingAll ds with settings := some settings } := by
  unfold myBatisSettings
  rw [get_bind_apply, unloaded]
  have asked : ask (·.myBatisSettings) run = .ok (settings, ds) run := by simp [ask, answered]
  refine (bind_of_ok asked).trans ?_
  exact (bind_of_ok (forM_say ds run)).trans rfl

private theorem myBatisSettings_of_error {run : Run} {failure : Failure} (unloaded : run.settings = none)
    (answered : run.project.myBatisSettings = .error failure) :
    myBatisSettings run = .error failure run := by
  unfold myBatisSettings
  rw [get_bind_apply, unloaded]
  exact bind_of_error (by simp [ask, answered])

private theorem simulates_myBatisSettings : frame.Simulates myBatisSettings where
  grows run _ := by
    cases unloaded : run.settings with
    | some settings => simpa only [after, myBatisSettings_of_some unloaded] using .refl run
    | none =>
      cases answered : run.project.myBatisSettings with
      | error failure =>
        simpa only [after, myBatisSettings_of_error unloaded answered] using .refl run
      | ok answer =>
        obtain ⟨settings, ds⟩ := answer
        simp only [after, myBatisSettings_of_ok unloaded answered]
        refine ⟨rfl, ?_, fun _ touched => touched, by simp [unloaded]⟩
        exact (items_sayingAll run ds).symm ▸ List.subset_append_left _ _
  alike real _ _ dry shadows _ := by
    cases unloaded : real.settings with
    | some settings =>
      have beside : (real.withProject dry).settings = some settings := unloaded
      rw [myBatisSettings_of_some unloaded, myBatisSettings_of_some beside]
      exact .ok shadows
    | none =>
      have beside : (real.withProject dry).settings = none := unloaded
      have same : (real.withProject dry).project.myBatisSettings = real.project.myBatisSettings :=
        shadows.myBatisSettings_eq
      cases answered : real.project.myBatisSettings with
      | error failure =>
        rw [myBatisSettings_of_error unloaded answered,
          myBatisSettings_of_error beside (same.trans answered)]
        exact .error shadows
      | ok answer =>
        obtain ⟨settings, ds⟩ := answer
        rw [myBatisSettings_of_ok unloaded answered,
          myBatisSettings_of_ok beside (same.trans answered)]
        exact @Mirrored.ok _ frame settings { real.sayingAll ds with settings := some settings } dry
          shadows

/-- The settings are kept once they were loaded. -/
theorem settings_of_myBatisSettings {run later : Run} {settings : MyBatis.Settings}
    (went : myBatisSettings run = .ok settings later) : later.settings = some settings := by
  cases unloaded : run.settings with
  | some known =>
    rw [myBatisSettings_of_some unloaded] at went
    cases went
    exact unloaded
  | none =>
    cases answered : run.project.myBatisSettings with
    | error failure =>
      rw [myBatisSettings_of_error unloaded answered] at went
      cases went
    | ok answer =>
      obtain ⟨known, ds⟩ := answer
      rw [myBatisSettings_of_ok unloaded answered] at went
      cases went
      rfl

private theorem simulatesFrom_encodeSettings (settings : MyBatis.Settings) (yml package : Text) :
    frame.SimulatesFrom (fun _ => settings.halves = []) (encodeSettings settings yml package) where
  grows run _ := by
    rw [after_encodeSettings]
    exact .refl run
  alike real told texts := by
    rw [encodeSettings_of_texts texts]
    exact (simulates_pure ()).alike real told trivial

private theorem simulatesFrom_runMyBatis {wanting : List Entity}
    (members : ∀ entity ∈ wanting, entity ∈ frame.entities) :
    frame.SimulatesFrom HasTextSettings (runMyBatis wanting) := by
  have append (settings : MyBatis.Settings) : frame.SimulatesFrom (fun _ => settings.halves = []) (do
      if ← ask (·.has frame.options.layout.applicationYml) then
        encodeSettings settings frame.options.layout.applicationYml frame.options.layout.package
        let _ ← editFile none frame.options.layout.applicationYml (.single "mybatis config"
          (MyBatis.appendSettings settings frame.options.layout.package)) false
      else
        say { level := .warn, message := "application.yml not found; MyBatis config not appended",
              path := some frame.options.layout.applicationYml }) := by
    refine SimulatesFrom.bind (simulates_has .application).known (fun _ _ => settings.halves = [])
      (fun there => ?_) fun texts _ _ => texts
    cases there with
    | true =>
      refine SimulatesFrom.bind (simulatesFrom_encodeSettings settings _ _) (fun _ _ => True)
        (fun _ => ?_) fun _ _ _ => trivial
      exact (simulates_editFile .application ⟨'l', getLast?_applicationYml _, by decide⟩ _ _ _).bind
        fun _ _ _ _ => simulates_pure _
    | false => exact (simulates_say _).known
  unfold runMyBatis
  refine SimulatesFrom.bind simulates_myBatisSettings.known
    (fun settings run => run.settings = some settings ∧ settings.halves = []) (fun settings => ?_)
    fun texts went _ => ⟨settings_of_myBatisSettings went, texts.halves_eq_nil went⟩
  refine SimulatesFrom.get_bind (fun _ _ _ _ _ => rfl) fun run told => ?_
  dsimp only
  rw [told]
  refine SimulatesFrom.bind (.forM (fun within known => ⟨within.loaded settings known.1, known.2⟩)
    fun entity wants => ?_) (fun _ _ => settings.halves = []) (fun _ => append settings)
    fun known _ _ => known.2
  exact ((simulatesFrom_generatePair settings (members entity wants)).guarded entity).mono
    fun _ known => known.1

/-- A dry run over the entities goes as the real one, if the settings for MyBatis are texts when they
are loaded, behind the entities' turns. -/
theorem simulatesFrom_batch :
    frame.SimulatesFrom (fun run => (after ((selected frame.options frame.entities).forM takeTurn)
      (run.recording fun _ => {})).HasTextSettings) (batch frame.entities) := by
  have ends : frame.Simulates (do
      modify fun run => { run with report := { run.report with diagnostics := run.reporter.items } }
      return (← get).report : RunM RunReport) := by
    refine Simulates.bind (simulates_modify (fun run => ?_) (fun _ => rfl) fun _ _ => rfl)
      fun _ _ _ _ => ?_
    · exact ⟨rfl, List.Subset.refl _, fun _ touched => touched, fun _ known => known⟩
    · exact SimulatesFrom.get_bind (fun _ _ _ _ _ => rfl) fun _ _ => simulates_pure _
  have chosen entity (member : entity ∈ selected frame.options frame.entities) :
      entity ∈ frame.entities := mem_of_mem_selected member
  have turns : frame.Simulates ((selected frame.options frame.entities).forM takeTurn) :=
    .forM (fun _ _ => trivial) fun entity member => simulates_takeTurn (chosen entity member)
  unfold batch
  refine SimulatesFrom.bind (simulates_record _).known (fun _ run =>
    (after ((selected frame.options frame.entities).forM takeTurn) run).HasTextSettings)
    (fun _ => ?_) fun texts went _ => ?_
  · refine SimulatesFrom.get_bind (fun _ _ _ _ _ => rfl) fun run told => ?_
    dsimp only
    rw [told]
    refine SimulatesFrom.bind turns.known (fun _ run => run.HasTextSettings) (fun _ => ?_)
      fun texts went _ => ?_
    · split
      · refine SimulatesFrom.bind (simulatesFrom_runMyBatis fun entity wants => ?_) (fun _ _ => True)
          (fun _ => ends) fun _ _ _ => trivial
        exact chosen entity (List.mem_filter.mp wants).1
      · exact ends.known
    · simpa only [after, went] using texts
  · cases went
    exact texts

end Frame

end Run

/-! ### Paths that are spelled out -/

namespace Path

private theorem segments_join {parts : List Text} (nonempty : parts ≠ []) :
    segments (Text.join "/" parts) = parts.flatMap segments := by
  induction parts with
  | nil => exact absurd rfl nonempty
  | cons part parts ih =>
    cases parts with
    | nil => simp [Text.join]
    | cons next parts =>
      have cut : Text.join "/" (part :: next :: parts) =
          part ++ '/' :: Text.join "/" (next :: parts) := by simp [Text.join]
      rw [cut, segments, Text.pieces_append_mark, List.flatMap_cons, ← ih (by simp)]
      rfl

private theorem isSpelledOut_join_iff {parts : List Text} (nonempty : parts ≠ []) :
    IsSpelledOut (Text.join "/" parts) ↔ ∀ part ∈ parts, IsSpelledOut part := by
  unfold IsSpelledOut
  rw [segments_join nonempty]
  constructor
  · exact fun all part member segment inPart =>
      all segment (List.mem_flatMap.mpr ⟨part, member, inPart⟩)
  · intro all segment member
    obtain ⟨part, inParts, inPart⟩ := List.mem_flatMap.mp member
    exact all part inParts segment inPart

/-- A name is spelled out if it is no dots. -/
theorem isSpelledOut_of_noSlash {name : Text} (noSlash : '/' ∉ name) {c : Char} (member : c ∈ name)
    (noDot : c ≠ '.') : IsSpelledOut name := by
  intro segment inName
  rw [segments, Text.pieces_of_notMem noSlash, List.mem_singleton] at inName
  subst inName
  refine ⟨List.ne_nil_of_mem member, ?_, ?_⟩ <;>
    · rintro rfl
      simp [noDot] at member

private theorem isSpelledOut_append_name {folder : Text} (spelled : IsSpelledOut folder) {name : Text}
    (noSlash : '/' ∉ name) {c : Char} (member : c ∈ name) (noDot : c ≠ '.') :
    IsSpelledOut (folder ++ '/' :: name) := by
  refine (isSpelledOut_append_name_iff noSlash).mpr
    ⟨spelled, isSpelledOut_of_noSlash noSlash member noDot name ?_⟩
  rw [segments, Text.pieces_of_notMem noSlash]
  exact List.mem_singleton.mpr rfl

end Path

/-- The folders and the package of the layout are written without empty parts and dots. -/
structure Layout.SpellsOut (layout : Layout) : Prop where
  mainJava : Path.IsSpelledOut layout.mainJava
  testJava : Path.IsSpelledOut layout.testJava
  mainResources : Path.IsSpelledOut layout.mainResources
  package : Path.IsSpelledOut layout.packagePath

namespace Layout.SpellsOut

variable {layout : Layout} (spells : layout.SpellsOut)

include spells

theorem inResources {parts : List Text} (spelled : ∀ part ∈ parts, Path.IsSpelledOut part) :
    Path.IsSpelledOut (layout.inResources parts) :=
  (Path.isSpelledOut_join_iff (by simp)).mpr
    (List.forall_mem_cons.mpr ⟨spells.mainResources, spelled⟩)

theorem inMain {parts : List Text} (spelled : ∀ part ∈ parts, Path.IsSpelledOut part) :
    Path.IsSpelledOut (layout.inMain parts) :=
  (Path.isSpelledOut_join_iff (by simp)).mpr (List.forall_mem_cons.mpr
    ⟨spells.mainJava, List.forall_mem_cons.mpr ⟨spells.package, spelled⟩⟩)

theorem inTests {parts : List Text} (spelled : ∀ part ∈ parts, Path.IsSpelledOut part) :
    Path.IsSpelledOut (layout.inTests parts) :=
  (Path.isSpelledOut_join_iff (by simp)).mpr (List.forall_mem_cons.mpr
    ⟨spells.testJava, List.forall_mem_cons.mpr ⟨spells.package, spelled⟩⟩)

theorem changelogFolder : Path.IsSpelledOut layout.changelogFolder :=
  spells.inResources (by decide)

omit spells in
/-- Folders and a source in them, whose name goes on after that of a class. -/
theorem isSpelledOut_of_mem {folders : List Text} {name suffix : Text}
    (spelled : ∀ part ∈ folders, Path.IsSpelledOut part) (noSlash : '/' ∉ name)
    (ends : '/' ∉ suffix ∧ 'a' ∈ suffix) :
    ∀ part ∈ folders ++ [name ++ suffix], Path.IsSpelledOut part := by
  refine List.forall_mem_append.mpr ⟨spelled, List.forall_mem_singleton.mpr ?_⟩
  exact Path.isSpelledOut_of_noSlash (by simp [noSlash, ends.1])
    (List.mem_append_right name ends.2) (by decide)

theorem sourceFile {entity : Entity} (noSlash : '/' ∉ entity.className)
    (kind : ReadOnly.SourceKind) : Path.IsSpelledOut (layout.sourceFile entity kind) := by
  cases kind with
  | entity =>
    exact spells.inMain (@isSpelledOut_of_mem ["domain"] _ ".java" (by decide) noSlash (by decide))
  | repository =>
    exact spells.inMain (@isSpelledOut_of_mem ["repository"] _ "Repository.java" (by decide) noSlash
      (by decide))
  | resource =>
    exact spells.inMain (@isSpelledOut_of_mem ["web", "rest"] _ "Resource.java" (by decide) noSlash
      (by decide))
  | service =>
    exact spells.inMain (@isSpelledOut_of_mem ["service"] _ "Service.java" (by decide) noSlash
      (by decide))
  | test =>
    exact spells.inTests (@isSpelledOut_of_mem ["web", "rest"] _ "ResourceIT.java" (by decide) noSlash
      (by decide))

/-- A source in a package below the one of the layout. -/
theorem inPackage {package name : Text}
    (parts : ∀ part ∈ Text.pieces '.' package, part ≠ [] ∧ '/' ∉ part) (noSlash : '/' ∉ name) :
    Path.IsSpelledOut (layout.inMain (Text.pieces '.' package ++ [name ++ ".java"])) := by
  refine spells.inMain (isSpelledOut_of_mem (fun part member => ?_) noSlash (by decide))
  obtain ⟨nonempty, noSlash⟩ := parts part member
  obtain ⟨c, inPart⟩ := List.exists_mem_of_ne_nil part nonempty
  refine Path.isSpelledOut_of_noSlash noSlash inPart ?_
  rintro rfl
  exact Text.notMem_of_mem_pieces member inPart

end Layout.SpellsOut

/-- The packages of the settings have no empty parts, and no slash is in them or in the suffixes. -/
structure MyBatis.Settings.SpellsOut (settings : MyBatis.Settings) : Prop where
  modelPackage : ∀ part ∈ Text.pieces '.' settings.modelPackage, part ≠ [] ∧ '/' ∉ part
  mapperPackage : ∀ part ∈ Text.pieces '.' settings.mapperPackage, part ≠ [] ∧ '/' ∉ part
  modelSuffix : '/' ∉ settings.modelSuffix
  mapperSuffix : '/' ∉ settings.mapperSuffix

namespace Run

variable {options : RunOptions} {entities : List Entity} {loaded : Option MyBatis.Settings}

private theorem Deletes.isSpelledOut (layout : options.layout.SpellsOut)
    (names : ∀ entity ∈ entities, '/' ∉ entity.className ∧ '/' ∉ entity.table) {file : Text}
    (deletes : Deletes options entities file) : Path.IsSpelledOut file := by
  cases deletes with
  | @changelog entity name member ofTable =>
    obtain ⟨stamp, rest, rfl, isStamp, letters⟩ := Changelog.exists_of_isTable ofTable
    have noSlash : '/' ∉ stamp ++ '_' :: 'a' :: rest := by
      intro slash
      rcases List.mem_append.mp slash with inStamp | behind
      · exact absurd (isStamp.digits _ inStamp) (by decide)
      · have inRest : '/' ∈ rest := by simpa using behind
        rcases letters _ inRest with inClass | other
        · exact (names entity member).1 inClass
        · exact absurd other (by decide)
    have cut : options.layout.changelogFolder ++ "/".toList ++ (stamp ++ '_' :: 'a' :: rest) =
        options.layout.changelogFolder ++ '/' :: (stamp ++ '_' :: 'a' :: rest) := by simp
    rw [cut]
    exact Path.isSpelledOut_append_name layout.changelogFolder noSlash (c := '_') (by simp) (by decide)
  | @sample entity member =>
    have noSlash : '/' ∉ entity.table ++ ".csv".toList := by
      simp [(names entity member).2]
    have cut : options.layout.fakeDataFolder ++ "/".toList ++ entity.table ++ ".csv".toList =
        options.layout.fakeDataFolder ++ '/' :: (entity.table ++ ".csv".toList) := by simp
    rw [cut]
    exact Path.isSpelledOut_append_name (layout.inResources (by decide)) noSlash (c := 'c') (by simp)
      (by decide)

/-- With a layout, names and settings that are spelled out, so are all paths that a run uses. -/
theorem Uses.isSpelledOut (layout : options.layout.SpellsOut)
    (names : ∀ entity ∈ entities, '/' ∉ entity.className ∧ '/' ∉ entity.table)
    (settings : ∀ settings, loaded = some settings → settings.SpellsOut) {file : Text}
    (uses : Uses options entities loaded file) : Path.IsSpelledOut file := by
  cases uses with
  | @source entity kind member => exact layout.sourceFile (names entity member).1 kind
  | master => exact layout.inResources (by decide)
  | application => exact layout.inResources (by decide)
  | generator => decide
  | listed isName =>
    exact (Path.isSpelledOut_append_name_iff isName.noSlash).mpr
      ⟨layout.changelogFolder, isName.nonempty, isName.notDot, isName.notDots⟩
  | @view entity name stamp member isStamped =>
    have noSlash := Changelog.notMem_of_stampOf? isStamped (names entity member).2 (by decide)
      (by decide) (by decide) (by decide)
    rcases Changelog.getLast?_of_stampOf? isStamped with letter | feed
    · exact Path.isSpelledOut_append_name layout.changelogFolder noSlash
        (List.mem_of_getLast? letter) (by decide)
    · exact Path.isSpelledOut_append_name layout.changelogFolder noSlash
        (List.mem_of_getLast? feed) (by decide)
  | removed deletes => exact deletes.isSpelledOut layout names
  | @model entity known member isLoaded =>
    have spells := settings known isLoaded
    refine layout.inPackage spells.modelPackage ?_
    simp [MyBatis.modelName, (names entity member).1, spells.modelSuffix]
  | @mapper entity known member isLoaded =>
    have spells := settings known isLoaded
    refine layout.inPackage spells.mapperPackage ?_
    simp [MyBatis.mapperName, (names entity member).1, spells.mapperSuffix]

/-- In a layout that is spelled out, with names and settings that are, no file is used under two
paths. -/
theorem tellsApart_uses {root : Path} (plain : Path.IsPlain root)
    (layout : options.layout.SpellsOut)
    (names : ∀ entity ∈ entities, '/' ∉ entity.className ∧ '/' ∉ entity.table)
    (settings : ∀ settings, loaded = some settings → settings.SpellsOut) :
    Path.TellsApart root (Uses options entities loaded) :=
  fun _ _ _ uses usesOther => Path.tellsApart_isSpelledOut plain
    (uses.isSpelledOut layout names settings) (usesOther.isSpelledOut layout names settings)

/-- The run with its project dry. -/
def dry (run : Run) : Run := run.withProject { run.project with dryRun := true }

/-- What a step gives, whatever run it leaves. -/
def outcome {α : Type} (step : RunM α) (run : Run) : Except Failure α :=
  match step run with
  | .ok value _ => .ok value
  | .error failure _ => .error failure

private theorem Frame.Mirrored.outcome_eq {frame : Frame} {α : Type} {step : RunM α} {beside real : Run}
    (mirrored : frame.Mirrored (step beside) (step real)) :
    outcome step beside = outcome step real ∧ (after step beside).project.disk = frame.disk := by
  unfold outcome after
  generalize step beside = ended, step real = endedReal at mirrored
  cases mirrored with
  | ok shadows => exact ⟨rfl, shadows.disk_eq⟩
  | error shadows => exact ⟨rfl, shadows.disk_eq⟩

/-- A project with the sources of two entities, the SQL of a view, and sample data of the first. -/
def sqlDisk : Disk where
  entries := [
    (["w".toList], .folder),
    (["w".toList, "q.sql".toList], .file (Utf8.encode "select 1".toList)),
    (["w".toList, "j".toList], .folder),
    (["w".toList, "j".toList, "p".toList], .folder),
    (["w".toList, "j".toList, "p".toList, "domain".toList], .folder),
    (["w".toList, "j".toList, "p".toList, "domain".toList, "V.java".toList],
      .file (Utf8.encode "import org.hibernate.annotations.Immutable;\n@Entity\n".toList)),
    (["w".toList, "j".toList, "p".toList, "domain".toList, "W.java".toList],
      .file (Utf8.encode "import org.hibernate.annotations.Immutable;\n@Entity\n".toList)),
    (["w".toList, "r".toList], .folder),
    (["w".toList, "r".toList, "config".toList], .folder),
    (["w".toList, "r".toList, "config".toList, "liquibase".toList], .folder),
    (["w".toList, "r".toList, "config".toList, "liquibase".toList, "fake-data".toList], .folder),
    (["w".toList, "r".toList, "config".toList, "liquibase".toList, "fake-data".toList,
      "v.csv".toList], .file (Utf8.encode "select 2".toList))]

/-- A real run in that project. -/
def sqlRun : Run where
  options :=
    { layout := { package := "p", mainJava := "j", testJava := "t", mainResources := "r" } }
  space := { project := { root := ["w"], disk := sqlDisk } }
  clock := .fixed ⟨2024, 5, 6, 7, 8, 9⟩

/-- A view whose SQL is in a file. -/
def sqlEntity (name table sqlFile : Text) : Entity where
  name := name
  className := name
  table := table
  annotations := [(.string "view", .bool true), (.string "sqlFile", .string sqlFile)]

def oneView : List Entity := [sqlEntity "V" "v" "q.sql"]

/-- The second view reads its SQL from the sample data of the first. -/
def twoViews : List Entity := oneView ++ [sqlEntity "W" "w" "r/config/liquibase/fake-data/v.csv"]

private theorem isPlain_sqlRoot : Path.IsPlain sqlRun.project.root := by
  intro name member
  obtain rfl := List.mem_singleton.mp member
  exact ⟨by decide, by decide, by decide, by decide, by decide⟩

private theorem project_isReal_sqlRun : sqlRun.project.IsReal :=
  ⟨rfl, rfl, Disk.isTree_of_entries (by decide +kernel)⟩

private theorem sqlDisk_noTemporary : sqlDisk.NoTemporary :=
  Disk.noTemporary_of_entries (by decide +kernel)

/-- An entity that wants MyBatis sources. -/
def modelEntity : Entity where
  name := "M"
  className := "M"
  table := "m"
  annotations := [(.string "mybatis", .bool true)]

/-- The project with half of a surrogate pair for the package of the models. -/
def tornDisk : Disk where
  entries := sqlDisk.entries ++ [
    (["w".toList, "r".toList, "config".toList, "application.yml".toList], .file []),
    (["w".toList, ".yo-rc.json".toList], .file (Utf8.encode
      ("\x7b\"generator-jhipster-view-blueprint\":\x7b\"mybatis\":\x7b\"modelPackage\":\"\\ud800\"" ++
        "\x7d\x7d\x7d").toList))]

end Run

end ReadOnlyViews
