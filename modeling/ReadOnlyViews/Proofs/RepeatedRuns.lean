import ReadOnlyViews.Proofs.Settling

/-!
Runs that are repeated.  However often entities are run over, a view gets one changelog and the
master one include line for it.  A view that has a changelog keeps it and gets no other; a view that has
none gets one as soon as a run reaches its changelog, and keeps it from then on.  What a run can not
do anything about is left out: a changelog that is no text, a calendar without a further second, and
a disk that refuses.
-/

namespace ReadOnlyViews

/-- A project as a new run finds it. -/
def Project.anew (root : Path) (disk : Disk) : Project := { root, disk }

/-- A file in the folder of changelogs has the name of a changelog of a view. -/
def Project.HasViewChangelog (project : Project) (layout : Layout) (view : Text) (name : Name) :
    Prop :=
  Changelog.stampOf? view name ≠ none ∧
    ∃ names, project.list layout.changelogFolder = .ok names ∧ name ∈ names

private theorem Project.isReal_anew {root : Path} {disk : Disk} (tree : disk.IsTree) :
    (Project.anew root disk).IsReal := ⟨rfl, rfl, tree⟩

namespace Run

variable {options : RunOptions} {entities : List Entity} {root folder master : Path} {disk : Disk}

/-! ### Where the changelogs of a project are -/

/-- The folder of changelogs lies beside the master. -/
theorem exists_site {layout : Layout} (plain : Path.IsPlain root)
    (isFolder : disk.node? root = some .folder)
    (placed : Path.place root layout.masterChangelog = .ok master)
    {content : Bytes} (found : disk.file? master = some content) :
    ∃ above, master = above ++ ["master.xml".toList] ∧
      Site layout root (above ++ ["changelog".toList]) master := by
  obtain ⟨base, -, based, read, within⟩ := Path.plainReading_of_place placed
  obtain rfl : root = base := Except.ok.inj ((Path.plainReading_text plain).symm.trans based)
  rw [masterChangelog_eq, Path.plainReading_append_name (by simp) (by decide)] at read
  cases front : Path.plainReading root (layout.mainResources ++ "/config/liquibase".toList) with
  | error failure =>
    rw [front] at read
    cases read
  | ok above =>
    obtain rfl : above ++ ["master.xml".toList] = master := by
      simpa only [front, Except.map, Except.ok.injEq] using read
    -- the root is a folder, so it is not the master itself
    have inside : root <+: above := by
      rcases List.prefix_concat_iff.mp within with whole | inside
      · rw [← whole, Disk.file?_eq_some_iff, isFolder] at found
        cases found
      · exact inside
    refine ⟨above, rfl, ?_, placed⟩
    have frontPlaced : Path.place root (layout.mainResources ++ "/config/liquibase".toList) =
        .ok above := by
      rw [Path.place, based]
      simp only [bind, Except.bind, front]
      rw [if_pos (List.isPrefixOf_iff_prefix.mpr inside)]
    rw [changelogFolder_eq]
    exact Path.place_append_name (by simp) (by decide) frontPlaced

/-- Beside a master the folder of changelogs can be listed. -/
theorem exists_list {layout : Layout} {project : Project} {above : Path} (ready : project.IsReal)
    (folderPlaced : Path.place project.root layout.changelogFolder =
      .ok (above ++ ["changelog".toList]))
    {content : Bytes}
    (found : project.disk.file? (above ++ ["master.xml".toList]) = some content) :
    ∃ names, project.list layout.changelogFolder = .ok names := by
  have present : project.disk.node? (above ++ ["master.xml".toList]) ≠ none := by
    rw [Disk.file?_eq_some_iff.mp found]
    simp
  have isFolder := (ready.tree.inFolder above _ present).1
  have reaches : project.disk.Reaches (above ++ ["changelog".toList]) :=
    Disk.reaches_append_singleton.mpr
      ⟨ready.tree.reaches (by simp [isFolder]), isFolder, by decide⟩
  obtain ⟨answer, known⟩ := Disk.exists_leadsTo ready.tree (Path.isPlain_of_place folderPlaced)
    reaches (· == .folder)
  exact ⟨_, Project.list_eq ready.tree folderPlaced known⟩

private theorem hasViewChangelog_iff {layout : Layout} {above : Path} (tree : disk.IsTree)
    (folderPlaced : Path.place root layout.changelogFolder = .ok (above ++ ["changelog".toList]))
    {content : Bytes} (found : disk.file? (above ++ ["master.xml".toList]) = some content)
    {view : Text} {name : Name} :
    (Project.anew root disk).HasViewChangelog layout view name ↔
      Holds disk (above ++ ["changelog".toList]) view name := by
  have ready := @Project.isReal_anew root disk tree
  obtain ⟨names, listed⟩ := exists_list ready folderPlaced found
  have shown : name ∈ names ↔
      ∃ content, disk.file? (above ++ ["changelog".toList] ++ [name]) = some content := by
    rw [Project.mem_list_iff ready folderPlaced listed, and_iff_left]
    · rfl
    · exact List.not_mem_nil
  refine and_congr_right fun _ => ⟨?_, fun present => ⟨names, listed, shown.mpr present⟩⟩
  rintro ⟨others, again, member⟩
  obtain rfl : names = others := Except.ok.inj (listed.symm.trans again)
  exact shown.mp member

/-! ### A turn that comes to its changelog -/

/-- The turn of an entity comes to the changelog of its view: the turns before it are over, and its
sources are prepared. -/
def ReachesChangelog (entities : List Entity) (start : Run) (entity : Entity) (reached : Run) :
    Prop :=
  start.options.withLiquibase = true ∧ entity.isView = true ∧
    ∃ front back turn, selected start.options entities = front ++ entity :: back ∧
      front.forM takeTurn (start.recording fun _ => {}) = .ok () turn ∧
      prepareView entity (turn.recording fun report =>
        { report with entities := report.entities ++ [entity.name] }) = .ok true reached

/-- The rest of a view's turn behind its changelog: its table definitions are removed. -/
theorem steps_behind_changelog {run reached : Run} {entity : Entity} (told : reached.options = options)
    (member : entity ∈ entities) (liquibase : options.withLiquibase = true)
    (prepared : prepareView entity run = .ok true reached) :
    Steps (scopeOf options entities) (after (writeViewChangelog entity) reached)
      (after (runView entity) run) := by
  unfold runView
  rw [after_bind_of_ok prepared]
  show Steps _ _ (after (if reached.options.withLiquibase = true then
    (writeViewChangelog entity >>= fun _ =>
      if reached.options.withCleanup = true then removeTableDefinitions entity else pure ())
    else _) reached)
  rw [told, if_pos liquibase]
  refine steps_after_bind fun _ later wrote => ?_
  have toLater : Steps (scopeOf options entities) reached later :=
    steps_to_of_ok wrote (steps_writeViewChangelog told member)
  exact steps_cleanup (toLater.options_eq.trans told) member

/-- The end of a view's turn: a failure of the view is reported. -/
theorem steps_behind_view {turn : Run} {entity : Entity} (isView : entity.isView = true) :
    Steps scope (after (runView entity) (turn.recording fun report =>
      { report with entities := report.entities ++ [entity.name] })) (after (takeTurn entity) turn) := by
  unfold takeTurn
  show Steps _ _ (after (if entity.isView = true then guarded entity (runView entity) else _) _)
  rw [if_pos isView]
  exact steps_after_tryCatch fun failure later _ => steps_blameOnce rfl rfl

/-- The steps of a run before and behind a changelog that it comes to. -/
theorem ReachesChangelog.steps {start reached : Run} {entity : Entity}
    (reaches : ReachesChangelog entities start entity reached) :
    Steps (scopeOf start.options entities) (start.recording fun _ => {}) reached ∧
      ∃ last, Steps (scopeOf start.options entities) (after (writeViewChangelog entity) reached)
          last ∧
        (after (batch entities) start).project = last.project ∧
        (after (batch entities) start).reporter = last.reporter := by
  obtain ⟨liquibase, isView, front, back, turn, chosen, turned, prepared⟩ := reaches
  have members : ∀ other ∈ front ++ entity :: back, other ∈ entities := by
    intro other member
    rw [← chosen] at member
    exact mem_of_mem_selected member
  have member := members entity (by simp)
  have toTurn : Steps (scopeOf start.options entities) (start.recording fun _ => {}) turn :=
    steps_to_of_ok turned (steps_forM (fun other inFront _ told =>
      steps_takeTurn told (members other (by simp [inFront]))) rfl)
  have toNamed : Steps (scopeOf start.options entities) (start.recording fun _ => {})
      (turn.recording fun report => { report with entities := report.entities ++ [entity.name] }) :=
    toTurn.tail (.named trivial)
  have toReached : Steps (scopeOf start.options entities) (start.recording fun _ => {}) reached :=
    toNamed.trans (steps_to_of_ok prepared (steps_prepareView toNamed.options_eq member))
  refine ⟨toReached, ?_⟩
  obtain ⟨last, ending, sameProject, sameReporter⟩ := exists_steps_after_batch entities start
  refine ⟨last, ?_, sameProject, sameReporter⟩
  refine Relation.ReflTransGen.trans ?_ ending
  have turnOver : Steps (scopeOf start.options entities)
      (after (writeViewChangelog entity) reached) (after (takeTurn entity) turn) :=
    (steps_behind_changelog toReached.options_eq member liquibase prepared).trans
      (steps_behind_view isView)
  rw [afterTurns, chosen, after_forM_append turned]
  refine turnOver.trans (steps_after_bind fun _ later took => ?_)
  have toldTurn : turn.options = start.options := toTurn.options_eq
  have toldLater := (steps_to_of_ok took (steps_takeTurn toldTurn member)).options_eq
  exact steps_forM (fun other inBack _ told => steps_takeTurn told (members other (by simp [inBack])))
    (toldLater.trans toldTurn)

/-! ### What an edit and a registration leave -/

/-- An edit leaves the project that it made, and tells of a fault of the disk. -/
theorem after_editFile {run : Run} {entity : Option Text} {file : Text} {conversion : Conversion}
    {required : Bool} (present : run.project.has file = .ok true) {result : Except Failure FileEdit}
    {space : Workspace} (edited : run.space.edit run.parses file conversion = (result, space)) :
    (after (editFile entity file conversion required) run).project = space.project ∧
      ∀ fault path onto, result = .error (.disk fault path onto) →
        ∃ d ∈ (after (editFile entity file conversion required) run).reporter.items,
          d.TellsFault := by
  have asked : ask (·.has file) run = .ok true run := by simp only [ask, present]
  unfold editFile
  rw [after_bind_of_ok asked]
  rw [Bool.not_true, if_neg Bool.false_ne_true, after_get_bind]
  dsimp only
  rw [edited]
  dsimp only
  rw [after_set_bind]
  cases result with
  | error failure =>
    dsimp only
    cases reported : isReported failure with
    | true =>
      refine ⟨rfl, ?_⟩
      rintro fault path onto ⟨⟩
      refine ⟨_, List.mem_append_right _ (List.mem_singleton.mpr rfl), fault, path, onto, ?_⟩
      exact List.mem_cons_self
    | false =>
      refine ⟨rfl, ?_⟩
      rintro fault path onto ⟨⟩
      cases reported
  | ok edit =>
    refine ⟨?_, by rintro fault path onto ⟨⟩⟩
    dsimp only
    rw [after_bind_of_ok (forM_say _ _)]
    cases edit.changed <;> rfl

/-- A registration leaves a master with the changelog registered, unless the disk refuses. -/
theorem reads_registerChangelog {run : Run} (ready : run.project.IsReal)
    (kept : run.options.layout.masterChangelog ∉ run.project.deleted)
    (placed : Path.place run.project.root run.options.layout.masterChangelog = .ok master)
    {text : Text} (reads : Reads run.project.disk master text) (entity : Entity) (name : Text) :
    (∃ d ∈ (after (registerChangelog entity name) run).reporter.items, d.TellsFault) ∨
      Reads (after (registerChangelog entity name) run).project.disk master
        (Changelog.register name text).text := by
  obtain ⟨content, found, decoded⟩ := reads
  have present : run.project.has run.options.layout.masterChangelog = .ok true :=
    (Project.has_eq_true_iff ready).mpr ⟨kept, master, content, placed, found⟩
  have known : run.project.read run.options.layout.masterChangelog = .ok text :=
    (Project.read_eq_ok_iff ready).mpr ⟨kept, master, content, placed, found, decoded⟩
  have asked : ask (·.has run.options.layout.masterChangelog) run = .ok true run := by
    simp only [ask, present]
  unfold registerChangelog
  rw [after_get_bind, after_bind_of_ok asked, if_pos rfl, after_bind_pure]
  have outcome := Workspace.edited_edit run.parses run.space run.options.layout.masterChangelog
    (.single "master include" (Changelog.register name))
  cases edited : run.space.edit run.parses run.options.layout.masterChangelog
      (.single "master include" (Changelog.register name)) with
  | mk result space =>
    obtain ⟨left, tells⟩ := @after_editFile run (some entity.name) _ _ false present result space edited
    rw [left]
    rw [edited] at outcome
    cases outcome with
    | unread read => cases known.symm.trans read
    | failed read made => cases made
    | @kept converted read made =>
      right
      obtain rfl := Except.ok.inj (known.symm.trans read)
      have same : (Changelog.register name converted.text).text = converted.text :=
        congrArg ReadOnly.Converted.text (Except.ok.inj made)
      rw [same]
      exact ⟨content, found, decoded⟩
    | reverted read made changes breaks =>
      rw [Bool.and_eq_true, Bool.and_eq_true] at breaks
      obtain ⟨front, java⟩ := List.isSuffixOf_iff_suffix.mp breaks.1.1
      have ends := congrArg List.getLast? java
      rw [getLast?_masterChangelog, List.getLast?_append_of_ne_nil _ (by decide)] at ends
      cases ends
    | @refused before converted failure project read made refused =>
      left
      have written := Project.written_write ready run.options.layout.masterChangelog converted.text
      rw [show run.project.write _ _ = _ from refused] at written
      cases written with
      | refused => exact tells _ _ _ rfl
      | nowhere missing => cases placed.symm.trans missing
    | @changed before converted project read made changes wrote =>
      right
      obtain rfl := Except.ok.inj (known.symm.trans read)
      obtain rfl := Except.ok.inj made
      have written := Project.written_write ready run.options.layout.masterChangelog
        (Changelog.register name text).text
      rw [show run.project.write _ _ = _ from wrote] at written
      obtain ⟨target, again, holds, -⟩ := written.files_of_done
      obtain rfl : master = target := Except.ok.inj (placed.symm.trans again)
      exact reads_encode holds

/-! ### What the changelog step leaves -/

/-- The entity gives the SQL of its view in place. -/
def HasInlineSql (entity : Entity) : Prop :=
  ∃ sql, (entity.viewSql?.map Text.trim).filter (!·.isEmpty) = some sql

private theorem viewSql_of_hasInlineSql {entity : Entity} (inline : HasInlineSql entity) (run : Run) :
    ∃ sql, viewSql entity run = .ok (some sql) run := by
  obtain ⟨sql, given⟩ := inline
  have known (disk : Disk) (root : Path) (read : Path → Except Failure Text) :
      (viewSource entity).text disk root read = .ok sql := by
    simp only [Sql.ViewSource.text, viewSource, given]
  refine ⟨sql, ?_⟩
  simp only [viewSql, known]
  rfl

private theorem exists_drawChangelog {run : Run} {stamp : Text} {ticked : Clock}
    (stamped : run.clock.next = (.ok stamp, ticked)) (existing : List Name) (view : Text) :
    ∃ name stamp clock, Changelog.nextView existing view run.clock = (.ok (name, stamp), clock) ∧
      drawChangelog existing view run = .ok (name, stamp) { run with clock } := by
  have drawn {name stamp : Text} {clock : Clock}
      (next : Changelog.nextView existing view run.clock = (.ok (name, stamp), clock)) :
      drawChangelog existing view run = .ok (name, stamp) { run with clock } := by
    have got : (get : RunM Run) run = .ok run run := rfl
    unfold drawChangelog
    rw [bind_of_ok got, next]
    rfl
  cases found : Changelog.findView? existing view with
  | some pair =>
    have next : Changelog.nextView existing view run.clock = (.ok pair, run.clock) := by
      simp only [Changelog.nextView, found]
    exact ⟨pair.1, pair.2, run.clock, next, drawn next⟩
  | none =>
    have next : Changelog.nextView existing view run.clock =
        (.ok (Changelog.viewFileName stamp view, stamp), ticked) := by
      simp only [Changelog.nextView, found, stamped, Except.map]
    exact ⟨_, stamp, ticked, next, drawn next⟩

/-- A changelog that the disk refuses is not stored, and it is said so. -/
theorem storeChangelog_of_fault {run middle : Run} {file content : Text} {fault : DiskFault}
    {path : Path} {onto : Option Path}
    (failed : writeIfChanged file content run = .error (.disk fault path onto) middle)
    (entity : Entity) :
    ∃ later, storeChangelog entity file content run = .ok false later ∧
      ∃ d ∈ later.reporter.items, d.TellsFault := by
  have ran : storeChangelog entity file content run = .ok false (middle.saying
      { level := .error,
        message := "failed to write changelog: " ++ (Failure.disk fault path onto).message,
        entity := some entity.name, path := some file }) := by
    simp only [storeChangelog, tryCatch_eq, bind, EStateM.bind, failed]
    rfl
  refine ⟨_, ran, _, List.mem_append_right _ (List.mem_singleton.mpr rfl), fault, path, onto, ?_⟩
  exact List.mem_cons_of_mem _ List.mem_cons_self

/-- A stored changelog is there, unless the disk refuses and it is said so. -/
theorem storeChangelog_cases {run : Run} (ready : run.project.IsReal) {file : Text}
    (kept : file ∉ run.project.deleted) {target : Path}
    (placed : Path.place run.project.root file = .ok target)
    (isText : IsText run.project.disk target) (entity : Entity) (content : Text) :
    (∃ later, storeChangelog entity file content run = .ok false later ∧
        ∃ d ∈ later.reporter.items, d.TellsFault) ∨
      ∃ later, storeChangelog entity file content run = .ok true later ∧
        ∃ bytes, later.project.disk.file? target = some bytes := by
  have outcome := wroteIfChanged run file content
  cases wrote : writeIfChanged file content run with
  | error failure middle =>
    left
    rw [wrote] at outcome
    cases outcome with
    | unknown asked =>
      rcases asked with has | read
      · obtain ⟨fault, rfl⟩ := Project.exists_of_has_eq_error ready placed has
        exact storeChangelog_of_fault wrote entity
      · rcases Project.exists_of_read_eq_error ready kept placed read with
          ⟨fault, rfl⟩ | ⟨bytes, found, noText⟩
        · exact storeChangelog_of_fault wrote entity
        · obtain ⟨text, decoded⟩ := isText bytes found
          exact absurd decoded (noText text)
    | @refused _ project refused =>
      have written := Project.written_write ready file content
      rw [refused] at written
      cases written with
      | refused => exact storeChangelog_of_fault wrote entity
      | nowhere missing => cases placed.symm.trans missing
  | ok written middle =>
    right
    rw [wrote] at outcome
    cases outcome with
    | same present read =>
      obtain ⟨-, there, bytes, again, found⟩ := (Project.has_eq_true_iff ready).mp present
      obtain rfl : target = there := Except.ok.inj (placed.symm.trans again)
      refine ⟨run, ?_, bytes, found⟩
      simp only [storeChangelog, tryCatch_eq, bind, EStateM.bind, wrote]
      rfl
    | @written project done =>
      have outcome := Project.written_write ready file content
      rw [done] at outcome
      obtain ⟨there, again, found, -⟩ := outcome.files_of_done
      obtain rfl : target = there := Except.ok.inj (placed.symm.trans again)
      have ran : storeChangelog entity file content run =
          .ok true (((run.withProject project).recording fun report =>
            { report with generated := report.generated ++ [file] }).saying
              { level := .info, message := "wrote view changelog", entity := some entity.name,
                path := some file }) := by
        simp only [storeChangelog, tryCatch_eq, bind, EStateM.bind, wrote]
        rfl
      exact ⟨_, ran, _, found⟩

/-- The folder holds a last changelog of a view, and a line of the master spells its path. -/
def Complete (folder master : Path) (view : Text) (disk : Disk) : Prop :=
  ∃ name, Holds disk folder view name ∧
    (∀ other, Holds disk folder view other → Text.before other name = true) ∧
    ∃ text, Reads disk master text ∧ ('\n' ∉ name → Changelog.pathLines name text ≠ [])

/-- The changelog that is drawn for a view is the last one that the view then has. -/
theorem before_of_nextView {run : Run} {view : Text} (spelled : Spelled view)
    (sound : Sound options entities root run.project)
    (folderPlaced : Path.place root options.layout.changelogFolder = .ok folder)
    {existing : List Name} (listed : run.project.list options.layout.changelogFolder = .ok existing)
    {clock ticked : Clock} {name stamp : Text}
    (next : Changelog.nextView existing view clock = (.ok (name, stamp), ticked))
    {later : Disk} (settles : Settles folder view run.project.disk later)
    (holds : Holds later folder view name) {other : Name} (otherHolds : Holds later folder view other) :
    Text.before other name = true := by
  have shown {other : Name} (mine : Changelog.stampOf? view other ≠ none) :
      other ∈ existing ↔ Holds run.project.disk folder view other := by
    rw [sound.mem_list_iff folderPlaced listed (spelled.isViewChangelog mine)]
    exact (and_iff_right mine).symm
  rcases (Changelog.nextView_cases next).2 with ⟨old, greatest⟩ | none
  · have before := (settles.holds_iff ((shown holds.1).mp old) other).mp otherHolds
    exact greatest other ((shown otherHolds.1).mpr before) otherHolds.1
  · have without : ∀ name, ¬ Holds run.project.disk folder view name := by
      intro other before
      exact before.1 (none other ((shown before.1).mpr before))
    rw [settles.unique without otherHolds holds]
    exact Text.before_refl name

/-- What a view's changelog comes to once its SQL is known and its name is drawn: it is stored, and
if it is there, registered. -/
theorem after_writeViewChangelog {reached drawn later : Run} {entity : Entity} {sql name stamp : Text}
    {existing : List Name} {stored : Bool} (told : reached.options = options)
    (known : viewSql entity reached = .ok (some sql) reached)
    (listed : reached.project.list options.layout.changelogFolder = .ok existing)
    (drew : drawChangelog existing entity.table reached = .ok (name, stamp) drawn)
    (wrote : storeChangelog entity (options.layout.changelogFolder ++ "/" ++ name)
      (Changelog.renderView entity.className entity.table (Sql.selectStatement sql) stamp) drawn =
        .ok stored later) :
    after (writeViewChangelog entity) reached =
      if stored then after (registerChangelog entity name) later else later := by
  have asked : ask (·.list options.layout.changelogFolder) reached = .ok existing reached := by
    simp only [ask, listed]
  unfold writeViewChangelog
  rw [after_bind_of_ok known]
  dsimp only
  rw [after_get_bind, told, after_bind_of_ok asked, after_bind_of_ok drew, after_bind_of_ok wrote]
  cases stored with
  | false => rfl
  | true => rw [if_pos rfl, after_bind_pure, if_pos rfl]

/-- A run that comes to a view's changelog completes it, unless the disk refuses. -/
theorem complete_writeViewChangelog {reached : Run} {above : Path} {entity : Entity}
    (site : Site options.layout root (above ++ ["changelog".toList]) (above ++ ["master.xml".toList]))
    (names : ∀ entity ∈ entities, Spelled entity.className ∧ Spelled entity.table)
    (member : entity ∈ entities) (told : reached.options = options)
    (sound : Sound options entities root reached.project) {text : Text}
    (reads : Reads reached.project.disk (above ++ ["master.xml".toList]) text)
    (inline : HasInlineSql entity)
    (texts : ∀ name, Changelog.stampOf? entity.table name ≠ none →
      IsText reached.project.disk (above ++ ["changelog".toList] ++ [name]))
    {fresh : Text} {ticked : Clock} (stamps : reached.clock.next = (.ok fresh, ticked)) :
    (∃ d ∈ (after (writeViewChangelog entity) reached).reporter.items, d.TellsFault) ∨
      Complete (above ++ ["changelog".toList]) (above ++ ["master.xml".toList]) entity.table
        (after (writeViewChangelog entity) reached).project.disk := by
  obtain ⟨sql, known⟩ := viewSql_of_hasInlineSql inline reached
  obtain ⟨content, found, decoded⟩ := reads
  obtain ⟨existing, listed⟩ := exists_list sound.ready (sound.sameRoot ▸ site.folderPlaced) found
  obtain ⟨name, stamp, clock, next, drew⟩ := exists_drawChangelog stamps existing entity.table
  have stamped := (Changelog.nextView_cases next).1
  have spelled := (names entity member).2
  have named : Changelog.stampOf? entity.table name ≠ none := by simp [stamped]
  have ofView : IsViewChangelog name := ⟨entity.table, stamp, spelled, stamped⟩
  have kept : options.layout.changelogFolder ++ "/".toList ++ name ∉ reached.project.deleted := by
    intro gone
    exact (sound.gone _ gone).ne_changelog ofView (by simp)
  have placed : Path.place reached.project.root
      (options.layout.changelogFolder ++ "/".toList ++ name) =
      .ok (above ++ ["changelog".toList] ++ [name]) := by
    rw [sound.sameRoot, List.append_assoc]
    exact Path.place_append_name (changelogFolder_ne_nil _) ofView.isName site.folderPlaced
  rcases @storeChangelog_cases { reached with clock } sound.ready _ kept _ placed (texts name named)
    entity (Changelog.renderView entity.className entity.table (Sql.selectStatement sql) stamp) with
    ⟨later, stored, fault⟩ | ⟨later, stored, bytes, present⟩
  · left
    rw [after_writeViewChangelog told known listed drew stored]
    exact fault
  rw [after_writeViewChangelog told known listed drew stored]
  have toLater : Steps (scopeOf options entities) reached later :=
    .trans (.single (.drew clock)) (steps_to_of_ok stored
      (steps_storeChangelog (Generates.changelog member listed next sql) entity))
  have toldLater : later.options = options := toLater.options_eq.trans told
  have soundLater := sound.steps toLater
  have went := toLater.proceeds site names sound
  obtain ⟨newer, readsLater, -⟩ := went.enters text ⟨content, found, decoded⟩
  have registering : Steps (scopeOf options entities) later
      (after (registerChangelog entity name) later) := steps_registerChangelog toldLater member next
  have masterKept : later.options.layout.masterChangelog ∉ later.project.deleted := by
    intro gone
    exact (soundLater.gone _ gone).ne_master (by rw [toldLater])
  rcases reads_registerChangelog soundLater.ready masterKept
    (by rw [toldLater, soundLater.sameRoot]; exact site.masterPlaced) readsLater entity name with
    fault | registered
  · exact .inl fault
  right
  have holds : Holds later.project.disk (above ++ ["changelog".toList]) entity.table name :=
    ⟨named, bytes, present⟩
  have same := ((registering.proceeds site names soundLater).settles _ spelled).holds_iff holds
  refine ⟨name, (same name).mpr holds, fun other otherHolds => ?_, _, registered, fun noLineFeed => ?_⟩
  · exact before_of_nextView spelled sound site.folderPlaced listed next (went.settles _ spelled) holds
      ((same other).mp otherHolds)
  · cases present : Text.includes (Changelog.quotedPath name) newer with
    | true => simp [Changelog.register_of_included present, Changelog.pathLines_eq_nil_iff noLineFeed, present]
    | false => simp [Changelog.pathLines_register_self ofView.noQuote noLineFeed present]

theorem Complete.proceeds {view : Text} {disk later : Disk} (spelled : Spelled view)
    (complete : Complete folder master view disk) (proceeds : Proceeds folder master disk later) :
    Complete folder master view later := by
  obtain ⟨name, holds, greatest, text, reads, included⟩ := complete
  have same := (proceeds.settles view spelled).holds_iff holds
  obtain ⟨newer, readsNewer, enters⟩ := proceeds.enters text reads
  refine ⟨name, (same name).mpr holds, fun other otherHolds => ?_, newer, readsNewer, ?_⟩
  · exact greatest other ((same other).mp otherHolds)
  · intro noLineFeed none
    rcases enters name (spelled.isViewChangelog holds.1) noLineFeed with carries | ⟨before, -⟩
    · have length_eq := carries.length_eq
      rw [none, List.length_nil] at length_eq
      exact included noLineFeed (List.eq_nil_of_length_eq_zero length_eq.symm)
    · exact included noLineFeed before

/-! ### Runs one after the other -/

/-- Runs over the same entities, one after the other.  Each goes on with the project as the run
before left it, or comes to it anew. -/
inductive Rounds (options : RunOptions) (entities : List Entity) (root : Path) :
    Project → List Run → Project → Prop where
  | done {project : Project} : Rounds options entities root project [] project
  | next {project last : Project} {start : Run} {starts : List Run} (told : start.options = options)
      (found : start.project = project ∨ start.project = .anew root project.disk)
      (rest : Rounds options entities root (after (batch entities) start).project starts last) :
      Rounds options entities root project (start :: starts) last

private theorem sound_anew (tree : disk.IsTree) : Sound options entities root (.anew root disk) where
  ready := Project.isReal_anew tree
  sameRoot := rfl
  gone _ member := absurd member List.not_mem_nil

private theorem proceeds_batch (site : Site options.layout root folder master)
    (names : ∀ entity ∈ entities, Spelled entity.className ∧ Spelled entity.table) {start : Run}
    (told : start.options = options) (sound : Sound options entities root start.project) :
    Sound options entities root (after (batch entities) start).project ∧
      Proceeds folder master start.project.disk (after (batch entities) start).project.disk := by
  subst told
  obtain ⟨last, ending, sameProject, -⟩ := exists_steps_after_batch entities start
  have steps : Steps (scopeOf start.options entities) (start.recording fun _ => {}) last :=
    (steps_takeTurns entities).trans ending
  rw [sameProject]
  have started : Sound start.options entities root (start.recording fun _ => {}).project := sound
  have through := steps.proceeds site names started
  exact ⟨started.steps steps, through⟩

theorem Rounds.proceeds (site : Site options.layout root folder master)
    (names : ∀ entity ∈ entities, Spelled entity.className ∧ Spelled entity.table)
    {project last : Project} {starts : List Run}
    (rounds : Rounds options entities root project starts last)
    (sound : Sound options entities root project) :
    Sound options entities root last ∧ Proceeds folder master project.disk last.disk ∧
      ∀ start ∈ starts, start.options = options ∧ Sound options entities root start.project ∧
        Proceeds folder master project.disk start.project.disk ∧
        Proceeds folder master (after (batch entities) start).project.disk last.disk := by
  induction rounds with
  | done => exact ⟨sound, .refl folder master _, by simp⟩
  | @next project last start starts told found rest ih =>
    have begins : start.project.disk = project.disk := by
      rcases found with same | anew
      · rw [same]
      · rw [anew]
        rfl
    have started : Sound options entities root start.project := by
      rcases found with same | anew
      · exact same ▸ sound
      · exact anew ▸ sound_anew sound.ready.tree
    obtain ⟨soundBehind, through⟩ := proceeds_batch site names told started
    obtain ⟨soundLast, behind, others⟩ := ih soundBehind
    rw [begins] at through
    refine ⟨soundLast, through.trans behind, fun other member => ?_⟩
    rcases List.mem_cons.mp member with rfl | later
    · exact ⟨told, started, begins ▸ .refl folder master _, behind⟩
    · obtain ⟨toldOther, soundOther, front, back⟩ := others other later
      exact ⟨toldOther, soundOther, through.trans front, back⟩

/-- A run comes to a view's changelog, and nothing is in its way there: the clock has a stamp to
give, and nothing that the run says tells of a fault of the disk. -/
def ComesThrough (entities : List Entity) (start : Run) (entity : Entity) : Prop :=
  ∃ reached, ReachesChangelog entities start entity reached ∧
    (∃ stamp ticked, reached.clock.next = (.ok stamp, ticked)) ∧
    ∀ d ∈ (after (batch entities) start).reporter.items, ¬ d.TellsFault

/-- A run that comes through leaves the view's changelog complete. -/
theorem complete_of_comesThrough {above : Path} {entity : Entity}
    (site : Site options.layout root (above ++ ["changelog".toList]) (above ++ ["master.xml".toList]))
    (names : ∀ entity ∈ entities, Spelled entity.className ∧ Spelled entity.table)
    (member : entity ∈ entities) {start : Run} (told : start.options = options)
    (sound : Sound options entities root start.project) {text : Text}
    (reads : Reads start.project.disk (above ++ ["master.xml".toList]) text)
    (inline : HasInlineSql entity)
    (texts : ∀ name, Changelog.stampOf? entity.table name ≠ none →
      IsText start.project.disk (above ++ ["changelog".toList] ++ [name]))
    (comes : ComesThrough entities start entity) :
    Complete (above ++ ["changelog".toList]) (above ++ ["master.xml".toList]) entity.table
      (after (batch entities) start).project.disk := by
  obtain ⟨reached, reaches, ⟨stamp, ticked, stamps⟩, silent⟩ := comes
  subst told
  obtain ⟨toReached, last, ending, sameProject, sameReporter⟩ := reaches.steps
  have started : Sound start.options entities root (start.recording fun _ => {}).project := sound
  have soundReached := started.steps toReached
  have went := toReached.proceeds site names started
  obtain ⟨newer, readsReached, -⟩ := went.enters text reads
  have toldReached : reached.options = start.options := toReached.options_eq
  have spelled := (names entity member).2
  have textsReached : ∀ name, Changelog.stampOf? entity.table name ≠ none →
      IsText reached.project.disk (above ++ ["changelog".toList] ++ [name]) := by
    intro name mine
    exact went.texts _ ((spelled.isViewChangelog mine).notTemporary _) (texts name mine)
  have written : Steps (scopeOf start.options entities) reached
      (after (writeViewChangelog entity) reached) := steps_writeViewChangelog toldReached member
  rcases complete_writeViewChangelog site names member toldReached soundReached readsReached inline
    textsReached stamps with ⟨d, said, fault⟩ | complete
  · rw [sameReporter] at silent
    exact absurd fault (silent d (ending.items_subset said))
  · rw [sameProject]
    exact complete.proceeds spelled (ending.proceeds site names (soundReached.steps written))

/-! ### The changelogs that runs leave -/

/-- A view that has changelogs keeps them and gets no other; a view that has none gets one at
most. -/
structure Settled (layout : Layout) (view : Text) (first last : Project) : Prop where
  kept : (∃ name, first.HasViewChangelog layout view name) →
    ∀ name, last.HasViewChangelog layout view name ↔ first.HasViewChangelog layout view name
  single : (∀ name, ¬ first.HasViewChangelog layout view name) →
    ∀ name other, last.HasViewChangelog layout view name →
      last.HasViewChangelog layout view other → name = other

/-- A view has a last changelog.  If its path was not spelled in the master before, its include line
is a line of the master, once, and no other line spells the path.  Otherwise as many lines spell it as
before, and none of its include lines is lost. -/
def Registered (layout : Layout) (view before : Text) (last : Project) : Prop :=
  ∃ name text, last.HasViewChangelog layout view name ∧
    (∀ other, last.HasViewChangelog layout view other → Text.before other name = true) ∧
    last.read layout.masterChangelog = .ok text ∧
    ('\n' ∉ name → if Text.includes (Changelog.quotedPath name) before then
        Changelog.Carries name before text
      else Changelog.pathLines name text = [Changelog.includeLine name])

private theorem settled_of_settles {layout : Layout} {view : Text} {first last : Disk}
    (settles : Settles folder view first last)
    (hasFirst : ∀ name, (Project.anew root first).HasViewChangelog layout view name ↔
      Holds first folder view name)
    (hasLast : ∀ name, (Project.anew root last).HasViewChangelog layout view name ↔
      Holds last folder view name) :
    Settled layout view (.anew root first) (.anew root last) := by
  constructor
  · rintro ⟨some, has⟩ name
    rw [hasLast, hasFirst]
    exact settles.holds_iff ((hasFirst some).mp has) name
  · intro none name other has again
    refine settles.unique (fun name holds => none name ((hasFirst name).mpr holds)) ?_ ?_
    · exact (hasLast name).mp has
    · exact (hasLast other).mp again

/-- A changelog that a fresh project reads is a text. -/
private theorem isText_of_read {layout : Layout} {name : Name} {text : Text} (tree : disk.IsTree)
    (folderPlaced : Path.place root layout.changelogFolder = .ok folder) (ofView : IsViewChangelog name)
    (read : (Project.anew root disk).read (layout.changelogFolder ++ "/".toList ++ name) = .ok text) :
    IsText disk (folder ++ [name]) := by
  intro bytes present
  obtain ⟨-, there, again, placed, found, decoded⟩ :=
    (Project.read_eq_ok_iff (Project.isReal_anew tree)).mp read
  rw [List.append_assoc] at placed
  obtain rfl := Except.ok.inj ((Path.place_append_name (changelogFolder_ne_nil _) ofView.isName
    folderPlaced).symm.trans placed)
  obtain rfl := Option.some.inj (present.symm.trans found)
  exact ⟨text, decoded⟩

/-- A view whose last changelog is in the folder and in the master is registered, whatever lines spelled
its path before. -/
private theorem registered_of_complete {layout : Layout} {view before text : Text} {last : Disk}
    (tree : last.IsTree) (masterPlaced : Path.place root layout.masterChangelog = .ok master)
    (spelled : Spelled view)
    (hasLast : ∀ name, (Project.anew root last).HasViewChangelog layout view name ↔
      Holds last folder view name)
    (complete : Complete folder master view last) (readsLast : Reads last master text)
    (enters : ∀ name, IsViewChangelog name → '\n' ∉ name →
      Changelog.Carries name before text ∨ Changelog.pathLines name before = [] ∧
        Changelog.pathLines name text = [Changelog.includeLine name]) :
    Registered layout view before (.anew root last) := by
  obtain ⟨name, holds, greatest, newer, readsNewer, included⟩ := complete
  obtain rfl := readsLast.unique readsNewer
  obtain ⟨bytes, present, decoded⟩ := readsLast
  refine ⟨name, text, (hasLast name).mpr holds, fun other otherHas => ?_, ?_, fun noLineFeed => ?_⟩
  · exact greatest other ((hasLast other).mp otherHas)
  · exact (Project.read_eq_ok_iff (Project.isReal_anew tree)).mpr
      ⟨List.not_mem_nil, _, bytes, masterPlaced, present, decoded⟩
  · have none : Changelog.pathLines name before = [] ↔
        Text.includes (Changelog.quotedPath name) before = false :=
      Changelog.pathLines_eq_nil_iff noLineFeed
    rcases enters name (spelled.isViewChangelog holds.1) noLineFeed with carries | ⟨absent, first⟩
    · split
      · exact carries
      · rename_i absent
        have length_eq := carries.length_eq
        rw [none.mpr (Bool.eq_false_iff.mpr absent), List.length_nil,
          List.length_eq_zero_iff] at length_eq
        exact absurd length_eq (included noLineFeed)
    · rw [if_neg (Bool.eq_false_iff.mp (none.mp absent))]
      exact first

/-- A project with the source of one entity, a master that includes nothing, and other entries. -/
def viewDisk (others : List (Path × Node)) : Disk where
  entries := [
    (["w".toList], .folder),
    (["w".toList, "j".toList], .folder),
    (["w".toList, "j".toList, "p".toList], .folder),
    (["w".toList, "j".toList, "p".toList, "domain".toList], .folder),
    (["w".toList, "j".toList, "p".toList, "domain".toList, "V.java".toList],
      .file (Utf8.encode "import org.hibernate.annotations.Immutable;\n".toList)),
    (["w".toList, "r".toList], .folder),
    (["w".toList, "r".toList, "config".toList], .folder),
    (["w".toList, "r".toList, "config".toList, "liquibase".toList], .folder),
    (["w".toList, "r".toList, "config".toList, "liquibase".toList, "master.xml".toList],
      .file (Utf8.encode "</databaseChangeLog>".toList))] ++ others

/-- A run in a project at the same root. -/
def viewRun (disk : Disk) : Run where
  options := { layout := { package := "p", mainJava := "j", testJava := "t", mainResources := "r" } }
  space := { project := .anew ["w".toList] disk }
  clock := .fixed ⟨2024, 5, 6, 7, 8, 9⟩

private theorem project_viewRun (disk : Disk) : (viewRun disk).project = .anew ["w".toList] disk := rfl

private theorem options_viewRun (disk other : Disk) : (viewRun disk).options = (viewRun other).options := rfl

/-- An entity backed by a view. -/
def viewEntity : Entity where
  name := "V"
  className := "V"
  table := "v"
  annotations := [(.string "view", .bool true), (.string "sql", .string "select 1")]

/-- A run over the entity comes to its changelog, if it gets the source ready. -/
theorem reachesChangelog_viewEntity {start : Run} (liquibase : start.options.withLiquibase = true)
    (all : start.options.selection = [])
    (prepares : (prepareView viewEntity).run' (start.recording fun _ =>
      { entities := ["V".toList] }) = some true) :
    ReachesChangelog [viewEntity] start viewEntity
      (after (prepareView viewEntity) (start.recording fun _ => { entities := ["V".toList] })) := by
  refine ⟨liquibase, rfl, [], [], start.recording fun _ => {}, ?_, rfl, eq_ok_after prepares⟩
  simp [selected, all]

private theorem exists_stamp {clock : Clock} (stamps : clock.next.1.toOption.isSome = true) :
    ∃ stamp ticked, clock.next = (.ok stamp, ticked) := by
  cases next : clock.next with
  | mk result ticked =>
    rw [next] at stamps
    cases result with
    | error failure => cases stamps
    | ok stamp => exact ⟨stamp, ticked, rfl⟩

private theorem spelled_viewEntity : ∀ entity ∈ [viewEntity],
    Spelled entity.className ∧ Spelled entity.table := by
  intro entity member
  obtain rfl := List.mem_singleton.mp member
  exact ⟨⟨⟨by decide, by decide, by decide, by decide, by decide⟩, by decide, by decide⟩,
    ⟨⟨by decide, by decide, by decide, by decide, by decide⟩, by decide, by decide⟩⟩

private theorem isPlain_viewRoot : Path.IsPlain ["w".toList] := by
  intro name member
  obtain rfl := List.mem_singleton.mp member
  exact ⟨by decide, by decide, by decide, by decide, by decide⟩

private theorem hasInlineSql_viewEntity : HasInlineSql viewEntity := ⟨"select 1".toList, by decide +kernel⟩

/-- A project whose view has no changelog yet. -/
def freshDisk : Disk := viewDisk []

private theorem freshDisk_isTree : freshDisk.IsTree := Disk.isTree_of_entries (by decide +kernel)

/-- A project whose view has a changelog that is no text. -/
def brokenDisk : Disk := viewDisk [
  (["w".toList, "r".toList, "config".toList, "liquibase".toList, "changelog".toList], .folder),
  (["w".toList, "r".toList, "config".toList, "liquibase".toList, "changelog".toList,
    "20240101000000_create_view_v.xml".toList], .file [0xff])]

private theorem brokenDisk_isTree : brokenDisk.IsTree := Disk.isTree_of_entries (by decide +kernel)

/-- A run whose clock has used up the last second of the calendar. -/
def lateRun : Run :=
  { viewRun freshDisk with
    clock := { readings := fun _ => ⟨9999, 12, 31, 23, 59, 59⟩,
               last := some ⟨9999, 12, 31, 23, 59, 59⟩, counter := 999 } }

/-- A master with the include of a changelog in a comment. -/
def commentedMaster : Text :=
  "<!--".toList ++ Changelog.includeLine "20240101000000_create_view_v.xml" ++
    " -->\n</databaseChangeLog>".toList

end Run

end ReadOnlyViews
