import ReadOnlyViews.Proofs.ChangelogNames
import ReadOnlyViews.Proofs.Locations
import ReadOnlyViews.Proofs.RunSteps

/-!
The report of a run tells the truth about the disk.  Every file that a real run leaves different is
listed as changed, generated or deleted; every listed path has a diagnostic; every entity listed as
failed has an error.  The first needs that no write touches a second file, the second that no edit
changes a text and keeps silent about it.
-/

namespace ReadOnlyViews

/-- The paths that a report lists. -/
def RunReport.touched (report : RunReport) : List Text :=
  report.changed ++ report.generated ++ report.deleted

/-! ### Edits that change a text say so -/

/-- An edit that claims that there was nothing to do leaves the text as it was. -/
def EditStep.IsHonest (step : EditStep) : Prop :=
  ∀ text edit, step text = .ok edit → edit.outcome = .alreadyPresent → edit.text = text

private theorem insertOnce_isHonest (witness : Witness) (insertion : List Text) (anchors : List Anchor)
    (required : Bool) : EditStep.IsHonest (insertOnce witness insertion anchors required) := by
  intro text edit made silent
  unfold insertOnce at made
  split at made
  · cases made
    rfl
  · split at made
    · cases made
      cases silent
    · split at made
      · cases made
      · cases made
        cases silent

private theorem removing_isHonest (test : Java.LineTest) : EditStep.IsHonest (ReadOnly.removing test) := by
  intro text edit made silent
  obtain rfl := Except.ok.inj made
  unfold Java.removeMethods at silent ⊢
  dsimp only at silent ⊢
  split at silent
  · cases silent
  · split at silent
    · rename_i nothing
      simp only [nothing, if_true]
    · cases silent

private theorem ensureDisabledImport_isHonest : EditStep.IsHonest ReadOnly.ensureDisabledImport := by
  intro text edit made silent
  unfold ReadOnly.ensureDisabledImport at made
  split at made
  · cases made
    rfl
  · split at made
    · cases made
      rfl
    · cases beside : insertOnce (.literal ReadOnly.disabledImport) [ReadOnly.disabledImport]
          [ReadOnly.testImportAnchor] false text with
      | error failure => simp [beside, bind, Except.bind] at made
      | ok first =>
        by_cases placed : first.outcome ≠ .noAnchor
        · obtain rfl : first = edit := by
            simpa [beside, placed, bind, Except.bind, pure, Except.pure] using made
          exact insertOnce_isHonest _ _ _ _ text first beside silent
        cases behind : insertOnce (.literal ReadOnly.disabledImport) [[], ReadOnly.disabledImport]
            [ReadOnly.packageAnchor] false text with
        | error failure => simp [beside, behind, placed, bind, Except.bind] at made
        | ok second =>
          by_cases applied : second.outcome = .applied
          · obtain rfl : { second with reason := "import added after package statement" } = edit := by
              simpa [beside, behind, placed, applied, bind, Except.bind, pure, Except.pure] using made
            cases applied.symm.trans silent
          · obtain rfl : second = edit := by
              simpa [beside, behind, placed, applied, bind, Except.bind, pure, Except.pure] using made
            exact insertOnce_isHonest _ _ _ _ text second behind silent

private theorem steps_isHonest (kind : ReadOnly.SourceKind) (table : Text) :
    ∀ named ∈ ReadOnly.steps kind table, EditStep.IsHonest named.2 := by
  intro named member
  cases kind with
  | entity =>
    simp only [ReadOnly.steps, ReadOnly.entitySteps, List.mem_cons, List.not_mem_nil,
      or_false] at member
    rcases member with rfl | rfl <;> exact insertOnce_isHonest _ _ _ _
  | repository =>
    simp only [ReadOnly.steps, ReadOnly.repositorySteps, List.mem_cons, List.not_mem_nil,
      or_false] at member
    subst member
    exact insertOnce_isHonest _ _ _ _
  | resource =>
    rcases List.mem_append.mp member with removal | mark
    · obtain ⟨mapping, -, rfl⟩ := List.mem_map.mp removal
      exact removing_isHonest _
    · obtain rfl := List.mem_singleton.mp mark
      exact insertOnce_isHonest _ _ _ _
  | service =>
    rcases List.mem_append.mp member with removal | mark
    · obtain ⟨signature, -, rfl⟩ := List.mem_map.mp removal
      exact removing_isHonest _
    · obtain rfl := List.mem_singleton.mp mark
      exact insertOnce_isHonest _ _ _ _
  | test =>
    simp only [ReadOnly.steps, ReadOnly.testSteps, List.mem_cons, List.not_mem_nil,
      or_false] at member
    rcases member with rfl | rfl | rfl
    · exact ensureDisabledImport_isHonest
    · exact insertOnce_isHonest _ _ _ _
    · exact insertOnce_isHonest _ _ _ _

/-- Honest edits in a row that change the text include one that says so. -/
theorem exists_told_of_runSteps {text final : Text} {named : List (Text × EditStep)} {results : Steps}
    (honest : ∀ step ∈ named, EditStep.IsHonest step.2)
    (ran : runSteps text named = .ok (final, results)) (changes : final ≠ text) :
    ∃ result ∈ results, result.2.outcome ≠ .alreadyPresent := by
  induction named generalizing text results with
  | nil =>
    cases ran
    exact absurd rfl changes
  | cons step named ih =>
    obtain ⟨name, step⟩ := step
    cases made : step text with
    | error failure => simp [runSteps, made, bind, Except.bind] at ran
    | ok edit =>
      cases further : runSteps edit.text named with
      | error failure => simp [runSteps, made, further, bind, Except.bind] at ran
      | ok pair =>
        obtain ⟨last, others⟩ := pair
        obtain ⟨rfl, rfl⟩ : last = final ∧ (name, edit) :: others = results := by
          simpa [runSteps, made, further, bind, Except.bind, pure, Except.pure] using ran
        by_cases silent : edit.outcome = .alreadyPresent
        · have same := honest (name, step) (by simp) text edit made silent
          have later := ih (fun other member => honest other (by simp [member])) further
            (by rwa [same])
          obtain ⟨result, member, told⟩ := later
          exact ⟨result, by simp [member], told⟩
        · exact ⟨(name, edit), by simp, silent⟩

theorem consider_cases (state : Java.Pruning) (statement : Text) :
    ((state.consider statement).text = state.text ∧
      (state.consider statement).removed = state.removed) ∨
    ∃ name, (state.consider statement).removed = state.removed ++ [name] := by
  unfold Java.Pruning.consider
  split
  · exact .inl ⟨rfl, rfl⟩
  · dsimp only
    split
    · exact .inl ⟨rfl, rfl⟩
    · split
      · exact .inl ⟨rfl, rfl⟩
      · split
        · exact .inr ⟨_, rfl⟩
        · exact .inl ⟨rfl, rfl⟩

/-- Pruning that removed nothing left the text alone. -/
theorem text_of_removed_nil {candidates : List Text} {state : Java.Pruning}
    (nothing : (candidates.foldl Java.Pruning.consider state).removed = []) :
    state.removed = [] ∧ (candidates.foldl Java.Pruning.consider state).text = state.text := by
  induction candidates generalizing state with
  | nil => exact ⟨nothing, rfl⟩
  | cons statement candidates ih =>
    obtain ⟨none, same⟩ := ih nothing
    rcases consider_cases state statement with ⟨sameText, sameRemoved⟩ | ⟨name, more⟩
    · exact ⟨sameRemoved.symm.trans none, same.trans sameText⟩
    · simp [more] at none

private theorem pruneImports_isHonest (candidates : List Text) (asked : Java.AskedNames) {text : Text}
    (silent : (Java.pruneImports candidates asked text).1.outcome = .alreadyPresent) :
    (Java.pruneImports candidates asked text).1.text = text := by
  unfold Java.pruneImports at silent ⊢
  dsimp only at silent ⊢
  split at silent
  · rename_i nothing
    rw [if_pos nothing]
    exact (text_of_removed_nil (List.isEmpty_iff.mp nothing)).2
  · cases silent

/-- A conversion that changes a source says so in one of its steps. -/
theorem exists_told_of_convert {kind : ReadOnly.SourceKind} {table text : Text}
    {asked : Java.AskedNames} {converted : ReadOnly.Converted}
    (made : ReadOnly.convert kind table asked text = .ok converted)
    (changes : converted.text ≠ text) :
    ∃ result ∈ converted.steps, result.2.outcome ≠ .alreadyPresent := by
  cases ran : runSteps text (ReadOnly.steps kind table) with
  | error failure => simp [ReadOnly.convert, ran, bind, Except.bind] at made
  | ok pair =>
    obtain ⟨final, results⟩ := pair
    have told := exists_told_of_runSteps (steps_isHonest kind table) ran
    cases kind with
    | resource =>
      rcases pruned : Java.pruneImports Java.resourceImports asked final with ⟨edit, names⟩
      have honest : edit.outcome = .alreadyPresent → edit.text = final := by
        have honest := @pruneImports_isHonest Java.resourceImports asked final
        rwa [pruned] at honest
      obtain rfl : ReadOnly.Converted.mk edit.text
          (results ++ [("unused imports".toList, edit)]) names = converted := by
        simpa only [ReadOnly.convert, ran, pruned, bind, Except.bind, pure, Except.pure,
          Except.ok.injEq] using made
      by_cases silent : edit.outcome = .alreadyPresent
      · have same : edit.text = final := honest silent
        obtain ⟨result, member, speaks⟩ := told (same ▸ changes)
        exact ⟨result, List.mem_append_left _ member, speaks⟩
      · exact ⟨_, List.mem_append_right _ (List.mem_singleton.mpr rfl), silent⟩
    | entity | repository | service | test =>
      obtain rfl : ReadOnly.Converted.mk final results asked = converted := by
        simpa only [ReadOnly.convert, ran, bind, Except.bind, pure, Except.pure,
          Except.ok.injEq] using made
      exact told changes

private theorem splice_isHonest {fragment : Fragment} {anchors : List Text} {text : Text}
    (silent : (splice fragment anchors text).outcome = .alreadyPresent) :
    (splice fragment anchors text).text = text := by
  unfold splice at silent ⊢
  split at silent
  · rename_i present
    rw [if_pos present]
  · dsimp only at silent
    split at silent <;> cases silent

private theorem removeTableIncludes_isHonest {entityClass master : Text}
    (silent : (Changelog.removeTableIncludes entityClass master).outcome = .alreadyPresent) :
    (Changelog.removeTableIncludes entityClass master).text = master := by
  unfold Changelog.removeTableIncludes at silent ⊢
  dsimp only at silent ⊢
  split at silent
  · rename_i nothing
    rw [if_pos nothing]
  · cases silent

private theorem exists_told_of_single {name text : Text} {edit : Text → Edit} {asked : Java.AskedNames}
    {converted : ReadOnly.Converted}
    (honest : (edit text).outcome = .alreadyPresent → (edit text).text = text)
    (made : Conversion.single name edit asked text = .ok converted)
    (changes : converted.text ≠ text) :
    ∃ result ∈ converted.steps, result.2.outcome ≠ .alreadyPresent := by
  cases made
  exact ⟨(name, edit text), by simp, fun silent => changes (honest silent)⟩

namespace Run

variable {options : RunOptions} {entities : List Entity}

/-- No edit of a run changes a text and keeps silent about it. -/
theorem Edits.exists_told {file text : Text} {conversion : Conversion}
    (allowed : Edits options entities file conversion) {asked : Java.AskedNames}
    {converted : ReadOnly.Converted} (made : conversion asked text = .ok converted)
    (changes : converted.text ≠ text) :
    ∃ result ∈ converted.steps, result.2.outcome ≠ .alreadyPresent := by
  cases allowed with
  | source kind member => exact exists_told_of_convert made changes
  | registration member drawn => exact exists_told_of_single splice_isHonest made changes
  | cleanup member => exact exists_told_of_single removeTableIncludes_isHonest made changes
  | settings settings => exact exists_told_of_single splice_isHonest made changes

private theorem exists_mem_editDiagnostics {entity : Option Text} {file : Text} {steps : ReadOnlyViews.Steps}
    (told : ∃ result ∈ steps, result.2.outcome ≠ .alreadyPresent) :
    ∃ d ∈ editDiagnostics entity { file, changed := true, steps }, d.path = some file := by
  obtain ⟨⟨name, edit⟩, member, speaks⟩ := told
  have said : ∃ d, stepDiagnostic entity file name edit = some d ∧ d.path = some file := by
    unfold stepDiagnostic
    dsimp only
    split
    · split <;> exact ⟨_, rfl, rfl⟩
    · exact ⟨_, rfl, rfl⟩
    · exact ⟨_, rfl, rfl⟩
    · exact absurd ‹_› speaks
  obtain ⟨d, said, path⟩ := said
  exact ⟨d, List.mem_filterMap.mpr ⟨(name, edit), member, said⟩, path⟩

end Run

/-! ### Files that a run writes keep their names -/

namespace Project

/-- A path whose file nobody takes for a temporary one. -/
def KeepsName (file : Text) : Prop :=
  ∃ c, file.getLast? = some c ∧ c ≠ '/' ∧ c ≠ '.' ∧ c ≠ 'p'

theorem KeepsName.notTemporary {file : Text} (keeps : KeepsName file) {root target : Path}
    (placed : Path.place root file = .ok target) : ¬ Path.IsTemporary target := by
  rintro ⟨folder, start, rfl⟩
  obtain ⟨c, ends, slash, dot, notP⟩ := keeps
  obtain ⟨above, name, same, lastOf⟩ := Path.getLast?_of_place ends slash dot placed
  have names : start ++ ".viewbot-tmp".toList = name :=
    List.singleton_inj.mp (List.append_inj' same rfl).2
  rw [← names] at lastOf
  simp at lastOf
  exact notP lastOf.symm

end Project

namespace Run

variable {options : RunOptions} {entities : List Entity}

private theorem Edits.keepsName {file : Text} {conversion : Conversion}
    (allowed : Edits options entities file conversion) : Project.KeepsName file := by
  rcases allowed.file_cases with java | rfl | rfl
  · exact ⟨'a', java, by decide⟩
  · exact ⟨'l', getLast?_masterChangelog _, by decide⟩
  · exact ⟨'l', getLast?_applicationYml _, by decide⟩

theorem keepsName_of_stampOf? {view name stamp : Text}
    (stamped : Changelog.stampOf? view name = some stamp) (folder : Text) :
    Project.KeepsName (folder ++ '/' :: name) := by
  have behind {c : Char} (ends : name.getLast? = some c) :
      (folder ++ '/' :: name).getLast? = some c := by
    rw [List.getLast?_append_of_ne_nil _ (by simp), List.getLast?_cons, ends]
    rfl
  rcases Changelog.getLast?_of_stampOf? stamped with letter | feed
  · exact ⟨'l', behind letter, by decide⟩
  · exact ⟨'\n', behind feed, by decide⟩

private theorem Generates.keepsName {project : Project} {file content : Text}
    (allowed : Generates options entities project file content) : Project.KeepsName file := by
  rcases allowed.file_cases with java | ⟨entity, -, existing, clock, later, name, stamp, rfl, -, drawn⟩
  · exact ⟨'a', java, by decide⟩
  · exact keepsName_of_stampOf? (Changelog.nextView_cases drawn).1 _

/-! ### The invariant of a run -/

/-- A run has told the truth so far: about every file that is not as in the project it started from,
about every path in its lists, and about every entity that failed. -/
structure Faithful (start : Project) (run : Run) : Prop where
  sameRoot : run.project.root = start.root
  ready : run.project.IsReal
  noTemporary : run.project.disk.NoTemporary
  listed : ∀ path, run.project.disk.file? path ≠ start.disk.file? path →
    ∃ file ∈ run.report.touched, Path.place start.root file = .ok path
  told : ∀ file ∈ run.report.touched, ∃ d ∈ run.reporter.items, d.path = some file
  blamed : ∀ name ∈ run.report.failed,
    ∃ d ∈ run.reporter.items, d.level = .error ∧ d.entity = some name

variable {start : Project} {run later : Run}

/-- What changes no file and lists nothing keeps a run truthful, if no failure goes unblamed. -/
theorem Faithful.keep (faithful : Faithful start run)
    (sameRoot : later.project.root = run.project.root) (ready : later.project.IsReal)
    (files : ∀ path, later.project.disk.file? path = run.project.disk.file? path)
    (lists : later.report.touched = run.report.touched)
    (items : run.reporter.items ⊆ later.reporter.items)
    (blamed : ∀ name ∈ later.report.failed, name ∈ run.report.failed ∨
      ∃ d ∈ later.reporter.items, d.level = .error ∧ d.entity = some name) :
    Faithful start later where
  sameRoot := sameRoot.trans faithful.sameRoot
  ready := ready
  noTemporary := fun path temporary => (files path).trans (faithful.noTemporary path temporary)
  listed := by
    intro path differs
    rw [files] at differs
    rw [lists]
    exact faithful.listed path differs
  told := by
    intro file member
    obtain ⟨d, said, about⟩ := faithful.told file (lists ▸ member)
    exact ⟨d, items said, about⟩
  blamed := by
    intro name member
    rcases blamed name member with old | new
    · obtain ⟨d, said, about⟩ := faithful.blamed name old
      exact ⟨d, items said, about⟩
    · exact new

/-- A run that changes one file stays truthful if it lists the file and says something about it. -/
theorem Faithful.touch (faithful : Faithful start run)
    (sameRoot : later.project.root = run.project.root) (ready : later.project.IsReal)
    {file : Text} {target : Path} (placed : Path.place run.project.root file = .ok target)
    (files : ∀ path, path ≠ target →
      later.project.disk.file? path = run.project.disk.file? path)
    (permanent : Path.IsTemporary target → later.project.disk.file? target = none)
    (lists : ∀ other, other ∈ later.report.touched ↔ other ∈ run.report.touched ∨ other = file)
    (items : run.reporter.items ⊆ later.reporter.items)
    (said : ∃ d ∈ later.reporter.items, d.path = some file)
    (failed : later.report.failed = run.report.failed) : Faithful start later where
  sameRoot := sameRoot.trans faithful.sameRoot
  ready := ready
  noTemporary := by
    intro path temporary
    by_cases atTarget : path = target
    · subst atTarget
      exact permanent temporary
    · rw [files path atTarget]
      exact faithful.noTemporary path temporary
  listed := by
    intro path differs
    by_cases atTarget : path = target
    · refine ⟨file, (lists file).mpr (.inr rfl), ?_⟩
      rw [atTarget, ← faithful.sameRoot, placed]
    · rw [files path atTarget] at differs
      obtain ⟨other, member, place⟩ := faithful.listed path differs
      exact ⟨other, (lists other).mpr (.inl member), place⟩
  told := by
    intro other member
    rcases (lists other).mp member with old | rfl
    · obtain ⟨d, known, about⟩ := faithful.told other old
      exact ⟨d, items known, about⟩
    · exact said
  blamed := by
    intro name member
    obtain ⟨d, known, about⟩ := faithful.blamed name (failed ▸ member)
    exact ⟨d, items known, about⟩

/-- Where no file has a temporary name, none can be lost under one. -/
theorem Faithful.file?_eq (faithful : Faithful start run) {disk : Disk} {path : Path}
    (files : disk.file? path = run.project.disk.file? path ∨
      (Path.IsTemporary path ∧ disk.file? path = none)) :
    disk.file? path = run.project.disk.file? path := by
  rcases files with same | ⟨temporary, gone⟩
  · exact same
  · rw [gone, faithful.noTemporary path temporary]

/-- What leaves the project and its lists alone keeps a run truthful. -/
theorem Faithful.stays (faithful : Faithful start run) (project : later.project = run.project)
    (lists : later.report.touched = run.report.touched)
    (items : run.reporter.items ⊆ later.reporter.items)
    (failed : later.report.failed = run.report.failed) : Faithful start later :=
  faithful.keep (by rw [project]) (project ▸ faithful.ready) (fun _ => by rw [project]) lists items
    fun _ member => .inl (failed ▸ member)

/-- A file that is written keeps a run truthful if the run lists it and says something about it. -/
theorem Faithful.written (faithful : Faithful start run) {file content : Text} {project : Project}
    (keeps : Project.KeepsName file) (written : run.project.write file content = (.ok (), project))
    (isProject : later.project = project)
    (lists : ∀ other, other ∈ later.report.touched ↔ other ∈ run.report.touched ∨ other = file)
    (items : run.reporter.items ⊆ later.reporter.items)
    (said : ∃ d ∈ later.reporter.items, d.path = some file)
    (failed : later.report.failed = run.report.failed) : Faithful start later := by
  subst isProject
  have outcome := Project.written_write faithful.ready file content
  rw [written] at outcome
  obtain ⟨target, placed, -, others⟩ := outcome.files_of_done
  exact faithful.touch outcome.root_eq (outcome.isReal faithful.ready) placed
    (fun path other => faithful.file?_eq (others path other))
    (fun temporary => absurd temporary (keeps.notTemporary placed)) lists items said failed

/-- A write that is refused leaves every file as it was. -/
theorem Faithful.refused (faithful : Faithful start run) {file content : Text} {failure : Failure}
    {project : Project} (refused : run.project.write file content = (.error failure, project)) :
    Faithful start (run.withProject project) := by
  have outcome := Project.written_write faithful.ready file content
  rw [refused] at outcome
  exact faithful.keep outcome.root_eq (outcome.isReal faithful.ready)
    (fun path => faithful.file?_eq (outcome.files_of_error path)) rfl (List.Subset.refl _)
    fun _ member => .inl member

theorem Faithful.step (faithful : Faithful start run) (step : Step (scopeOf options entities) run later) :
    Faithful start later := by
  cases step with
  | said d => exact faithful.stays rfl rfl (List.subset_append_left _ _) rfl
  | named => exact faithful.stays rfl rfl (List.Subset.refl _) rfl
  | drew clock => exact faithful.stays rfl rfl (List.Subset.refl _) rfl
  | loaded settings => exact faithful.stays rfl rfl (List.Subset.refl _) rfl
  | asked names => exact faithful.stays rfl rfl (List.Subset.refl _) rfl
  | @blamed entity d isError about =>
    refine faithful.keep rfl faithful.ready (fun _ => rfl) rfl (List.subset_append_left _ _) ?_
    intro name member
    rcases List.mem_append.mp member with old | new
    · exact .inl old
    · obtain rfl := List.mem_singleton.mp new
      exact .inr ⟨d, List.mem_append_right _ (List.mem_singleton.mpr rfl), isError, about⟩
  | @edited entity file before conversion converted project allowed read made changes written =>
    obtain ⟨d, member, about⟩ : ∃ d ∈ editDiagnostics entity
        { file, changed := true, steps := converted.steps }, d.path = some file :=
      exists_mem_editDiagnostics (allowed.exists_told made changes)
    have items := items_sayingAll ((run.withAsked converted.asked).withProject project)
      (editDiagnostics entity { file, changed := true, steps := converted.steps })
    refine faithful.written allowed.keepsName written rfl ?_
      (items ▸ List.subset_append_left _ _) ⟨d, items ▸ List.mem_append_right _ member, about⟩ rfl
    intro other
    simp only [recording, sayingAll, withProject, withAsked, RunReport.touched, List.mem_append,
      List.mem_singleton]
    tauto
  | @generated file content d project allowed written told =>
    refine faithful.written allowed.keepsName written rfl ?_ (List.subset_append_left _ _)
      ⟨d, List.mem_append_right _ (List.mem_singleton.mpr rfl), told⟩ rfl
    intro other
    simp only [recording, saying, withProject, RunReport.touched, List.mem_append,
      List.mem_singleton]
    tauto
  | @deleted file d project allowed erased told =>
    have outcome := Project.removed_delete faithful.ready file
    rw [erased] at outcome
    obtain ⟨target, placed, gone, others⟩ := outcome.files_of_done
    refine faithful.touch outcome.root_eq (outcome.isReal faithful.ready) placed others
      (fun _ => gone) ?_ (List.subset_append_left _ _)
      ⟨d, List.mem_append_right _ (List.mem_singleton.mpr rfl), told⟩ rfl
    intro other
    simp only [recording, saying, withProject, RunReport.touched, List.mem_append,
      List.mem_singleton]
    tauto
  | refusedEdit _ refused => exact faithful.refused refused
  | refusedSource _ refused => exact faithful.refused refused
  | @refusedDelete file failure project allowed refused =>
    have outcome := Project.removed_delete faithful.ready file
    rw [refused] at outcome
    cases outcome with
    | refused absent => exact faithful.stays rfl rfl (List.Subset.refl _) rfl

theorem Faithful.steps (faithful : Faithful start run) (steps : Steps (scopeOf options entities) run later) :
    Faithful start later := by
  induction steps with
  | refl => exact faithful
  | tail _ step ih => exact ih.step step

/-- The report of a real run is faithful.  Whatever file the run leaves with another content, new or
gone is found under a path that the report lists; every path in the lists has a diagnostic, and every
entity listed as failed has an error, so that a report with failures is not in order. -/
theorem report_faithful {run final : Run} {entities : List Entity} {report : RunReport}
    (real : run.project.dryRun = false) (direct : run.project.pending = [])
    (tree : run.project.disk.IsTree) (noTemporary : run.project.disk.NoTemporary)
    (ran : batch entities run = .ok report final) :
    (∀ path, final.project.disk.file? path ≠ run.project.disk.file? path →
      ∃ file ∈ report.changed ++ report.generated ++ report.deleted,
        run.project.locate file = .ok path) ∧
    (∀ file ∈ report.changed ++ report.generated ++ report.deleted,
      ∃ d ∈ report.diagnostics, d.path = some file) ∧
    (∀ name ∈ report.failed,
      ∃ d ∈ report.diagnostics, d.level = .error ∧ d.entity = some name) ∧
    (report.failed ≠ [] → report.ok = false) := by
  obtain ⟨last, steps, rfl, rfl⟩ := exists_steps_of_batch ran
  have begins : Faithful run.project (run.recording fun _ => {}) :=
    ⟨rfl, ⟨real, direct, tree⟩, noTemporary, fun path differs => absurd rfl differs,
      fun file member => (List.not_mem_nil member).elim,
      fun name member => (List.not_mem_nil member).elim⟩
  have faithful := begins.steps steps
  refine ⟨?_, faithful.told, faithful.blamed, ?_⟩
  · intro path differs
    obtain ⟨file, member, placed⟩ := faithful.listed path differs
    exact ⟨file, member, (Project.locate_eq_place tree.linkFree file).trans placed⟩
  · intro failures
    obtain ⟨name, member⟩ := List.exists_mem_of_ne_nil _ failures
    obtain ⟨d, said, isError, -⟩ := faithful.blamed name member
    simp only [RunReport.ok, Bool.not_eq_false', List.any_eq_true]
    exact ⟨d, said, by simp [isError]⟩

/-- A project with the source and the sample data of one entity. -/
def sampleDisk : Disk where
  entries := [
    (["w".toList], .folder),
    (["w".toList, "j".toList], .folder),
    (["w".toList, "j".toList, "p".toList], .folder),
    (["w".toList, "j".toList, "p".toList, "domain".toList], .folder),
    (["w".toList, "j".toList, "p".toList, "domain".toList, "V.java".toList],
      .file (Utf8.encode
        "import org.hibernate.annotations.Immutable;\n@Entity\nclass V {}\n".toList)),
    (["w".toList, "r".toList], .folder),
    (["w".toList, "r".toList, "config".toList], .folder),
    (["w".toList, "r".toList, "config".toList, "liquibase".toList], .folder),
    (["w".toList, "r".toList, "config".toList, "liquibase".toList, "changelog".toList], .folder),
    (["w".toList, "r".toList, "config".toList, "liquibase".toList, "fake-data".toList], .folder),
    (["w".toList, "r".toList, "config".toList, "liquibase".toList, "fake-data".toList,
      "v.csv".toList], .file [])]

/-- A real run in that project. -/
def sampleRun : Run where
  options := { layout := { package := "p", mainJava := "j", testJava := "t", mainResources := "r" } }
  space := { project := { root := ["w"], disk := sampleDisk } }
  clock := .fixed ⟨2024, 5, 6, 7, 8, 9⟩

/-- The entity, which is backed by a view. -/
def sampleEntity : Entity where
  name := "V"
  className := "V"
  table := "v"
  annotations := [(.string "view", .bool true), (.string "sql", .string "select 1")]

private theorem sampleDisk_isTree : sampleDisk.IsTree := Disk.isTree_of_entries (by decide +kernel)

private theorem sampleDisk_noTemporary : sampleDisk.NoTemporary :=
  Disk.noTemporary_of_entries (by decide +kernel)

/-- The sample run edits the source, generates the view's changelog and deletes the sample data, and
all three files are found in its report. -/
theorem report_faithful_of_sampleRun :
    ∃ report final, batch [sampleEntity] sampleRun = .ok report final ∧
      report.changed.length = 1 ∧ report.generated.length = 1 ∧ report.deleted.length = 1 ∧
      (∀ path, final.project.disk.file? path ≠ sampleDisk.file? path →
        ∃ file ∈ report.changed ++ report.generated ++ report.deleted,
          sampleRun.project.locate file = .ok path) ∧
      ∀ file ∈ report.changed ++ report.generated ++ report.deleted,
        ∃ d ∈ report.diagnostics, d.path = some file := by
  have counts : (match batch [sampleEntity] sampleRun with
      | .ok report _ => decide (report.changed.length = 1 ∧ report.generated.length = 1 ∧
          report.deleted.length = 1)
      | .error _ _ => false) = true := by decide +kernel
  cases ran : batch [sampleEntity] sampleRun with
  | error failure final => simp [ran] at counts
  | ok report final =>
    rw [ran] at counts
    obtain ⟨changed, generated, deleted⟩ := of_decide_eq_true counts
    have faithful := @report_faithful sampleRun final [sampleEntity] report rfl rfl
      sampleDisk_isTree sampleDisk_noTemporary ran
    exact ⟨report, final, rfl, changed, generated, deleted, faithful.1, faithful.2.1⟩

end Run

end ReadOnlyViews
