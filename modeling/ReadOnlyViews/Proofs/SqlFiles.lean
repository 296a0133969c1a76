import ReadOnlyViews.Proofs.Resolution
import ReadOnlyViews.Sql.Source

/-!
Which file the SQL of a view is read from.  The reader is asked for one place at most, and only after
both checks.  That place lies in the root; if the root and the path can be resolved to the end, it is
the place that the path is resolved to, with no link at it or on the way.  A loop of links on the way
breaks this: the rest of the path is then not resolved any more, and a link in it can lead out of the
root.  On a disk without links the second check refuses nothing that the first one takes.
-/

namespace ReadOnlyViews

private theorem Text.mem_of_mem_pieces {mark c : Char} {text piece : Text}
    (member : piece ∈ Text.pieces mark text) (inPiece : c ∈ piece) : c ∈ text := by
  induction text generalizing piece with
  | nil =>
    obtain rfl := List.mem_singleton.mp member
    exact inPiece
  | cons d text ih =>
    obtain ⟨first, others, cut⟩ := List.exists_cons_of_ne_nil (Text.pieces_ne_nil mark text)
    rw [cut] at ih
    by_cases same : d = mark
    · rw [Text.pieces, if_pos same, cut] at member
      rcases List.mem_cons.mp member with rfl | later
      · cases inPiece
      · exact List.mem_cons_of_mem d (ih later inPiece)
    · rw [Text.pieces, if_neg same, cut] at member
      rcases List.mem_cons.mp member with rfl | later
      · rcases List.mem_cons.mp inPiece with rfl | inFirst
        · exact List.mem_cons_self
        · exact List.mem_cons_of_mem d (ih List.mem_cons_self inFirst)
      · exact List.mem_cons_of_mem d (ih (List.mem_cons_of_mem _ later) inPiece)

/-! ### Paths that pass the first check -/

/-- Names that never climb lead down. -/
theorem Path.prefix_foldl_step {names : List Name} (climbFree : "..".toList ∉ names) (here : Path) :
    here <+: names.foldl Path.step here := by
  induction names generalizing here with
  | nil => exact List.prefix_refl here
  | cons name names ih =>
    have down : here <+: Path.step here name := by
      unfold Path.step
      split
      · exact List.prefix_refl here
      · split
        · rename_i climbs
          exact absurd (climbs ▸ List.mem_cons_self) climbFree
        · exact List.prefix_append here [name]
    exact down.trans (ih (fun later => climbFree (List.mem_cons_of_mem _ later)) _)

private theorem Path.exists_plainReading {raw : Text} (clean : '\x00' ∉ raw) (folder : Path) :
    ∃ place, Path.plainReading folder raw = .ok place := by
  refine ⟨_, if_neg fun nul => ?_⟩
  obtain ⟨name, member, inName⟩ := List.any_eq_true.mp nul
  exact clean (Text.mem_of_mem_pieces member (by simpa using inName))

namespace Sql

/-- A path that passes the check is relative and has no name that climbs. -/
theorem relative_of_checkPath {raw : Text} (checked : checkPath raw = .ok ()) :
    Path.isAbsolute raw = false ∧ "..".toList ∉ Path.segments raw := by
  unfold checkPath at checked
  split at checked
  · cases checked
  · rename_i level
    split at checked
    · cases checked
    · rename_i relative
      refine ⟨?_, fun climbs => level ?_⟩
      · simpa [Path.isAbsolute] using fun slash => relative (.inl slash)
      · have segment : "..".toList ∈ pathSegments raw :=
          List.mem_flatMap.mpr ⟨_, climbs, by decide⟩
        simp only [Sql.climbs, List.contains_iff_mem.mpr segment, Bool.true_or]

/-- On a disk without links such a path stays in the folder it is read from. -/
theorem prefix_of_checkPath {raw : Text} {folder place : Path} (checked : checkPath raw = .ok ())
    (read : Path.plainReading folder raw = .ok place) : folder <+: place := by
  obtain ⟨relative, climbFree⟩ := relative_of_checkPath checked
  unfold Path.plainReading at read
  split at read
  · cases read
  · rw [relative] at read
    exact Except.ok.inj read ▸ Path.prefix_foldl_step climbFree folder

end Sql

/-! ### Places in the root -/

namespace Disk

variable {disk : Disk} {root place : Path} {raw : Text}

private theorem resolveWithin_eq_ok_iff :
    disk.resolveWithin root raw = .ok place ↔
      ∃ base, disk.resolve [] root.text = .ok base ∧ disk.resolve base raw = .ok place ∧
        base <+: place := by
  unfold resolveWithin
  cases disk.resolve [] root.text with
  | error failure => simp [bind, Except.bind]
  | ok base =>
    cases found : disk.resolve base raw with
    | error failure => simp [bind, Except.bind, found]
    | ok target =>
      simp only [bind, Except.bind, Except.ok.injEq, found, exists_eq_left']
      by_cases within : base <+: target
      · rw [if_pos (List.isPrefixOf_iff_prefix.mpr within), Except.ok.injEq]
        exact ⟨fun same => ⟨same, same ▸ within⟩, And.left⟩
      · rw [if_neg (mt List.isPrefixOf_iff_prefix.mp within)]
        refine ⟨fun refused => (nomatch refused), ?_⟩
        rintro ⟨rfl, inside⟩
        exact absurd inside within

/-- On a disk without links, a path that passes the first check passes the second one. -/
theorem exists_resolveWithin_of_checkPath (linkFree : LinkFree disk) (rootClean : '\x00' ∉ root.text)
    (clean : '\x00' ∉ raw) (checked : Sql.checkPath raw = .ok ()) :
    ∃ place, disk.resolveWithin root raw = .ok place := by
  obtain ⟨base, based⟩ := Path.exists_plainReading rootClean []
  obtain ⟨place, placed⟩ := Path.exists_plainReading clean base
  refine ⟨place, resolveWithin_eq_ok_iff.mpr ⟨base, ?_, ?_, Sql.prefix_of_checkPath checked placed⟩⟩
  · rw [resolve_eq_plainReading linkFree Path.isPlain_nil, based]
  · rw [resolve_eq_plainReading linkFree (Path.isPlain_of_plainReading Path.isPlain_nil based), placed]

/-- A root and a path that can be resolved to the end: the second check takes the path exactly if
its place lies in the root. -/
theorem resolveWithin_eq_ok_iff_of_resolves {base goal : Path}
    (rooted : disk.Resolves [] root.text base) (resolves : disk.Resolves base raw goal) :
    disk.resolveWithin root raw = .ok place ↔ place = goal ∧ base <+: goal := by
  have based := rooted.resolve_eq Path.isPlain_nil (clear_nil disk)
  have placed := resolves.resolve_eq (rooted.isPlain Path.isPlain_nil) (rooted.clear (clear_nil disk))
  rw [resolveWithin_eq_ok_iff]
  constructor
  · rintro ⟨other, based', placed', within⟩
    obtain rfl := Except.ok.inj (based.symm.trans based')
    obtain rfl := Except.ok.inj (placed.symm.trans placed')
    exact ⟨rfl, within⟩
  · rintro ⟨rfl, within⟩
    exact ⟨base, based, placed, within⟩

end Disk

namespace Sql.ViewSource

variable {view : ViewSource} {disk : Disk} {root place : Path} {file : Text}

/-- The reader is asked for a place: the SQL is not given in place, and the file's path passes both
checks and leads to a file. -/
structure Asks (view : ViewSource) (disk : Disk) (root : Path) (file : Text) (place : Path) :
    Prop where
  noSql : ∀ sql, view.sql = some sql → Text.trim sql = []
  given : view.file = some file
  named : file ≠ []
  checked : checkPath file = .ok ()
  accepted : disk.resolveWithin root file = .ok place
  isFile : disk.isFile place = .ok true

private theorem filter_trim_eq_none_iff {sql : Option Text} :
    (sql.map Text.trim).filter (!·.isEmpty) = none ↔
      ∀ given, sql = some given → Text.trim given = [] := by
  cases sql <;> simp

/-- Where the reader is asked, its text is the SQL unless it is blank. -/
theorem Asks.text_eq (asks : view.Asks disk root file place) (read : Path → Except Failure Text) :
    view.text disk root read = (read place).bind fun text =>
      if (Text.trim text).isEmpty then .error (.emptySqlFile file) else .ok text := by
  have named : (some file).filter (!·.isEmpty) = some file := by simp [asks.named]
  rw [text, filter_trim_eq_none_iff.mpr asks.noSql]
  simp only [asks.given, named, asks.checked, asks.accepted, asks.isFile, bind, Except.bind]

/-- The SQL of a view depends on the reader only where it is asked. -/
theorem text_congr {read other : Path → Except Failure Text}
    (agree : ∀ file place, view.Asks disk root file place → read place = other place) :
    view.text disk root read = view.text disk root other := by
  unfold text
  split
  · rfl
  · rename_i noSql
    split
    · rfl
    · rename_i file given
      obtain ⟨given, named⟩ := Option.filter_eq_some_iff.mp given
      cases checked : checkPath file with
      | error failure => rfl
      | ok _ =>
        cases accepted : disk.resolveWithin root file with
        | error failure => simp only [bind, Except.bind]
        | ok place =>
          simp only [bind, Except.bind]
          split
          · rfl
          · rfl
          · rename_i isFile
            rw [agree file place ⟨filter_trim_eq_none_iff.mp noSql, given, by simpa using named,
              checked, accepted, isFile⟩]

/-- The reader of a view's SQL is asked for a place in the root only, and only behind both checks;
what it gives there is the SQL.  If the root and the path can be resolved to the end, it is the place
that the path is resolved to, which no link is at or on the way to.  On a disk without links, what
passes the first check passes the second one. -/
theorem text_reads_within (view : ViewSource) (disk : Disk) (root : Path) :
    (∀ read other : Path → Except Failure Text,
      (∀ file place, view.Asks disk root file place → read place = other place) →
        view.text disk root read = view.text disk root other) ∧
    (∀ file place, view.Asks disk root file place →
      (∀ read text, read place = .ok text → Text.trim text ≠ [] →
        view.text disk root read = .ok text) ∧
      (∃ base, disk.resolve [] root.text = .ok base ∧ base <+: place) ∧
      ∀ base goal, disk.Resolves [] root.text base → disk.Resolves base file goal →
        place = goal ∧ base <+: goal ∧ disk.Clear goal) ∧
    (disk.LinkFree → '\x00' ∉ root.text → ∀ raw, '\x00' ∉ raw → checkPath raw = .ok () →
      ∃ place, disk.resolveWithin root raw = .ok place) := by
  refine ⟨fun read other => text_congr, fun file place asks => ⟨?_, ?_, ?_⟩, ?_⟩
  · intro read text given nonblank
    rw [asks.text_eq, given]
    simp [Except.bind, nonblank]
  · obtain ⟨base, based, -, within⟩ := Disk.resolveWithin_eq_ok_iff.mp asks.accepted
    exact ⟨base, based, within⟩
  · intro base goal rooted resolves
    obtain ⟨same, within⟩ :=
      (Disk.resolveWithin_eq_ok_iff_of_resolves rooted resolves).mp asks.accepted
    exact ⟨same, within, resolves.clear (rooted.clear (Disk.clear_nil disk))⟩
  · exact fun linkFree rootClean raw => Disk.exists_resolveWithin_of_checkPath linkFree rootClean

/-- A view whose SQL is in a file. -/
def inFile : ViewSource where
  name := "v"
  file := some "a"

/-- A disk where the file is behind two links. -/
def linkedDisk : Disk where
  entries := [
    (["w".toList], .folder),
    (["w".toList, "a".toList], .link "d/q"),
    (["w".toList, "d".toList], .link "/w/e"),
    (["w".toList, "e".toList], .folder),
    (["w".toList, "e".toList, "q".toList], .file (Utf8.encode "select 1"))]

/-- The reader is asked for the file that both links lead to. -/
theorem text_reads_within_linkedDisk :
    inFile.Asks linkedDisk ["w".toList] "a" ["w".toList, "e".toList, "q".toList] ∧
      linkedDisk.Resolves [] (Path.text ["w".toList]) ["w".toList] ∧
      linkedDisk.Resolves ["w".toList] "a" ["w".toList, "e".toList, "q".toList] ∧
      linkedDisk.Clear ["w".toList, "e".toList, "q".toList] ∧
      inFile.text linkedDisk ["w".toList] (readPlain linkedDisk) = .ok "select 1" := by
  have asks : inFile.Asks linkedDisk ["w".toList] "a" ["w".toList, "e".toList, "q".toList] :=
    ⟨nofun, rfl, by decide, rfl, rfl, rfl⟩
  have rooted : linkedDisk.Resolves [] (Path.text ["w".toList]) ["w".toList] :=
    ⟨0, .step (by decide) nofun (.step (by decide) nofun .arrived)⟩
  have toFolder : linkedDisk.Leads 0 [] (Path.segments "/w/e") ["w".toList, "e".toList] :=
    .step (by decide) nofun (.step (by decide) nofun (.step (by decide) nofun .arrived))
  have toFile : linkedDisk.Leads 1 ["w".toList] (Path.segments "d/q")
      ["w".toList, "e".toList, "q".toList] :=
    .link (by decide) rfl toFolder (.step (by decide) nofun .arrived)
  have resolves : linkedDisk.Resolves ["w".toList] "a" ["w".toList, "e".toList, "q".toList] :=
    ⟨2, .link (by decide) rfl toFile .arrived⟩
  obtain ⟨reads, -, resolved⟩ :=
    (text_reads_within inFile linkedDisk ["w".toList]).2.1 "a" _ asks
  exact ⟨asks, rooted, resolves, (resolved _ _ rooted resolves).2.2, reads _ _ rfl (by decide)⟩

/-- A disk where the target of a link goes through a loop and then through a link out of the root. -/
def loopedDisk : Disk where
  entries := [
    (["w".toList], .folder),
    (["w".toList, "a".toList], .link "l/../d/x"),
    (["w".toList, "l".toList], .link "l"),
    (["w".toList, "d".toList], .link "../out"),
    (["out".toList], .folder),
    (["out".toList, "x".toList], .file (Utf8.encode "select 1"))]

/-- Behind a loop the reader is asked for a place that a link is on the way to, and reads a file out
of the root. -/
theorem text_reads_behind_loop :
    inFile.Asks loopedDisk ["w".toList] "a" ["w".toList, "d".toList, "x".toList] ∧
      ¬ loopedDisk.Clear ["w".toList, "d".toList, "x".toList] ∧
      loopedDisk.walk .existing ["w".toList, "d".toList, "x".toList] =
        .ok ["out".toList, "x".toList] ∧
      inFile.text loopedDisk ["w".toList] (readPlain loopedDisk) = .ok "select 1" := by
  refine ⟨⟨nofun, rfl, by decide, rfl, rfl, rfl⟩, fun clear => ?_, rfl, rfl⟩
  exact clear ["w".toList, "d".toList] (by decide) "../out" rfl

end Sql.ViewSource

end ReadOnlyViews
