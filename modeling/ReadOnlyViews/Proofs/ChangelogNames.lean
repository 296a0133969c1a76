import Mathlib.Data.List.Basic
import ReadOnlyViews.Changelog.Master

/-!
The file names of changelogs.  The name of a view's changelog gives away the stamp and the view, so
no two views share one, and none is taken for the changelog of a table.  A view gets the last of the
changelogs that it already has, and a fresh name only if it has none.
-/

namespace ReadOnlyViews

/-! ### Stamps are digits -/

namespace Text

private theorem isDecimal_of_mem_ofNat {n : Nat} {c : Char} (member : c ∈ ofNat n) : isDecimal c = true := by
  have digit := Nat.isDigit_of_mem_toDigits (by decide) (by decide) member
  simp [isDecimal, digit]

private theorem isDecimal_of_mem_ofNatPadded {width n : Nat} {c : Char} (member : c ∈ ofNatPadded width n) :
    isDecimal c = true := by
  rcases List.mem_append.mp member with padding | digit
  · rw [List.eq_of_mem_replicate padding]
    rfl
  · exact isDecimal_of_mem_ofNat digit

private theorem le_length_ofNatPadded (width n : Nat) : width ≤ (ofNatPadded width n).length := by
  simp only [ofNatPadded, List.length_append, List.length_replicate]
  omega

end Text

namespace Changelog

/-- A stamp as the name of a changelog carries it. -/
structure IsStamp (stamp : Text) : Prop where
  long : 14 ≤ stamp.length
  digits : ∀ c ∈ stamp, isDecimal c = true

private theorem isStamp_clockStamp (moment : Moment) (counter : Nat) :
    IsStamp (Clock.stamp moment counter) where
  long := by
    have year : 0 < (Text.ofNat moment.year).length := Nat.length_toDigits_pos
    have month := Text.le_length_ofNatPadded 2 moment.month
    have day := Text.le_length_ofNatPadded 2 moment.day
    have hour := Text.le_length_ofNatPadded 2 moment.hour
    have minute := Text.le_length_ofNatPadded 2 moment.minute
    have second := Text.le_length_ofNatPadded 2 moment.second
    have count := Text.le_length_ofNatPadded 3 counter
    simp only [Clock.stamp, Moment.digits, List.length_append]
    omega
  digits := by
    intro c member
    simp only [Clock.stamp, Moment.digits, List.mem_append] at member
    rcases member with (((((year | part) | part) | part) | part) | part) | part
    · exact Text.isDecimal_of_mem_ofNat year
    all_goals exact Text.isDecimal_of_mem_ofNatPadded part

private theorem isStamp_of_next {clock later : Clock} {stamp : Text}
    (drawn : clock.next = (.ok stamp, later)) : IsStamp stamp := by
  unfold Clock.next at drawn
  dsimp only at drawn
  split at drawn
  · cases drawn
    exact isStamp_clockStamp _ _
  · split at drawn
    · cases drawn
      exact isStamp_clockStamp _ _
    · split at drawn
      · cases drawn
        exact isStamp_clockStamp _ _
      · cases drawn

/-! ### Names of changelogs of views -/

private theorem takeWhile_stamp {stamp : Text} (isStamp : IsStamp stamp) {c : Char}
    (ends : isDecimal c = false) (rest : Text) :
    (stamp ++ c :: rest).takeWhile isDecimal = stamp := by
  rw [List.takeWhile_append_of_pos isStamp.digits, List.takeWhile_cons_of_neg (by simp [ends]),
    List.append_nil]

theorem dropWhile_stamp {stamp : Text} (isStamp : IsStamp stamp) {c : Char}
    (ends : isDecimal c = false) (rest : Text) :
    (stamp ++ c :: rest).dropWhile isDecimal = c :: rest := by
  rw [List.dropWhile_append_of_pos isStamp.digits, List.dropWhile_cons_of_neg (by simp [ends])]

/-- A file name is a changelog of a view exactly if it is a stamp, the view's part, and perhaps a
line feed. -/
theorem stampOf?_eq_some_iff {view file stamp : Text} :
    stampOf? view file = some stamp ↔ IsStamp stamp ∧
      (file = stamp ++ viewSuffix view ∨ file = stamp ++ (viewSuffix view ++ ['\n'])) := by
  unfold stampOf?
  dsimp only
  constructor
  · intro stamped
    split at stamped
    · rename_i shape
      cases stamped
      have rest := shape.2
      simp only [isUpToLineFeed, Bool.or_eq_true, beq_iff_eq] at rest
      have whole : file.takeWhile isDecimal ++ file.dropWhile isDecimal = file :=
        List.takeWhile_append_dropWhile
      refine ⟨⟨shape.1, List.all_eq_true.mp List.all_takeWhile⟩, ?_⟩
      rcases rest with rest | rest
      · exact .inl (by rw [← rest, whole])
      · exact .inr (by rw [← rest, whole])
    · cases stamped
  · rintro ⟨isStamp, spelled⟩
    have stamped (rest : Text)
        (ends : rest = viewSuffix view ∨ rest = viewSuffix view ++ ['\n']) :
        (stamp ++ rest).takeWhile isDecimal = stamp ∧ (stamp ++ rest).dropWhile isDecimal = rest := by
      rcases ends with rfl | rfl
      · exact ⟨takeWhile_stamp isStamp rfl _, dropWhile_stamp isStamp rfl _⟩
      · exact ⟨takeWhile_stamp isStamp rfl _, dropWhile_stamp isStamp rfl _⟩
    rcases spelled with rfl | rfl
    · obtain ⟨digits, rest⟩ := stamped _ (.inl rfl)
      rw [digits, rest, if_pos ⟨isStamp.long, by simp [isUpToLineFeed]⟩]
    · obtain ⟨digits, rest⟩ := stamped _ (.inr rfl)
      rw [digits, rest, if_pos ⟨isStamp.long, by simp [isUpToLineFeed]⟩]

/-- Behind the stamp a view's changelog is told from others by the first letter. -/
theorem exists_of_stampOf? {view file stamp : Text} (stamped : stampOf? view file = some stamp) :
    ∃ rest, file = stamp ++ '_' :: 'c' :: rest := by
  obtain ⟨-, spelled⟩ := stampOf?_eq_some_iff.mp stamped
  rcases spelled with rfl | rfl
  · exact ⟨"reate_view_".toList ++ view ++ ".xml".toList, rfl⟩
  · exact ⟨"reate_view_".toList ++ view ++ ".xml".toList ++ ['\n'], rfl⟩

/-- The name of a changelog that is made for a view is one of the view. -/
theorem stampOf?_viewFileName {stamp : Text} (isStamp : IsStamp stamp) (view : Text) :
    stampOf? view (viewFileName stamp view) = some stamp :=
  stampOf?_eq_some_iff.mpr ⟨isStamp, .inl rfl⟩

/-- A character of a changelog's name is a digit or one of the view's part, or the line feed. -/
theorem mem_of_stampOf? {view file stamp : Text} (stamped : stampOf? view file = some stamp)
    {c : Char} (member : c ∈ file) : isDecimal c = true ∨ c ∈ viewSuffix view ∨ c = '\n' := by
  obtain ⟨isStamp, spelled⟩ := stampOf?_eq_some_iff.mp stamped
  rcases spelled with rfl | rfl
  · rcases List.mem_append.mp member with digit | rest
    · exact .inl (isStamp.digits c digit)
    · exact .inr (.inl rest)
  · rcases List.mem_append.mp member with digit | rest
    · exact .inl (isStamp.digits c digit)
    · rcases List.mem_append.mp rest with rest | feed
      · exact .inr (.inl rest)
      · exact .inr (.inr (List.mem_singleton.mp feed))

theorem notMem_viewSuffix {view : Text} {c : Char} (absent : c ∉ view)
    (front : c ∉ "_create_view_".toList) (back : c ∉ ".xml".toList) : c ∉ viewSuffix view := by
  intro member
  rcases List.mem_append.mp member with rest | inBack
  · rcases List.mem_append.mp rest with inFront | inView
    · exact front inFront
    · exact absent inView
  · exact back inBack

/-- A character that no changelog's name needs is in one only if it is in the view's name. -/
theorem notMem_of_stampOf? {view file stamp : Text} (stamped : stampOf? view file = some stamp)
    {c : Char} (absent : c ∉ view) (digit : isDecimal c = false) (front : c ∉ "_create_view_".toList)
    (back : c ∉ ".xml".toList) (feed : c ≠ '\n') : c ∉ file := by
  intro member
  rcases mem_of_stampOf? stamped member with isDigit | rest | isFeed
  · rw [digit] at isDigit
    cases isDigit
  · exact notMem_viewSuffix absent front back rest
  · exact feed isFeed

/-- The last character of a changelog's name. -/
theorem getLast?_of_stampOf? {view file stamp : Text} (stamped : stampOf? view file = some stamp) :
    file.getLast? = some 'l' ∨ file.getLast? = some '\n' := by
  obtain ⟨-, spelled⟩ := stampOf?_eq_some_iff.mp stamped
  rcases spelled with rfl | rfl
  · left
    have ends : viewSuffix view = "_create_view_".toList ++ view ++ ".xm".toList ++ ['l'] :=
      (List.append_assoc _ ".xm".toList ['l']).symm
    rw [ends, ← List.append_assoc, List.getLast?_concat]
  · right
    rw [← List.append_assoc, List.getLast?_concat]

/-- The name of a changelog belongs to one view. -/
theorem view_eq_of_stampOf? {view other file stamp digits : Text}
    (stamped : stampOf? view file = some stamp) (again : stampOf? other file = some digits)
    (viewFeed : '\n' ∉ view) (otherFeed : '\n' ∉ other) : view = other := by
  obtain ⟨isStamp, spelled⟩ := stampOf?_eq_some_iff.mp stamped
  obtain ⟨isDigits, respelled⟩ := stampOf?_eq_some_iff.mp again
  have behind {name stamp : Text} (isStamp : IsStamp stamp)
      (spelled : file = stamp ++ viewSuffix name ∨ file = stamp ++ (viewSuffix name ++ ['\n'])) :
      file.dropWhile isDecimal = viewSuffix name ∨
        file.dropWhile isDecimal = viewSuffix name ++ ['\n'] := by
    rcases spelled with rfl | rfl
    · exact .inl (dropWhile_stamp isStamp rfl _)
    · exact .inr (dropWhile_stamp isStamp rfl _)
  have noFeed {name : Text} (free : '\n' ∉ name) : '\n' ∉ viewSuffix name :=
    notMem_viewSuffix free (by decide) (by decide)
  have cancel (same : viewSuffix view = viewSuffix other) : view = other := by
    have shorter := List.append_cancel_right same
    exact List.append_cancel_left shorter
  rcases behind isStamp spelled with one | one <;> rcases behind isDigits respelled with two | two
  · exact cancel (one.symm.trans two)
  · refine absurd ?_ (noFeed viewFeed)
    rw [one.symm.trans two]
    exact List.mem_append_right _ (List.mem_singleton.mpr rfl)
  · refine absurd ?_ (noFeed otherFeed)
    rw [two.symm.trans one]
    exact List.mem_append_right _ (List.mem_singleton.mpr rfl)
  · exact cancel (List.append_cancel_right (one.symm.trans two))

/-! ### The changelog that a view gets -/

theorem findView?_eq_none_iff {files : List Text} {view : Text} :
    findView? files view = none ↔ ∀ file ∈ files, stampOf? view file = none := by
  simp only [findView?, List.findSome?_eq_none_iff, List.mem_reverse, Option.map_eq_none_iff,
    (Text.sorted_perm files).mem_iff]

/-- The changelog that is found is the last one of the view. -/
theorem findView?_eq_some {files : List Text} {view name stamp : Text}
    (found : findView? files view = some (name, stamp)) :
    name ∈ files ∧ stampOf? view name = some stamp ∧
      ∀ file ∈ files, stampOf? view file ≠ none → Text.before file name = true := by
  unfold findView? at found
  obtain ⟨later, file, earlier, listed, matched, others⟩ := List.findSome?_eq_some_iff.mp found
  obtain ⟨digits, stamped, same⟩ := Option.map_eq_some_iff.mp matched
  obtain ⟨rfl, rfl⟩ : file = name ∧ digits = stamp := by simpa using same
  have mem_iff (other : Text) : other ∈ files ↔ other ∈ later ++ file :: earlier := by
    rw [← listed, List.mem_reverse, (Text.sorted_perm files).mem_iff]
  refine ⟨(mem_iff file).mpr (by simp), stamped, fun other member isView => ?_⟩
  have ordered : (later ++ file :: earlier).Pairwise fun a b => Text.before b a = true := by
    rw [← listed, List.pairwise_reverse]
    exact Text.sorted_pairwise files
  rcases List.mem_append.mp ((mem_iff other).mp member) with isLater | rest
  · exact absurd (by simpa using others other isLater) isView
  · rcases List.mem_cons.mp rest with rfl | isEarlier
    · exact Text.before_refl other
    · exact (List.pairwise_cons.mp (List.pairwise_append.mp ordered).2.1).1 other isEarlier

/-- The changelog that a view gets: the last one that it has, or a fresh one if it has none. -/
theorem nextView_cases {existing : List Text} {view name stamp : Text} {clock later : Clock}
    (drawn : nextView existing view clock = (.ok (name, stamp), later)) :
    stampOf? view name = some stamp ∧
      ((name ∈ existing ∧
          ∀ file ∈ existing, stampOf? view file ≠ none → Text.before file name = true) ∨
        ∀ file ∈ existing, stampOf? view file = none) := by
  unfold nextView at drawn
  split at drawn
  · rename_i found sought
    obtain ⟨rfl, rfl⟩ : found = (name, stamp) ∧ clock = later := by simpa using drawn
    obtain ⟨member, stamped, greatest⟩ := findView?_eq_some sought
    exact ⟨stamped, .inl ⟨member, greatest⟩⟩
  · rename_i sought
    rcases next : clock.next with ⟨result, ticked⟩
    cases result with
    | error failure => simp [next, Except.map] at drawn
    | ok fresh =>
      simp only [next, Except.map, Prod.mk.injEq, Except.ok.injEq] at drawn
      obtain ⟨⟨rfl, rfl⟩, -⟩ := drawn
      exact ⟨stampOf?_viewFileName (isStamp_of_next next) view,
        .inr (findView?_eq_none_iff.mp sought)⟩

/-! ### Names of changelogs of tables -/

/-- What a changelog of an entity's table, or of its constraints, is called. -/
theorem exists_of_isTable {entityClass file : Text}
    (ofTable : isTable entityClass file ∨ isConstraints entityClass file) :
    ∃ stamp rest, file = stamp ++ '_' :: 'a' :: rest ∧ IsStamp stamp ∧
      ∀ c ∈ rest, c ∈ entityClass ∨ c ∈ "dded_entity_constraints_.xml\n".toList := by
  have spell {more : Text} (stamped : isStamped ('_' :: 'a' :: more) file = true)
      (letters : ∀ c ∈ more, c ∈ entityClass ∨ c ∈ "dded_entity_constraints_.xml\n".toList) :
      ∃ stamp rest, file = stamp ++ '_' :: 'a' :: rest ∧ IsStamp stamp ∧
        ∀ c ∈ rest, c ∈ entityClass ∨ c ∈ "dded_entity_constraints_.xml\n".toList := by
    simp only [isStamped, isUpToLineFeed, Bool.and_eq_true, Bool.or_eq_true, beq_iff_eq,
      List.all_eq_true] at stamped
    obtain ⟨⟨long, digits⟩, ends⟩ := stamped
    have whole := List.take_append_drop 14 file
    rcases ends with ends | ends
    · exact ⟨file.take 14, more, by rw [← ends, whole], ⟨by omega, digits⟩, letters⟩
    · refine ⟨file.take 14, more ++ ['\n'], ?_, ⟨by omega, digits⟩, fun c member => ?_⟩
      · rw [← List.cons_append, ← List.cons_append, ← ends, whole]
      · rcases List.mem_append.mp member with inMore | feed
        · exact letters c inMore
        · rw [List.mem_singleton.mp feed]
          exact .inr (by decide)
  have named {front : Text} (known : front ⊆ "dded_entity_constraints_.xml\n".toList) :
      ∀ c ∈ front ++ entityClass ++ ".xml".toList,
        c ∈ entityClass ∨ c ∈ "dded_entity_constraints_.xml\n".toList := by
    intro c member
    rcases List.mem_append.mp member with rest | inBack
    · rcases List.mem_append.mp rest with inFront | inClass
      · exact .inr (known inFront)
      · exact .inl inClass
    · have back : ".xml".toList ⊆ "dded_entity_constraints_.xml\n".toList := by decide
      exact .inr (back inBack)
  rcases ofTable with table | constraints
  · exact @spell ("dded_entity_".toList ++ entityClass ++ ".xml".toList) table
      (named (by decide))
  · exact @spell ("dded_entity_constraints_".toList ++ entityClass ++ ".xml".toList) constraints
      (named (by decide))

/-- No changelog of a view is taken for one of a table. -/
theorem stampOf?_of_isTable {entityClass file : Text}
    (ofTable : isTable entityClass file ∨ isConstraints entityClass file) (view : Text) :
    stampOf? view file = none := by
  obtain ⟨stamp, rest, rfl, isStamp, -⟩ := exists_of_isTable ofTable
  cases stamped : stampOf? view (stamp ++ '_' :: 'a' :: rest) with
  | none => rfl
  | some digits =>
    obtain ⟨more, same⟩ := exists_of_stampOf? stamped
    obtain ⟨isDigits, -⟩ := stampOf?_eq_some_iff.mp stamped
    have cut := dropWhile_stamp isStamp (c := '_') rfl ('a' :: rest)
    rw [same, dropWhile_stamp isDigits rfl] at cut
    cases cut

end Changelog

end ReadOnlyViews
