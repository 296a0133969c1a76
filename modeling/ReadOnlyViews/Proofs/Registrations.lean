import Mathlib.Data.List.DropRight
import ReadOnlyViews.Proofs.Includes
import ReadOnlyViews.Proofs.LineMatches

/-!
Changelogs that are registered one after another.  Each registration puts one include line before
the line of the master's end tag, unless the changelog is included already.  The new lines neither
hold the end tag nor include another changelog, so the place for the next line stays before the same
line, and what is new to the master can be told from the master that the first registration found.
-/

namespace ReadOnlyViews

theorem Text.exists_offsetOf? {part text : Text} (inside : part <:+: text) :
    ∃ offset, offsetOf? part text = some offset := by
  induction text with
  | nil =>
    obtain rfl := List.infix_nil.mp inside
    exact ⟨0, rfl⟩
  | cons c text ih =>
    rw [offsetOf?]
    split
    · exact ⟨0, rfl⟩
    · rename_i later
      rcases List.infix_cons_iff.mp inside with starts | further
      · exact absurd (isPrefixOf_iff.mpr starts) later
      · obtain ⟨offset, found⟩ := ih further
        exact ⟨offset + 1, by rw [found]; rfl⟩

namespace Document

private theorem lineOf_cons_succ (c : Char) (rest : Text) (offset : Nat) :
    lineOf (c :: rest) (offset + 1) = lineOf rest offset + if c = '\n' then 1 else 0 := by
  rw [lineOf, List.take_succ_cons, Text.lineFeeds, List.count_cons, lineOf, Text.lineFeeds]
  simp only [beq_iff_eq]

/-- A part without line ends that a text starts with is on its first line. -/
theorem includes_first_line {part text line : Text} {others : List Text} (free : '\n' ∉ part)
    (unreturned : '\r' ∉ part) (cut : lines text = line :: others) (starts : part <+: text) :
    Text.includes part line = true := by
  obtain ⟨rest, rfl⟩ := starts
  obtain ⟨tail, behind, first, -⟩ := exists_first_line free unreturned rest
  obtain ⟨rfl, -⟩ := List.cons.inj (cut.symm.trans first)
  exact Text.includes_iff.mpr (List.prefix_append part tail).isInfix

/-- A part without line ends is first found on the first line that has it. -/
theorem lineOf_offsetOf? {part text : Text} {offset : Nat} (nonempty : part ≠ [])
    (free : '\n' ∉ part) (unreturned : '\r' ∉ part)
    (found : Text.offsetOf? part text = some offset) :
    lineOf text offset = ((lines text).takeWhile fun line => !Text.includes part line).length := by
  have absent : Text.includes part [] = false := by simpa [Text.includes] using nonempty
  induction text generalizing offset with
  | nil => simp [Text.offsetOf?, nonempty] at found
  | cons c rest ih =>
    obtain ⟨line, others, cut⟩ := List.exists_cons_of_ne_nil (lines_ne_nil (c :: rest))
    rw [Text.offsetOf?] at found
    split at found
    · rename_i starts
      obtain rfl := Option.some.inj found
      rw [cut, List.takeWhile_cons_of_neg]
      · rfl
      · rw [includes_first_line free unreturned cut (Text.isPrefixOf_iff.mp starts)]
        decide
    · rename_i later
      obtain ⟨before, foundRest, rfl⟩ := Option.map_eq_some_iff.mp found
      rw [lineOf_cons_succ, ih foundRest]
      by_cases fed : c = '\n'
      · rw [fed, if_pos rfl, lines, List.takeWhile_cons_of_pos (by simp [absent])]
        rfl
      rw [if_neg fed, Nat.add_zero]
      by_cases ended : c = '\r' ∧ rest.head? = some '\n'
      · -- a long line end is cut off like a short one
        obtain ⟨tail, rfl⟩ := List.head?_eq_some_iff.mp ended.2
        rw [ended.1, lines, lines]
      · obtain ⟨first, more, cutRest⟩ := List.exists_cons_of_ne_nil (lines_ne_nil rest)
        have notAhead : ¬ part <+: c :: first := by
          intro ahead
          have firstAhead : first <+: rest := by
            rcases exists_rest_of_lines cutRest with ⟨rfl, -⟩ | ⟨ending, tail, -, rfl, -⟩
            · exact List.prefix_refl _
            · exact List.prefix_append _ _
          exact later (Text.isPrefixOf_iff.mpr
            (ahead.trans (List.cons_prefix_cons.mpr ⟨rfl, firstAhead⟩)))
        have same : Text.includes part (c :: first) = Text.includes part first := by
          rw [Text.includes, Bool.or_eq_right_iff_imp]
          exact fun ahead => absurd (Text.isPrefixOf_iff.mp ahead) notAhead
        rw [lines_cons_plain fed (fun isReturn next => ended ⟨isReturn, next⟩), cutRest,
          List.modifyHead_cons, List.takeWhile_cons, List.takeWhile_cons, same]
        split <;> rfl

/-- Lines put in before the first line that passes no test stand between the lines ahead and the
rest. -/
theorem insertAt_length_takeWhile (test : Text → Bool) (block all : List Text) :
    insertAt (all.takeWhile test).length block all =
      all.takeWhile test ++ block ++ all.dropWhile test := by
  have split : all.takeWhile test ++ all.dropWhile test = all := List.takeWhile_append_dropWhile
  have front : (all.takeWhile test ++ all.dropWhile test).take (all.takeWhile test).length =
      all.takeWhile test := List.take_left
  have back : (all.takeWhile test ++ all.dropWhile test).drop (all.takeWhile test).length =
      all.dropWhile test := List.drop_left
  rw [split] at front back
  rw [insertAt, front, back]

end Document

namespace Changelog

open Document (lines)

/-- The tag before which registrations go. -/
def endTag : Text := "</databaseChangeLog>"

/-- The include of a changelog, as it is written. -/
def includeTag (name : Text) : Text :=
  "<include file=".toList ++ '"' ::
    (includeFolder ++ (name ++ '"' :: " relativeToChangelogFile=\"false\"/>".toList))

/-- The line that a registration puts in. -/
def includeLine (name : Text) : Text := "    ".toList ++ includeTag name

private theorem lines_includeFragment (name : Text) :
    (includeFragment name).lines = [includeLine name] := by
  show [(_ ++ _) ++ name ++ _] = [includeLine name]
  rw [List.append_assoc]
  rfl

/-- Whether a line is none with the end tag. -/
def isAhead (line : Text) : Bool := !Text.includes endTag line

/-- A name that can be spelled in an include line of its own. -/
structure Includable (name : Text) : Prop where
  noQuote : '"' ∉ name
  noBracket : '<' ∉ name
  noLineFeed : '\n' ∉ name

instance (name : Text) : Decidable (Includable name) :=
  decidable_of_iff ('"' ∉ name ∧ '<' ∉ name ∧ '\n' ∉ name)
    ⟨fun ⟨noQuote, noBracket, noLineFeed⟩ => ⟨noQuote, noBracket, noLineFeed⟩,
      fun named => ⟨named.noQuote, named.noBracket, named.noLineFeed⟩⟩

private theorem isAhead_includeLine {name : Text} (noBracket : '<' ∉ name) :
    isAhead (includeLine name) = true := by
  -- the line has one opening bracket, which no slash follows
  have behind : '<' ∉ "include file=".toList ++ '"' ::
      (includeFolder ++ (name ++ '"' :: " relativeToChangelogFile=\"false\"/>".toList)) := by
    simp only [List.mem_append, List.mem_cons, not_or]
    exact ⟨by decide, by decide, by decide, noBracket, by decide, by decide⟩
  have none : Text.occurrences endTag (includeLine name) = 0 := by
    have other : ¬ endTag <+: '<' :: ("include file=".toList ++ '"' ::
        (includeFolder ++ (name ++ '"' :: " relativeToChangelogFile=\"false\"/>".toList))) := by
      intro starts
      exact absurd (List.cons_prefix_cons.mp (List.cons_prefix_cons.mp starts).2).1 (by decide)
    have rest : Text.occurrences ('<' :: endTag.tail) _ = _ :=
      Text.occurrences_append_of_head behind []
    rw [List.append_nil] at rest
    calc Text.occurrences endTag (includeLine name)
        = Text.occurrences endTag (includeTag name) :=
          Text.occurrences_append_of_head (by decide) _
      _ = _ := Text.occurrences_cons_of_not_begins other
      _ = 0 := rest
  rw [isAhead, Bool.not_eq_true', Text.includes_eq_false_iff]
  exact (Text.occurrences_eq_zero_iff (by decide)).mp none

private theorem lineFeed_notMem_includeLine {name : Text} (noLineFeed : '\n' ∉ name) :
    '\n' ∉ includeLine name := by
  unfold includeLine includeTag
  simp only [List.mem_append, List.mem_cons, not_or]
  exact ⟨by decide, by decide, by decide, by decide, noLineFeed, by decide, by decide⟩

private theorem getLast?_includeLine (name : Text) : (includeLine name).getLast? = some '>' := by
  have spelled : includeLine name = ("    <include file=".toList ++ '"' :: (includeFolder ++ name)) ++
      '"' :: " relativeToChangelogFile=\"false\"/>".toList := by
    simp only [List.append_assoc, List.cons_append]
    rfl
  rw [spelled, List.getLast?_append_of_ne_nil _ (by simp)]
  decide

private theorem presentIn_eq_includes (name master : Text) :
    (includeFragment name).witness.presentIn master = Text.includes (quotedPath name) master := rfl

private theorem includes_quotedPath_eq_false_iff {name master : Text} :
    Text.includes (quotedPath name) master = false ↔ includeCount name master = 0 := by
  rw [includeCount_eq_zero_iff, Text.includes_eq_false_iff]

/-- The changelogs that are registered in a row, each in the master that the one before left. -/
def registerAll (names : List Text) (master : Text) : Text :=
  names.foldl (fun text name => (register name text).text) master

/-- The names that a master does not include yet, each once, in order of first occurrence. -/
def fresh (master : Text) (names : List Text) : List Text :=
  (names.filter fun name => !Text.includes (quotedPath name) master).eraseDups

theorem register_of_included {name master : Text}
    (included : Text.includes (quotedPath name) master = true) :
    (register name master).text = master := by
  rw [register, splice, presentIn_eq_includes, if_pos included]

/-- A registration that is not there yet stands before the first line with the end tag. -/
theorem lines_register {name master : Text} {offset : Nat}
    (found : Text.offsetOf? endTag master = some offset)
    (absent : Text.includes (quotedPath name) master = false) :
    lines (register name master).text =
      (lines master).takeWhile isAhead ++ lines (includeLine name) ++
        (lines master).dropWhile isAhead := by
  have place : Document.lineOf master offset = ((lines master).takeWhile isAhead).length :=
    Document.lineOf_offsetOf? (by decide) (by decide) (by decide) found
  have text : (register name master).text = Document.render master
      (Document.insertAt (Document.lineOf master offset) [includeLine name] (lines master)) := by
    have first : [endTag].findSome? (Text.offsetOf? · master) = some offset := by
      rw [List.findSome?_cons, found]
    show (splice (includeFragment name) [endTag] master).text = _
    rw [splice, presentIn_eq_includes, absent, if_neg Bool.false_ne_true]
    dsimp only
    rw [first, lines_includeFragment]
    rfl
  rw [text, Document.lines_render_insertAt_of_lt (Document.lineOf_lt master offset)
    (by simp [getLast?_includeLine]), place, Document.insertAt_length_takeWhile]
  simp

/-- The lines of a text, without an empty last one. -/
def keptLines (text : Text) : List Text :=
  if (lines text).getLast? = some [] then (lines text).dropLast else lines text

/-- Without an end tag a registration goes to the end, between two empty lines. -/
theorem exists_lines_register {name master : Text} (none : Text.offsetOf? endTag master = none)
    (absent : Text.includes (quotedPath name) master = false) :
    ∃ shown, lines (register name master).text = shown ++ [[]] ++ lines (includeLine name) ++ [[]] ∧
      Document.Ended (keptLines master) shown := by
  have text : (register name master).text = Document.render master
      (keptLines master ++ [[], includeLine name, []]) := by
    have unplaced : [endTag].findSome? (Text.offsetOf? · master) = Option.none := by
      rw [List.findSome?_cons, none]
      rfl
    show (splice (includeFragment name) [endTag] master).text = _
    rw [splice, presentIn_eq_includes, absent, if_neg Bool.false_ne_true]
    dsimp only
    rw [unplaced, lines_includeFragment]
    simp [keptLines]
  have kept : (keptLines master).Sublist (lines master) := by
    unfold keptLines
    split
    · exact List.dropLast_sublist _
    · exact List.Sublist.refl _
  have longer : keptLines master ++ [[], includeLine name, []] ≠ lines master := by
    intro same
    have most : (lines master).length ≤ (keptLines master).length + 1 := by
      unfold keptLines
      split
      · rw [List.length_dropLast]
        omega
      · exact Nat.le_succ _
    have long := congrArg List.length same
    rw [List.length_append] at long
    simp only [List.length_cons, List.length_nil] at long
    omega
  have appended : lines (Text.join (Document.newline master) [[], includeLine name, []]) =
      [[]] ++ lines (includeLine name) ++ [[]] := by
    rw [Document.lines_join (Document.isLineEnd_newline master) (by simp)]
    · simp [lines]
    · simp [getLast?_includeLine]
  rw [text, Document.render, if_neg longer]
  by_cases empty : keptLines master = []
  · exact ⟨[], by rw [empty, List.nil_append, appended]; rfl, empty ▸ .same _⟩
  · obtain ⟨shown, cut, ended⟩ := Document.exists_lines_append_lineEnd
      (Text.join (Document.newline master) (keptLines master)) (Document.isLineEnd_newline master)
      (Text.join (Document.newline master) [[], includeLine name, []])
    rw [((Document.separable_lines master).of_sublist kept).lines_join empty] at ended
    refine ⟨shown, ?_, ended⟩
    rw [Document.join_append empty (by simp), cut, appended]
    simp

/-- The lines of a master that spell the path of a changelog. -/
def pathLines (name master : Text) : List Text :=
  (lines master).filter (Text.includes (quotedPath name))

theorem pathLines_eq_nil_iff {name master : Text} (noLineFeed : '\n' ∉ name) :
    pathLines name master = [] ↔ Text.includes (quotedPath name) master = false := by
  rw [pathLines, List.filter_eq_nil_iff, Text.includes_eq_false_iff,
    (withinLine_quotedPath noLineFeed).infix_iff]
  simp only [Text.includes_iff, not_exists, not_and]

/-- An include line spells the path of its own changelog and of no other. -/
theorem pathLines_includeLine {name file : Text} (nameQuote : '"' ∉ name) (fileQuote : '"' ∉ file)
    (noLineFeed : '\n' ∉ name) :
    pathLines name (includeLine file) = if name = file then [includeLine name] else [] := by
  have counted := includeCount_includeLine nameQuote fileQuote
  rw [lines_includeFragment, Document.occurrencesIn, Document.occurrencesIn, Nat.add_zero] at counted
  split
  · rename_i same
    subst same
    rw [if_pos rfl] at counted
    have spelled : Text.includes (quotedPath name) (includeLine name) = true := by
      cases present : Text.includes (quotedPath name) (includeLine name) with
      | true => rfl
      | false =>
        rw [includes_quotedPath_eq_false_iff, includeCount, counted] at present
        cases present
    rw [pathLines, Document.lines_eq_singleton (lineFeed_notMem_includeLine noLineFeed),
      List.filter_cons_of_pos spelled, List.filter_nil]
  · rename_i different
    rw [if_neg different] at counted
    rw [pathLines_eq_nil_iff noLineFeed, includes_quotedPath_eq_false_iff]
    exact counted

/-- As many lines as before spell the path of a changelog, and none of its include lines is lost. -/
structure Carries (name before after : Text) : Prop where
  length_eq : (pathLines name after).length = (pathLines name before).length
  count_le : (pathLines name before).count (includeLine name) ≤
    (pathLines name after).count (includeLine name)

theorem Carries.of_eq {name before after : Text} (same : pathLines name after = pathLines name before) :
    Carries name before after := ⟨by rw [same], by rw [same]⟩

theorem Carries.trans {name first second third : Text} (front : Carries name first second)
    (back : Carries name second third) : Carries name first third :=
  ⟨back.length_eq.trans front.length_eq, Nat.le_trans front.count_le back.count_le⟩

/-- A single line that spells the path, if it is the include line, stays the only one. -/
theorem Carries.pathLines_eq {name before after : Text} (carries : Carries name before after)
    (single : pathLines name before = [includeLine name]) :
    pathLines name after = [includeLine name] := by
  obtain ⟨length_eq, count_le⟩ := carries
  rw [single] at length_eq count_le
  obtain ⟨line, listed⟩ := List.length_eq_one_iff.mp length_eq
  rw [listed, List.count_cons_self, List.count_nil] at count_le
  obtain rfl : includeLine name = line :=
    List.mem_singleton.mp (List.count_pos_iff.mp count_le)
  exact listed

/-- A line end that takes over a carriage return changes no line that spells the path, its end
aside. -/
theorem filter_path_of_ended {name : Text} (noLineFeed : '\n' ∉ name) {all shown : List Text}
    (ended : Document.Ended all shown) :
    (shown.filter (Text.includes (quotedPath name))).length =
        (all.filter (Text.includes (quotedPath name))).length ∧
      (all.filter (Text.includes (quotedPath name))).count (includeLine name) ≤
        (shown.filter (Text.includes (quotedPath name))).count (includeLine name) := by
  cases ended with
  | same => exact ⟨rfl, Nat.le_refl _⟩
  | returned front last =>
    have other : last ++ ['\r'] ≠ includeLine name := by
      intro same
      have ends := getLast?_includeLine name
      rw [← same, List.getLast?_concat] at ends
      cases ends
    simp only [List.filter_append, List.filter_cons, List.filter_nil,
      (withinLine_quotedPath noLineFeed).includes_concat_return]
    split
    · simp [List.count_append, other]
    · simp

/-- A registration that is not there yet adds the include line to the lines that spell a path. -/
theorem exists_pathLines_register {name file master : Text} (noLineFeed : '\n' ∉ name)
    (absent : Text.includes (quotedPath file) master = false) :
    ∃ front back, pathLines name (register file master).text =
        front ++ pathLines name (includeLine file) ++ back ∧
      (front ++ back).length = (pathLines name master).length ∧
      (pathLines name master).count (includeLine name) ≤ (front ++ back).count (includeLine name) := by
  cases found : Text.offsetOf? endTag master with
  | some offset =>
    refine ⟨((lines master).takeWhile isAhead).filter (Text.includes (quotedPath name)),
      ((lines master).dropWhile isAhead).filter (Text.includes (quotedPath name)), ?_, ?_⟩
    · rw [pathLines, lines_register found absent, List.filter_append, List.filter_append]
      rfl
    · rw [← List.filter_append, List.takeWhile_append_dropWhile]
      exact ⟨rfl, Nat.le_refl _⟩
  | none =>
    have blank : [[]].filter (Text.includes (quotedPath name)) = [] := rfl
    obtain ⟨shown, cut, ended⟩ := exists_lines_register found absent
    obtain ⟨length_eq, count_le⟩ := filter_path_of_ended noLineFeed ended
    refine ⟨shown.filter (Text.includes (quotedPath name)), [], ?_, ?_⟩
    · rw [pathLines, cut, List.filter_append, List.filter_append, List.filter_append, blank]
      simp only [List.append_nil]
      rfl
    · have kept : (keptLines master).filter (Text.includes (quotedPath name)) =
          pathLines name master := by
        unfold keptLines pathLines
        split
        · rename_i last
          obtain ⟨front, listed⟩ := List.getLast?_eq_some_iff.mp last
          rw [listed, List.dropLast_concat, List.filter_append, blank, List.append_nil]
        · rfl
      rw [List.append_nil, ← kept]
      exact ⟨length_eq, count_le⟩

/-- A changelog that no line spells is registered by its include line alone. -/
theorem pathLines_register_self {name master : Text} (noQuote : '"' ∉ name) (noLineFeed : '\n' ∉ name)
    (absent : Text.includes (quotedPath name) master = false) :
    pathLines name (register name master).text = [includeLine name] := by
  obtain ⟨front, back, added, length_eq, -⟩ := exists_pathLines_register noLineFeed absent
  rw [(pathLines_eq_nil_iff noLineFeed).mpr absent, List.length_nil, List.length_eq_zero_iff,
    List.append_eq_nil_iff] at length_eq
  rw [added, length_eq.1, length_eq.2, pathLines_includeLine noQuote noQuote noLineFeed, if_pos rfl]
  rfl

/-- The registration of a changelog carries every other one, and its own if that is there. -/
theorem carries_register {name file master : Text} (nameQuote : '"' ∉ name) (fileQuote : '"' ∉ file)
    (noLineFeed : '\n' ∉ name)
    (other : name = file → Text.includes (quotedPath name) master = true) :
    Carries name master (register file master).text := by
  cases present : Text.includes (quotedPath file) master with
  | true =>
    rw [register_of_included present]
    exact .of_eq rfl
  | false =>
    have different : name ≠ file := by
      rintro rfl
      cases present.symm.trans (other rfl)
    obtain ⟨front, back, added, length_eq, count_le⟩ := exists_pathLines_register noLineFeed present
    rw [pathLines_includeLine nameQuote fileQuote noLineFeed, if_neg different,
      List.append_nil] at added
    exact ⟨by rw [added, length_eq], by rw [added]; exact count_le⟩

/-- Behind a registration the name that was registered is no longer new, and all others are as new
as before. -/
theorem fresh_cons_of_absent {name master : Text} {names : List Text} (named : Includable name)
    (spelled : ∀ other ∈ names, Includable other)
    (absent : Text.includes (quotedPath name) master = false) :
    fresh master (name :: names) = name :: fresh (register name master).text names := by
  rw [fresh, List.filter_cons_of_pos (by simp [absent]), List.eraseDups_cons, fresh,
    List.filter_filter]
  congr 2
  refine List.filter_congr fun other member => ?_
  have counted := includeCount_register (spelled other member).noQuote named.noQuote
    (spelled other member).noLineFeed master
  rw [includes_quotedPath_eq_false_iff] at absent
  rw [Bool.eq_iff_iff, Bool.and_eq_true, Bool.not_eq_true', Bool.not_eq_true', Bool.not_eq_true',
    includes_quotedPath_eq_false_iff, includes_quotedPath_eq_false_iff, counted, beq_eq_false_iff_ne]
  by_cases same : other = name
  · simp [same, absent]
  · simp [same]

private theorem includeCount_registerAll {name : Text} (noQuote : '"' ∉ name) (noLineFeed : '\n' ∉ name)
    {names : List Text} (spelled : ∀ other ∈ names, Includable other) (master : Text) :
    includeCount name (registerAll names master) =
      if name ∈ names ∧ includeCount name master = 0 then 1 else includeCount name master := by
  induction names generalizing master with
  | nil => simp [registerAll]
  | cons first names ih =>
    have counted := includeCount_register noQuote (spelled first (by simp)).noQuote noLineFeed master
    rw [registerAll, List.foldl_cons, ← registerAll,
      ih (fun other member => spelled other (by simp [member])), counted]
    by_cases same : name = first
    · subst same
      by_cases none : includeCount name master = 0 <;> simp [none]
    · simp [same]

/-- Any number of registrations puts one line for each changelog that is new to the master between
the lines before its end tag and the rest, in the order in which they are first asked for.  No
changelog is taken for another: each is included as often as before, or once where it was missing. -/
theorem lines_registerAll {master : Text} (anchored : endTag <:+: master) {names : List Text}
    (spelled : ∀ name ∈ names, Includable name) :
    lines (registerAll names master) = (lines master).takeWhile isAhead ++
        (fresh master names).map includeLine ++ (lines master).dropWhile isAhead ∧
      ∀ name, '"' ∉ name → '\n' ∉ name → includeCount name (registerAll names master) =
        if name ∈ names ∧ includeCount name master = 0 then 1 else includeCount name master := by
  refine ⟨?_, fun name noQuote noLineFeed => includeCount_registerAll noQuote noLineFeed spelled master⟩
  induction names generalizing master with
  | nil =>
    rw [fresh, List.filter_nil, List.eraseDups_nil, List.map_nil, List.append_nil,
      List.takeWhile_append_dropWhile]
    rfl
  | cons name names ih =>
    have named := spelled name (by simp)
    have others : ∀ other ∈ names, Includable other := fun other member =>
      spelled other (by simp [member])
    rw [registerAll, List.foldl_cons, ← registerAll]
    cases included : Text.includes (quotedPath name) master with
    | true =>
      rw [register_of_included included, ih anchored others, fresh, fresh,
        List.filter_cons_of_neg (by simp [included])]
    | false =>
      obtain ⟨offset, found⟩ := Text.exists_offsetOf? anchored
      have cut := lines_register found included
      rw [Document.lines_eq_singleton (lineFeed_notMem_includeLine named.noLineFeed)] at cut
      have ahead : ∀ line ∈ (lines master).takeWhile isAhead ++ [includeLine name],
          isAhead line = true := by
        intro line member
        rcases List.mem_append.mp member with before | new
        · exact List.all_eq_true.mp List.all_takeWhile line before
        · obtain rfl := List.mem_singleton.mp new
          exact isAhead_includeLine named.noBracket
      have behind : ((lines master).dropWhile isAhead).takeWhile isAhead = [] := by
        have split : ((lines master).dropWhile isAhead).takeWhile isAhead ++
            ((lines master).dropWhile isAhead).dropWhile isAhead = _ := List.takeWhile_append_dropWhile
        rw [List.dropWhile_idempotent] at split
        exact List.append_left_eq_self.mp split
      have still : endTag <:+: (register name master).text := by
        obtain ⟨line, member, holds⟩ :=
          Document.exists_line_of_infix (by decide : '\n' ∉ endTag) (by decide) anchored
        refine holds.trans (Document.isRow_of_mem_lines ?_).within
        rw [← List.takeWhile_append_dropWhile (p := isAhead) (l := lines master),
          List.mem_append] at member
        rw [cut, List.mem_append, List.mem_append]
        exact member.imp_left .inl
      rw [ih still others, cut, List.takeWhile_append_of_pos ahead, List.dropWhile_append_of_pos ahead,
        behind, List.dropWhile_idempotent, fresh_cons_of_absent named others included]
      simp

/-- A master with both kinds of line ends that includes one changelog. -/
def smallMaster : Text :=
  "<databaseChangeLog>\r\n".toList ++ includeLine "b.xml" ++ "\n  </databaseChangeLog>\r\n".toList

/-- One name is a suffix of another, one a prefix; the included and the repeated one add nothing. -/
theorem lines_registerAll_of_smallMaster :
    lines (registerAll ["ab.xml".toList, "b.xml".toList, "b.xm".toList, "ab.xml".toList] smallMaster) =
      ["<databaseChangeLog>".toList, includeLine "b.xml", includeLine "ab.xml", includeLine "b.xm",
        "  </databaseChangeLog>".toList, []] :=
  (lines_registerAll (by decide +kernel) (by decide +kernel)).1.trans (by decide +kernel)

end Changelog

end ReadOnlyViews
