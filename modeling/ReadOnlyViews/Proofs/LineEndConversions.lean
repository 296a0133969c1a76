import ReadOnlyViews.Changelog.Master
import ReadOnlyViews.MyBatis.Settings
import ReadOnlyViews.Proofs.DisabledTests
import ReadOnlyViews.Proofs.LineEndEdits

/-! Conversions and registrations of texts with short line ends and of the same texts with long ones.
Every anchor and every witness is found in both texts or in neither, with one exception, which tells
the two texts apart: a package statement without a name. -/
namespace ReadOnlyViews

open Document (longEnds)

namespace ReadOnly

open Pattern

/-! ## Anchors -/

private theorem follows_spaces : Follows (run isBlankOrTab) := follows_run (by decide) (by decide)

private theorem follows_lineIndent : lineIndent.Follows := follows_lineStart.append follows_spaces

private theorem avoids_lineIndent : lineIndent.Avoids := avoids_lineStart.append

/-- Text up to a semicolon, on any number of lines. -/
theorem follows_upToSemicolon : Follows (run1 (· != ';') ++ exactly ";".toList) :=
  follows_run1_append (by decide) (follows_exactly (by decide)) (avoids_exactly rfl (by decide))

private theorem follows_hibernateImport : hibernateImport.Follows :=
  Anchor.follows_of_target rfl
    ((follows_lineStart.append (follows_exactly (by decide))).append follows_upToSemicolon).assoc
    avoids_lineStart.append.append.append

private theorem follows_persistenceWildcard : persistenceWildcard.Follows :=
  Anchor.follows_of_target rfl (follows_lineStart.append (follows_exactly (by decide)))
    avoids_lineStart.append

private theorem follows_lastPersistenceImport : lastPersistenceImport.Follows := by
  have later : Follows (run (fun _ => true) ++ lineStart ++ exactly "import jakarta.persistence.".toList) :=
    (follows_run_append rfl follows_lineStart avoids_lineStart).append (follows_exactly (by decide))
  exact Anchor.follows_of_target rfl
    (((follows_lineStart.append (follows_exactly (by decide))).append follows_upToSemicolon).assoc.append
      later.notAhead) avoids_lineStart.append.append.append.append

/-- A word at the start of a line, indentation aside. -/
theorem follows_headed {word : Text} (single : word.IsSingleLine) :
    Follows (lineIndent ++ exactly word ++ wordEdge) :=
  (follows_lineIndent.append (follows_exactly single)).append follows_wordEdge

private theorem follows_repositoryAnchor : repositoryAnchor.Follows := by
  have interface : Follows (lineIndent ++ exactly "public".toList ++ blanks1 ++ exactly "interface".toList) :=
    ((follows_lineIndent.append (follows_exactly (by decide))).append
      (follows_run1_append crosses_blank (follows_exactly (by decide)) (avoids_exactly rfl (by decide)))).assoc
  exact Anchor.follows_of_target rfl
    (((interface.append (follows_run1_append crosses_blank follows_word avoids_word)).assoc.append
      (follows_exactly (by decide))).append follows_wordEdge)
    avoids_lineIndent.append.append.append.append.append.append.append

/-- An annotation at the start of a line and another one on a line behind it. -/
theorem follows_annotations {first second : Text} {c : Char} (firstSingle : first.IsSingleLine)
    (secondSingle : second.IsSingleLine) (starts : second.head? = some c) (visible : c ≠ '\n') :
    Follows (lineIndent ++ exactly first ++ blanks ++ exactly "\n".toList ++ blanks ++ exactly second) :=
  ((((follows_lineIndent.append (follows_exactly firstSingle)).append
    (follows_run_lineFeed crosses_blank)).assoc.append
    (follows_run_append crosses_blank (follows_exactly secondSingle) (avoids_exactly starts visible)))).assoc

private theorem follows_resourceAnchor : resourceAnchor.Follows :=
  Anchor.follows_of_target rfl (follows_annotations (by decide) (by decide) rfl (by decide))
    avoids_lineIndent.append.append.append.append.append

private theorem follows_serviceAnchor : serviceAnchor.Follows :=
  Anchor.follows_of_target rfl (follows_annotations (by decide) (by decide) rfl (by decide))
    avoids_lineIndent.append.append.append.append.append

private theorem follows_entityAnchor : entityAnchor.Follows :=
  Anchor.follows_of_target rfl (follows_headed (by decide)) avoids_lineIndent.append.append

private theorem follows_integrationTestAnchor : integrationTestAnchor.Follows :=
  Anchor.follows_of_target rfl (follows_headed (by decide)) avoids_lineIndent.append.append

private theorem follows_testImportAnchor : testImportAnchor.Follows :=
  Anchor.follows_of_target rfl (follows_lineStart.append (follows_exactly (by decide)))
    avoids_lineStart.append

private theorem follows_anyCase {part : Text}
    (visible : (part.all fun c => !sameLetter c '\n' && !sameLetter c '\r') = true) :
    (anyCase part).Follows := by
  induction part with
  | nil => exact follows_nothing
  | cons c part ih =>
    rw [List.all_cons, Bool.and_eq_true, Bool.and_eq_true, Bool.not_eq_true', Bool.not_eq_true'] at visible
    exact (follows_one visible.1.1 visible.1.2).append (ih visible.2)

private theorem follows_testCommentAnchor : testCommentAnchor.Follows where
  lead := (((follows_exactly (by decide)).append follows_spaces).append follows_lineBreak).assoc
  target :=
    ((((follows_spaces.append (follows_exactly (by decide))).append follows_spaces).append
      (follows_anyCase (by decide))).append (follows_anyCase (by decide)).optional).append
      (follows_anyCase (by decide))
  avoids := (avoids_exactly rfl (by decide)).append.append.append.append

/-! ## Witnesses -/

private theorem endsLine_longEnds {rest : Text} (plain : '\r' ∉ rest) (reading : Reading) :
    endsLine reading (longEnds rest) = endsLine reading rest := by
  induction rest generalizing reading with
  | nil => rfl
  | cons c rest ih =>
    simp only [List.mem_cons, not_or] at plain
    have later := ih plain.2
    by_cases fed : c = '\n'
    · subst fed
      cases reading <;> simp [endsLine, later]
    · rw [Document.longEnds_cons fed]
      cases reading <;> simp only [endsLine, later]

private theorem disabled_longEnds {text : Text} (plain : '\r' ∉ text) :
    Disabled (longEnds text) ↔ Disabled text := by
  constructor
  · rintro ⟨front, rest, cut, ends⟩
    rw [List.append_assoc] at cut
    have inside : ¬ Cursor.SplitsEnd ⟨front.reverse, "@Disabled".toList ++ rest⟩ := fun splits =>
      absurd splits.2 (by simp)
    obtain ⟨front', rest', rfl, -, behind⟩ := (Cursor.exists_of_longEnds_eq_append cut).resolve_right inside
    have found := @Document.after?_longEnds "@Disabled".toList rest' (by decide)
    rw [← behind, Text.after?_eq_some_iff.mpr rfl] at found
    obtain ⟨tail, starts, rfl⟩ := Option.map_eq_some_iff.mp found.symm
    obtain rfl := Text.after?_eq_some_iff.mp starts
    refine ⟨front', tail, by simp, ?_⟩
    rwa [endsLine_longEnds fun member => plain (by simp [member])] at ends
  · rintro ⟨front, rest, rfl, ends⟩
    refine ⟨longEnds front, longEnds rest, ?_, ?_⟩
    · rw [Document.longEnds_append, Document.longEnds_append]
      rfl
    · rwa [endsLine_longEnds fun member => plain (by simp [member])]

private theorem disabledAnnotation_sees {text : Text} (plain : '\r' ∉ text) :
    Witness.Sees disabledAnnotation text := by
  rw [Witness.Sees, Bool.eq_iff_iff, disabledAnnotation_presentIn_iff, disabledAnnotation_presentIn_iff]
  exact disabled_longEnds plain

private theorem immutableAnnotation_sees {text : Text} (plain : '\r' ∉ text) :
    Witness.Sees immutableAnnotation text :=
  Witness.sees_pattern (follows_headed (by decide)).sees avoids_lineIndent.append.append plain

private theorem sees_lineStart {part shown text : Text} (single : part.IsSingleLine) (plain : '\r' ∉ text) :
    Witness.Sees (.pattern (.lineStart ++ .exactly part) shown) text :=
  Witness.sees_pattern (follows_lineStart.append (follows_exactly single)).sees avoids_lineStart.append plain

/-! ## The package statement -/

/-- A package statement without a name: the keyword alone on a line, and the semicolon right at the
start of the next one. -/
def NamelessPackage (text : Text) : Prop :=
  ∃ front rest, text = front ++ "package\n;".toList ++ rest ∧
    (front = [] ∨ front.getLast? = some '\n')

/-- White space and at least one more character between the keyword and the semicolon. -/
theorem spans_packageAnchor_iff {before mid after : Text} :
    packageAnchor.target.Spans before mid after ↔ (before = [] ∨ before.head? = some '\n') ∧
      ∃ blank name, mid = "package".toList ++ (blank :: name ++ ";".toList) ∧ isBlank blank = true ∧
        name ≠ [] ∧ ';' ∉ name := by
  have space {c : Char} (blank : isBlank c = true) : c ≠ ';' := by
    rintro rfl
    exact absurd blank (by decide)
  simp only [packageAnchor, blanks1, spans_append, spans_lineStart, spans_exactly, spans_run1]
  constructor
  · rintro ⟨_, _, rfl, ⟨_, name, rfl, ⟨_, spaces, rfl, ⟨_, _, rfl, ⟨rfl, start⟩, rfl⟩, someSpace, blank⟩,
      someName, named⟩, rfl⟩
    obtain ⟨first, more, rfl⟩ := List.exists_cons_of_ne_nil someSpace
    refine ⟨start, first, more ++ name, by simp, blank first (by simp), by simp [someName], ?_⟩
    rw [List.mem_append, not_or]
    exact ⟨fun member => space (blank ';' (by simp [member])) rfl, fun member => by simpa using named ';' member⟩
  · rintro ⟨start, blank, name, rfl, isSpace, someName, named⟩
    refine ⟨"package".toList ++ [blank] ++ name, _, by simp, ⟨_, name, rfl, ⟨_, [blank], rfl,
      ⟨[], _, rfl, ⟨rfl, start⟩, rfl⟩, by simp, by simpa using isSpace⟩, someName, fun c member => ?_⟩, rfl⟩
    simpa using fun same : c = ';' => named (same ▸ member)

/-- All matches of a package statement at a place end at the same semicolon. -/
theorem stops_packageAnchor_unique {place first second : Cursor}
    (one : first ∈ packageAnchor.target.stops place) (other : second ∈ packageAnchor.target.stops place) :
    first = second := by
  obtain ⟨mid, after, before, spans⟩ := exists_spans_of_mem_stops one
  obtain ⟨mid', after', before', spans'⟩ := exists_spans_of_mem_stops other
  obtain ⟨-, blank, name, rfl, space, -, named⟩ := spans_packageAnchor_iff.mp spans
  obtain ⟨-, blank', name', rfl, space', -, named'⟩ := spans_packageAnchor_iff.mp spans'
  have outside {blank : Char} {name : Text} (space : isBlank blank = true) (named : ';' ∉ name) :
      ';' ∉ blank :: name := by
    rw [List.mem_cons, not_or]
    exact ⟨fun same => absurd (same ▸ space) (by decide), named⟩
  have same : blank :: name ++ ';' :: first.after = blank' :: name' ++ ';' :: second.after := by
    simpa using after.symm.trans after'
  have upTo {front : Text} (free : ';' ∉ front) (rest : Text) :
      (front ++ ';' :: rest).takeWhile (· != ';') = front := by
    rw [List.takeWhile_append_of_pos fun c member => by simpa using fun same : c = ';' => free (same ▸ member)]
    simp
  have names : blank :: name = blank' :: name' := by
    rw [← upTo (outside space named) first.after, same, upTo (outside space' named')]
  rw [names] at same before
  have rests := (List.cons.inj (List.append_cancel_left same)).2
  cases first
  cases second
  simp_all

private theorem lineStart_longEndsBack_iff {before : Text} :
    (Document.longEndsBack before = [] ∨ (Document.longEndsBack before).head? = some '\n') ↔
      (before = [] ∨ before.head? = some '\n') := by
  cases before with
  | nil => simp
  | cons c before =>
    by_cases fed : c = '\n'
    · simp [fed]
    · simp [Document.longEndsBack_cons fed]

/-- A package statement that has a name is found in the text with long line ends. -/
theorem mem_stops_packageAnchor {place stop : Cursor} (member : stop ∈ packageAnchor.target.stops place) :
    stop.longEnds ∈ packageAnchor.target.stops place.longEnds := by
  obtain ⟨mid, after, before, spans⟩ := exists_spans_of_mem_stops member
  obtain ⟨start, blank, name, rfl, space, someName, named⟩ := spans_packageAnchor_iff.mp spans
  obtain ⟨after', before'⟩ := Cursor.longEnds_of_passes after before
  suffices spans' : packageAnchor.target.Spans place.longEnds.before
      (longEnds ("package".toList ++ (blank :: name ++ ";".toList))) stop.longEnds.after by
    rwa [Spans, ← after', ← before'] at spans'
  refine spans_packageAnchor_iff.mpr ⟨lineStart_longEndsBack_iff.mpr start, ?_⟩
  have split : longEnds ("package".toList ++ (blank :: name ++ ";".toList)) =
      "package".toList ++ (longEnds (blank :: name) ++ ";".toList) := by
    rw [Document.longEnds_append, Document.longEnds_append]
    rfl
  have outside : ';' ∉ longEnds name := fun member =>
    named ((Document.eq_or_mem_of_mem_longEnds member).resolve_left (by decide))
  rw [split]
  by_cases fed : blank = '\n'
  · subst fed
    exact ⟨'\r', '\n' :: longEnds name, rfl, by decide, by simp, by simpa using outside⟩
  · exact ⟨blank, longEnds name, by rw [Document.longEnds_cons fed], space, by simpa using someName, outside⟩

/-- What is found in the text with long line ends has a name in the other one, or none at all. -/
theorem exists_stop_packageAnchor {front rest : Text} {stop : Cursor}
    (member : stop ∈ packageAnchor.target.stops (Cursor.longEnds ⟨front.reverse, rest⟩)) :
    (∃ stop, stop ∈ packageAnchor.target.stops ⟨front.reverse, rest⟩) ∨ NamelessPackage (front ++ rest) := by
  obtain ⟨mid, after, -, spans⟩ := exists_spans_of_mem_stops member
  obtain ⟨start, blank, name, rfl, space, someName, named⟩ := spans_packageAnchor_iff.mp spans
  have atStart : front = [] ∨ front.getLast? = some '\n' := by
    simpa using lineStart_longEndsBack_iff.mp start
  have spelled : longEnds rest = "package".toList ++ (blank :: name ++ ";".toList ++ stop.after) :=
    after.trans (by simp)
  -- The keyword, then what stands before the semicolon, are the same in the shorter text.
  have found := @Document.after?_longEnds "package".toList rest (by decide)
  rw [Text.after?_eq_some_iff.mpr spelled] at found
  obtain ⟨behind, starts, cut⟩ := Option.map_eq_some_iff.mp found.symm
  obtain rfl := Text.after?_eq_some_iff.mp starts
  have inside : ¬ Cursor.SplitsEnd ⟨(blank :: name).reverse, ";".toList ++ stop.after⟩ := fun splits =>
    absurd splits.2 (by simp)
  obtain ⟨between, tail, rfl, same, ended⟩ :=
    (Cursor.exists_of_longEnds_eq_append (cut.trans (List.append_assoc ..))).resolve_right inside
  have semicolon := @Document.after?_longEnds ";".toList tail (by decide)
  rw [Text.after?_eq_some_iff.mpr ended.symm] at semicolon
  obtain ⟨tail, starts, -⟩ := Option.map_eq_some_iff.mp semicolon.symm
  obtain rfl := Text.after?_eq_some_iff.mp starts
  cases between with
  | nil => simp at same
  | cons first others =>
    have outside : ';' ∉ others := by
      intro member
      have inName : ';' ∈ blank :: name := same ▸ Document.mem_longEnds (List.mem_cons_of_mem _ member)
      rcases List.mem_cons.mp inName with rfl | further
      · exact absurd space (by decide)
      · exact named further
    have named' (space : isBlank first = true) (some_ : others ≠ []) :
        ∃ stop, stop ∈ packageAnchor.target.stops
          ⟨front.reverse, "package".toList ++ (first :: others ++ (";".toList ++ tail))⟩ := by
      have here : packageAnchor.target.Spans front.reverse
          ("package".toList ++ (first :: others ++ ";".toList)) tail :=
        spans_packageAnchor_iff.mpr ⟨by simpa using atStart, first, others, rfl, space, some_, outside⟩
      rw [Spans, List.append_assoc, List.append_assoc] at here
      exact ⟨_, here⟩
    by_cases fed : first = '\n'
    · subst fed
      by_cases alone : others = []
      · exact .inr ⟨front, tail, by simp [alone], atStart⟩
      · exact .inl (named' (by decide) alone)
    · rw [Document.longEnds_cons fed] at same
      obtain ⟨rfl, rfl⟩ := List.cons.inj same
      exact .inl (named' space (by simpa using someName))

/-- The package statement is found on the same line, unless it has no name. -/
theorem place?_packageAnchor {text : Text} (named : ¬ NamelessPackage text) :
    packageAnchor.place? (longEnds text) = packageAnchor.place? text := by
  have avoids : packageAnchor.target.Avoids := avoids_lineStart.append.append.append.append
  refine Anchor.place?_of_find? (@Cursor.scan_longEnds _ _ _ [] text ?_ fun place =>
    Probe.stretchAt?_of_splitsEnd avoids.nothing_append)
  rintro front rest rfl
  rw [List.append_nil]
  have best : (packageAnchor.target.stops (Cursor.longEnds ⟨front.reverse, rest⟩)).head? =
      (packageAnchor.target.stops ⟨front.reverse, rest⟩).head?.map Cursor.longEnds := by
    cases first : (packageAnchor.target.stops ⟨front.reverse, rest⟩).head? with
    | none =>
      rw [Option.map_none, List.head?_eq_none_iff, List.eq_nil_iff_forall_not_mem]
      intro stop member
      obtain ⟨stop, there⟩ := (exists_stop_packageAnchor member).resolve_right named
      rw [List.head?_eq_none_iff.mp first] at there
      cases there
    | some stop =>
      have there := mem_stops_packageAnchor (List.mem_of_mem_head? first)
      obtain ⟨other, others, listed⟩ := List.exists_cons_of_ne_nil (List.ne_nil_of_mem there)
      have best : other ∈ packageAnchor.target.stops (Cursor.longEnds ⟨front.reverse, rest⟩) := by
        rw [listed]
        exact List.mem_cons_self
      rw [listed, List.head?_cons, Option.map_some, stops_packageAnchor_unique there best]
  exact Probe.stretchAt?_of_best best

/-! ## Steps -/

/-- A text of several lines with short line ends. -/
structure IsShort (text : Text) : Prop where
  plain : '\r' ∉ text
  fed : '\n' ∈ text

private theorem IsShort.keeps_insertOnce {witness : Witness} {insertion : List Text} {anchors : List Anchor}
    {required : Bool} (single : ∀ new ∈ insertion, new.IsSingleLine) {text : Text} (short : IsShort text) :
    EditStep.Keeps IsShort (insertOnce witness insertion anchors required) text :=
  fun _ ran => ⟨plain_insertOnce ran short.plain fun new member => (single new member).2,
    fed_insertOnce ran short.fed⟩

private theorem IsShort.agrees_insertOnce {witness : Witness} {insertion : List Text} {anchors : List Anchor}
    {required : Bool} {text : Text} (short : IsShort text) (sees : witness.Sees text)
    (follow : ∀ anchor ∈ anchors, anchor.Follows) (single : ∀ new ∈ insertion, new.IsSingleLine) :
    EditStep.Agrees (insertOnce witness insertion anchors required) text :=
  insertOnce_longEnds short.plain (.inl short.fed) sees
    (fun anchor member => (follow anchor member).place? short.plain)
    fun new member => (single new member).1

private theorem isSingleLine_classComment {marker table note : Text} (marks : marker.IsSingleLine)
    (single : table.IsSingleLine) (notes : note.IsSingleLine) :
    ∀ new ∈ classComment marker table note, new.IsSingleLine := fun new member =>
  ⟨notMem_classComment marks.1 single.1 notes.1 (by decide) new member,
    notMem_classComment marks.2 single.2 notes.2 (by decide) new member⟩

/-- An anchor of two annotations needs a line end. -/
theorem place?_annotations_of_free {anchor : Anchor} {first second text : Text}
    (lead : anchor.lead = nothing) (target : anchor.target =
      lineIndent ++ exactly first ++ blanks ++ exactly "\n".toList ++ blanks ++ exactly second)
    (free : '\n' ∉ text) : anchor.place? text = none := by
  rw [place?_eq_none_iff lead, occursIn_eq_false_iff, target]
  rintro front mid rest rfl spans
  refine free (List.mem_append_left _ (List.mem_append_right _ ?_))
  obtain ⟨_, _, rfl, spans, -⟩ := spans_append.mp spans
  obtain ⟨_, _, rfl, spans, -⟩ := spans_append.mp spans
  obtain ⟨_, feed, rfl, -, fed⟩ := spans_append.mp spans
  obtain rfl := spans_exactly.mp fed
  simp

/-- Removals and a mark do the same to texts of any number of lines: a text that has lost its line
ends has no place for the mark. -/
theorem agrees_removals {named : List (Text × Java.LineTest)} {name marker table note : Text}
    {anchor : Anchor} (follows : anchor.Follows)
    (needs : ∀ text, '\n' ∉ text → anchor.place? text = none) (marks : marker.IsSingleLine)
    (single : table.IsSingleLine) (notes : note.IsSingleLine) :
    ∀ step ∈ named.map (fun part => (part.1, removing part.2)) ++
        [(name, insertOnce (.literal marker) (classComment marker table note) [anchor] false)],
      ∀ text, '\r' ∉ text → step.2.Agrees text ∧ EditStep.Keeps ('\r' ∉ ·) step.2 text := by
  have comment := isSingleLine_classComment marks single notes
  intro step member text plain
  rcases List.mem_append.mp member with removes | last
  · obtain ⟨part, -, rfl⟩ := List.mem_map.mp removes
    refine ⟨congrArg Except.ok (Java.removeMethods_longEnds plain), fun edit ran => ?_⟩
    obtain rfl := Except.ok.inj ran
    exact Java.plain_removeMethods plain
  · obtain rfl := List.mem_singleton.mp last
    have fed : '\n' ∈ text ∨ [anchor].findSome? (·.place? text) = none := by
      by_cases fed : '\n' ∈ text
      · exact .inl fed
      · exact .inr (by simp [needs text fed])
    refine ⟨insertOnce_longEnds plain fed (Witness.sees_literal marks) ?_ fun new inside => (comment new inside).1,
      fun edit ran => plain_insertOnce ran plain fun new inside => (comment new inside).2⟩
    intro other isAnchor
    obtain rfl := List.mem_singleton.mp isAnchor
    exact follows.place? plain

private theorem agrees_resourceSteps {table : Text} (single : table.IsSingleLine) :
    ∀ step ∈ resourceSteps table, ∀ text, '\r' ∉ text →
      step.2.Agrees text ∧ EditStep.Keeps ('\r' ∉ ·) step.2 text := by
  have agree := @agrees_removals (mutatingMappings.map fun mapping =>
      ("remove ".toList ++ mapping, Java.annotatedWith mapping)) "resource marker".toList resourceMarker table
    resourceNote resourceAnchor follows_resourceAnchor
    (fun text => place?_annotations_of_free rfl rfl) (by decide) single (by decide +kernel)
  rwa [List.map_map] at agree

private theorem agrees_serviceSteps {table : Text} (single : table.IsSingleLine) :
    ∀ step ∈ serviceSteps table, ∀ text, '\r' ∉ text →
      step.2.Agrees text ∧ EditStep.Keeps ('\r' ∉ ·) step.2 text := by
  have agree := @agrees_removals (mutatingSignatures.map fun signature =>
      ("remove ".toList ++ signature.1 ++ "()".toList, Java.holdsSignature signature.2))
    "service marker".toList serviceMarker table serviceNote serviceAnchor follows_serviceAnchor
    (fun text => place?_annotations_of_free rfl rfl) (by decide) single (by decide +kernel)
  rwa [List.map_map] at agree

private theorem agrees_entitySteps : ∀ step ∈ entitySteps, ∀ text, IsShort text →
    step.2.Agrees text ∧ step.2.Keeps IsShort text := by
  have import_ : ∀ new ∈ [immutableImport], new.IsSingleLine := by decide
  have annotation : ∀ new ∈ ["@Immutable".toList], Text.IsSingleLine new := by decide
  intro step member text short
  simp only [entitySteps, List.mem_cons, List.not_mem_nil, or_false] at member
  rcases member with rfl | rfl
  · refine ⟨short.agrees_insertOnce (Witness.sees_literal (by decide)) (fun anchor member => ?_) import_,
      short.keeps_insertOnce import_⟩
    simp only [immutableImportAnchors, List.mem_cons, List.not_mem_nil, or_false] at member
    rcases member with rfl | rfl | rfl
    · exact follows_hibernateImport
    · exact follows_persistenceWildcard
    · exact follows_lastPersistenceImport
  · refine ⟨short.agrees_insertOnce (immutableAnnotation_sees short.plain) (fun anchor member => ?_) annotation,
      short.keeps_insertOnce annotation⟩
    obtain rfl := List.mem_singleton.mp member
    exact follows_entityAnchor

private theorem agrees_repositorySteps {table : Text} (single : table.IsSingleLine) :
    ∀ step ∈ repositorySteps table, ∀ text, IsShort text →
      step.2.Agrees text ∧ step.2.Keeps IsShort text := by
  have comment := isSingleLine_classComment (show repositoryMarker.IsSingleLine by decide) single
    (show Text.IsSingleLine
      "This entity is mapped to a database view and should not be modified.".toList by decide +kernel)
  intro step member text short
  obtain rfl := List.mem_singleton.mp member
  refine ⟨short.agrees_insertOnce (Witness.sees_literal (by decide)) (fun anchor member => ?_) comment,
    short.keeps_insertOnce comment⟩
  obtain rfl := List.mem_singleton.mp member
  exact follows_repositoryAnchor

/-- The import of the annotation that disables a test.  It is the one step that looks for the package
statement. -/
theorem agrees_ensureDisabledImport {text : Text} (short : IsShort text) (named : ¬ NamelessPackage text) :
    EditStep.Agrees ensureDisabledImport text ∧ EditStep.Keeps IsShort ensureDisabledImport text := by
  have beside : ∀ new ∈ [disabledImport], new.IsSingleLine := by decide
  have behind : ∀ new ∈ [[], disabledImport], Text.IsSingleLine new := by decide
  have seesImport : (Witness.literal disabledImport).Sees text := Witness.sees_literal (by decide)
  have sameBeside : EditStep.Agrees (insertOnce (.literal disabledImport) [disabledImport]
      [testImportAnchor] false) text :=
    short.agrees_insertOnce seesImport (fun anchor member =>
      List.mem_singleton.mp member ▸ follows_testImportAnchor) beside
  have sameBehind : EditStep.Agrees (insertOnce (.literal disabledImport) [[], disabledImport]
      [packageAnchor] false) text :=
    insertOnce_longEnds short.plain (.inl short.fed) seesImport (fun anchor member =>
      List.mem_singleton.mp member ▸ place?_packageAnchor named) fun new member => (behind new member).1
  obtain ⟨besideEdit, inserting⟩ := exists_insertOnce (.literal disabledImport) [disabledImport]
    [testImportAnchor] text
  obtain ⟨behindEdit, inserted⟩ := exists_insertOnce (.literal disabledImport) [[], disabledImport]
    [packageAnchor] text
  have keptBeside := short.keeps_insertOnce beside besideEdit inserting
  have keptBehind := short.keeps_insertOnce behind behindEdit inserted
  rw [EditStep.Agrees, inserting] at sameBeside
  rw [EditStep.Agrees, inserted] at sameBehind
  have included : Text.includes disabledImport (longEnds text) = Text.includes disabledImport text := seesImport
  have wild : junitWildcard.presentIn (longEnds text) = junitWildcard.presentIn text :=
    sees_lineStart (by decide) short.plain
  unfold EditStep.Agrees EditStep.Keeps ensureDisabledImport
  simp only [included, wild, inserting, inserted, sameBeside, sameBehind, bind, Except.bind, pure, Except.pure,
    Except.map]
  split
  · refine ⟨rfl, fun edit ran => ?_⟩
    obtain rfl := Except.ok.inj ran
    exact short
  · split
    · refine ⟨rfl, fun edit ran => ?_⟩
      obtain rfl := Except.ok.inj ran
      exact short
    · by_cases placed : besideEdit.outcome ≠ .noAnchor
      · rw [if_pos placed, if_pos (show besideEdit.longEnds.outcome ≠ .noAnchor from placed)]
        refine ⟨rfl, fun edit ran => ?_⟩
        obtain rfl := Except.ok.inj ran
        exact keptBeside
      · rw [if_neg placed, if_neg (show ¬ besideEdit.longEnds.outcome ≠ .noAnchor from placed)]
        by_cases applied : behindEdit.outcome = .applied
        · rw [if_pos applied, if_pos (show behindEdit.longEnds.outcome = .applied from applied)]
          refine ⟨rfl, fun edit ran => ?_⟩
          obtain rfl := Except.ok.inj ran
          exact keptBehind
        · rw [if_neg applied, if_neg (show ¬ behindEdit.longEnds.outcome = .applied from applied)]
          refine ⟨rfl, fun edit ran => ?_⟩
          obtain rfl := Except.ok.inj ran
          exact keptBehind

private theorem runSteps_testSteps_longEnds {text : Text} (short : IsShort text) (named : ¬ NamelessPackage text) :
    runSteps (longEnds text) testSteps =
      (runSteps text testSteps).map fun result => (longEnds result.1, Steps.longEnds result.2) := by
  obtain ⟨agrees, keeps⟩ := agrees_ensureDisabledImport short named
  refine runSteps_cons_longEnds agrees fun edit ran => ?_
  refine @runSteps_longEnds IsShort _ ?_ _ (keeps edit ran)
  have line : ∀ new ∈ [disabledLine], new.IsSingleLine :=
    fun new member => (disabledLine_plain new member).1
  have notes : ∀ new ∈ testNotes, new.IsSingleLine :=
    fun new member => (testNotes_plain new member).1
  intro step member text short
  simp only [List.mem_cons, List.not_mem_nil, or_false] at member
  rcases member with rfl | rfl
  · exact ⟨short.agrees_insertOnce (disabledAnnotation_sees short.plain) (fun anchor member =>
      List.mem_singleton.mp member ▸ follows_integrationTestAnchor) line, short.keeps_insertOnce line⟩
  · exact ⟨short.agrees_insertOnce (Witness.sees_literal (by decide)) (fun anchor member =>
      List.mem_singleton.mp member ▸ follows_testCommentAnchor) notes, short.keeps_insertOnce notes⟩

/-! ## Whole conversions -/

/-- The same conversion of the source with long line ends. -/
def Converted.longEnds (converted : Converted) : Converted :=
  { converted with
    text := Document.longEnds converted.text, steps := Steps.longEnds converted.steps }

private theorem runSteps_steps_longEnds {kind : SourceKind} {table text : Text} (short : IsShort text)
    (single : table.IsSingleLine) (named : kind = .test → ¬ NamelessPackage text) :
    runSteps (longEnds text) (steps kind table) =
      (runSteps text (steps kind table)).map fun result => (longEnds result.1, Steps.longEnds result.2) := by
  cases kind with
  | entity => exact runSteps_longEnds agrees_entitySteps short
  | repository => exact runSteps_longEnds (agrees_repositorySteps single) short
  | resource => exact runSteps_longEnds (agrees_resourceSteps single) short.plain
  | service => exact runSteps_longEnds (agrees_serviceSteps single) short.plain
  | test => exact runSteps_testSteps_longEnds short (named rfl)

set_option maxRecDepth 4000 in
private theorem fitsLine_of_mem_resourceImports : ∀ statement ∈ Java.resourceImports, Java.FitsLine statement := by
  have some_ : ∀ statement ∈ Java.resourceImports, statement ≠ [] := by
    unfold Java.resourceImports
    repeat rw [String.toList_ofList]
    decide +kernel
  intro statement member
  exact ⟨some_ statement member, (Java.isPlainImport_of_mem_resourceImports statement member).single⟩

private theorem convert_longEnds {kind : SourceKind} {table text : Text} (short : IsShort text)
    (single : table.IsSingleLine) (named : kind = .test → ¬ NamelessPackage text) (asked : Java.AskedNames) :
    convert kind table asked (longEnds text) = (convert kind table asked text).map Converted.longEnds := by
  rw [convert, convert, runSteps_steps_longEnds short single named]
  cases ran : runSteps text (steps kind table) with
  | error failure => rfl
  | ok result =>
    obtain ⟨final, results⟩ := result
    cases kind with
    | resource =>
      have plain : '\r' ∉ final := @keeps_runSteps ('\r' ∉ ·) _ (fun step member text plain =>
        (agrees_resourceSteps single step member text plain).2) _ _ _ short.plain ran
      have pruned := Java.pruneImports_longEnds fitsLine_of_mem_resourceImports asked plain
      simp only [Except.map, bind, Except.bind, pure, Except.pure, pruned]
      generalize Java.pruneImports Java.resourceImports asked final = pruning
      simp [Converted.longEnds, Steps.longEnds, Edit.longEnds]
    | entity => rfl
    | repository => rfl
    | service => rfl
    | test => rfl

end ReadOnly

/-! ## Aggregating files -/

theorem Text.IsSingleLine.append {front back : Text} (first : front.IsSingleLine) (second : back.IsSingleLine) :
    Text.IsSingleLine (front ++ back) := by
  simp only [Text.IsSingleLine, List.mem_append, not_or]
  exact ⟨⟨first.1, second.1⟩, first.2, second.2⟩

private theorem MyBatis.appendSettings_longEnds {settings : Settings} {basePackage text : Text}
    (short : ReadOnly.IsShort text) (package : basePackage.IsSingleLine)
    (models : settings.modelPackage.IsSingleLine) :
    appendSettings settings basePackage (longEnds text) = (appendSettings settings basePackage text).longEnds := by
  refine splice_longEnds short.plain short.fed (ReadOnly.sees_lineStart (by decide) short.plain) (by decide) ?_
  simp [settingsFragment, package.1, models.1]

namespace Changelog

open Pattern

private theorem register_longEnds {file master : Text} (short : ReadOnly.IsShort master)
    (single : file.IsSingleLine) : register file (longEnds master) = (register file master).longEnds := by
  have folder : includeFolder.IsSingleLine := by decide
  have quote : Text.IsSingleLine "\"".toList := by decide
  refine splice_longEnds short.plain short.fed
    (Witness.sees_literal (((quote.append folder).append single).append quote)) (by decide) fun line member => ?_
  rw [List.mem_singleton.mp member]
  have front : Text.IsSingleLine "    <include file=\"".toList := by decide
  have back : Text.IsSingleLine "\" relativeToChangelogFile=\"false\"/>".toList := by decide
  exact (((front.append folder).append single).append back).1

private theorem follows_tableInclude {entityClass : Text} (single : entityClass.IsSingleLine) :
    (tableInclude entityClass).Follows := by
  have spaces : Follows (run isBlankOrTab) := follows_run (by decide) (by decide)
  have folder : Follows (exactly ("file=\"".toList ++ includeFolder)) := follows_exactly (by decide)
  have opened : Follows (lineStart ++ run isBlankOrTab ++ exactly "<include".toList ++ blanks1 ++
      exactly ("file=\"".toList ++ includeFolder)) :=
    (((follows_lineStart.append spaces).append (follows_exactly (by decide))).append
      (follows_run1_append crosses_blank folder (avoids_exactly rfl (by decide)))).assoc
  have digits : Follows (times (one isDecimal) 14) := (follows_one (by decide) (by decide)).times 14
  have constraints : Follows (Pattern.optional (exactly "constraints_".toList)) :=
    (follows_exactly (by decide)).optional
  have named : Follows (exactly (entityClass ++ ".xml\"".toList)) :=
    follows_exactly (single.append (by decide))
  -- Further attributes may stand on any number of lines, but the tag has to be closed behind them.
  have attributes : Follows (run (fun c => c != '/' && c != '>') ++
      (Pattern.optional (exactly "/".toList) ++ exactly ">".toList)) :=
    follows_run_append (by decide) ((follows_exactly (by decide)).optional.append (follows_exactly (by decide)))
      ((avoids_exactly rfl (by decide)).optional_append (avoids_exactly rfl (by decide)))
  exact ((((((opened.append digits).append (follows_exactly (by decide))).append constraints).append
    named).append attributes).assoc.assoc.append spaces).append follows_lineBreakOrEnd

private theorem avoids_tableInclude (entityClass : Text) : (tableInclude entityClass).Avoids :=
  avoids_lineStart.append.append.append.append.append.append.append.append.append.append.append.append.append

private theorem removeTableIncludes_longEnds {entityClass master : Text} (plain : '\r' ∉ master)
    (single : entityClass.IsSingleLine) :
    removeTableIncludes entityClass (longEnds master) = (removeTableIncludes entityClass master).longEnds := by
  have erased := eraseAll_longEnds (follows_tableInclude single) (avoids_tableInclude entityClass) plain
  unfold removeTableIncludes
  rw [erased]
  obtain ⟨text, count⟩ := (tableInclude entityClass).eraseAll master
  dsimp only [Prod.map, id]
  split <;> rfl

end Changelog

/-! ## All edits -/

/-- Every edit of a text does to the same text with long line ends what it does to the text itself:
the same steps with the same outcomes and reasons, or the same failure, and the same text with long
line ends.  A test with a package statement that has no name is left out: the statement is only found
when a line feed can pass for the name, behind a carriage return that passes for the white space. -/
theorem edits_longEnds {text : Text} (fed : '\n' ∈ text) (plain : '\r' ∉ text) :
    (∀ kind table asked, table.IsSingleLine → (kind = .test → ¬ ReadOnly.NamelessPackage text) →
      ReadOnly.convert kind table asked (longEnds text) =
        (ReadOnly.convert kind table asked text).map ReadOnly.Converted.longEnds) ∧
    (∀ file, file.IsSingleLine →
      Changelog.register file (longEnds text) = (Changelog.register file text).longEnds) ∧
    (∀ entityClass, entityClass.IsSingleLine →
      Changelog.removeTableIncludes entityClass (longEnds text) =
        (Changelog.removeTableIncludes entityClass text).longEnds) ∧
    (∀ settings basePackage, basePackage.IsSingleLine → settings.modelPackage.IsSingleLine →
      MyBatis.appendSettings settings basePackage (longEnds text) =
        (MyBatis.appendSettings settings basePackage text).longEnds) := by
  have short : ReadOnly.IsShort text := ⟨plain, fed⟩
  refine ⟨?_, ?_, ?_, ?_⟩
  · exact fun kind table asked single named => ReadOnly.convert_longEnds short single named asked
  · exact fun file single => Changelog.register_longEnds short single
  · exact fun entityClass single => Changelog.removeTableIncludes_longEnds plain single
  · exact fun settings basePackage package models => MyBatis.appendSettings_longEnds short package models

/-- A test with short line ends. -/
def shortTest : Text := "package a;\n/**\n * Integration tests for A\n */\n@IntegrationTest\nclass T {}"

/-- All that is done to a test is done to it with long line ends. -/
theorem edits_longEnds_of_shortTest :
    ('\n' ∈ shortTest ∧ '\r' ∉ shortTest ∧ ¬ ReadOnly.NamelessPackage shortTest) ∧
    (ReadOnly.convert .test "v" [] shortTest).toOption.map (fun converted =>
      converted.steps.map fun step => step.2.outcome) = some [.applied, .applied, .applied] ∧
    ReadOnly.convert .test "v" [] (longEnds shortTest) =
      (ReadOnly.convert .test "v" [] shortTest).map ReadOnly.Converted.longEnds ∧
    Changelog.register "v.xml" (longEnds shortTest) = (Changelog.register "v.xml" shortTest).longEnds ∧
    Changelog.removeTableIncludes "V" (longEnds shortTest) =
      (Changelog.removeTableIncludes "V" shortTest).longEnds ∧
    MyBatis.appendSettings {} "a" (longEnds shortTest) = (MyBatis.appendSettings {} "a" shortTest).longEnds := by
  have named : ¬ ReadOnly.NamelessPackage shortTest := by
    rintro ⟨front, rest, cut, -⟩
    have inside : Text.includes "package\n;" shortTest = true := Text.includes_iff.mpr ⟨front, rest, cut.symm⟩
    exact absurd inside (by decide)
  have all := edits_longEnds (show '\n' ∈ shortTest by decide) (show '\r' ∉ shortTest by decide)
  exact ⟨⟨by decide, by decide, named⟩, by decide +kernel, all.1 .test "v" [] (by decide) fun _ => named,
    all.2.1 "v.xml" (by decide), all.2.2.1 "V" (by decide), all.2.2.2 {} "a" (by decide) (by decide)⟩

/-- A package statement without a name is passed over with short line ends and taken for one with
long ones. -/
theorem nameless_package_told_apart :
    '\n' ∈ "package\n;".toList ∧ '\r' ∉ "package\n;".toList ∧
    (ReadOnly.convert .test [] [] "package\n;").toOption.map (·.text) = some "package\n;".toList ∧
    (ReadOnly.convert .test [] [] (longEnds "package\n;")).toOption.map (·.text) =
      some "package\r\n;\r\n\r\nimport org.junit.jupiter.api.Disabled;".toList ∧
    ReadOnly.convert .test [] [] (longEnds "package\n;") ≠
      (ReadOnly.convert .test [] [] "package\n;").map ReadOnly.Converted.longEnds := by
  decide +kernel

end ReadOnlyViews
