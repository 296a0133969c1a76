import ReadOnlyViews.Proofs.LineEndPatterns
import ReadOnlyViews.Proofs.RepeatedSteps

/-! Edits of texts with short line ends and of the same texts with long ones.  Insertions, removals of
methods and of imports, and steps in a row do the same to both, down to what they say about
themselves, wherever their witnesses and anchors are found in both. -/
namespace ReadOnlyViews

open Document (longEnds)

/-- The same edit of the text with long line ends. -/
def Edit.longEnds (edit : Edit) : Edit := { edit with text := Document.longEnds edit.text }

/-! ## Insertions -/

section Insertions

variable {witness : Witness} {insertion : List Text} {anchors : List Anchor} {required : Bool}
  {text : Text} {edit : Edit}

/-- A witness that is found in both texts or in neither. -/
def Witness.Sees (witness : Witness) (text : Text) : Prop :=
  witness.presentIn (longEnds text) = witness.presentIn text

theorem Witness.sees_literal {part : Text} (single : part.IsSingleLine) :
    (Witness.literal part).Sees text :=
  Document.includes_longEnds single

theorem Witness.sees_pattern {p : Pattern} {shown : Text} (sees : p.Sees) (avoids : p.Avoids)
    (plain : '\r' ∉ text) : (Witness.pattern p shown).Sees text :=
  Pattern.occursIn_longEnds sees avoids plain

/-- An anchor that is found at the same places of both texts. -/
structure Anchor.Follows (anchor : Anchor) : Prop where
  lead : anchor.lead.Follows
  target : anchor.target.Follows
  avoids : Pattern.Avoids (anchor.lead ++ anchor.target)

/-- An anchor that needs nothing in front. -/
theorem Anchor.follows_of_target {anchor : Anchor} (lead : anchor.lead = .nothing)
    (follows : anchor.target.Follows) (avoids : anchor.target.Avoids) : anchor.Follows where
  lead := lead ▸ Pattern.follows_nothing
  target := follows
  avoids := lead ▸ avoids.nothing_append

theorem Anchor.Follows.place? {anchor : Anchor} (follows : anchor.Follows) (plain : '\r' ∉ text) :
    anchor.place? (longEnds text) = anchor.place? text :=
  Anchor.place?_of_find? (Probe.find?_longEnds follows.lead follows.target follows.avoids plain)

/-- A character that neither the lines of a text nor the new ones have is in no line afterwards. -/
theorem notMem_of_mem_insertAt {c : Char} (outside : ∀ line ∈ Document.lines text, c ∉ line)
    (unused : ∀ new ∈ insertion, c ∉ new) {at_ position : Nat} {line : Text}
    (member : line ∈ Document.insertAt position (insertion.map fun new => if new.isEmpty then new
      else Text.indentation ((Document.lines text).getD at_ []) ++ new) (Document.lines text)) :
    c ∉ line := by
  rcases mem_insertAt.mp member with inBlock | inLines
  · obtain ⟨new, inside, rfl⟩ := List.mem_map.mp inBlock
    split
    · exact unused new inside
    · rw [List.mem_append, not_or]
      refine ⟨fun indents => ?_, unused new inside⟩
      have inLine := Text.mem_of_mem_indentation indents
      rw [List.getD_eq_getElem?_getD] at inLine
      cases found : (Document.lines text)[at_]? with
      | none => simp [found] at inLine
      | some line => exact outside line (List.mem_of_getElem? found) (by simpa [found] using inLine)
  · exact outside line inLines

theorem insertOnce_longEnds (plain : '\r' ∉ text)
    (fed : '\n' ∈ text ∨ anchors.findSome? (·.place? text) = none) (sees : witness.Sees text)
    (placed : ∀ anchor ∈ anchors, anchor.place? (longEnds text) = anchor.place? text)
    (free : ∀ new ∈ insertion, '\n' ∉ new) :
    insertOnce witness insertion anchors required (longEnds text) =
      (insertOnce witness insertion anchors required text).map Edit.longEnds := by
  have places : anchors.findSome? (·.place? (longEnds text)) = anchors.findSome? (·.place? text) :=
    findSome?_congr_of_mem placed
  unfold insertOnce
  rw [sees, places, Document.lines_longEnds plain]
  split
  · rfl
  · cases found : anchors.findSome? (·.place? text) with
    | none =>
      dsimp only
      split <;> rfl
    | some place =>
      have feed : '\n' ∈ text := fed.resolve_right (by rw [found]; exact nofun)
      have rendered := fun changed free => @Document.render_longEnds text changed plain free (.inl feed)
      simp only [Except.map, Edit.longEnds]
      rw [rendered]
      intro line member
      exact notMem_of_mem_insertAt (fun _ => Document.lineFeed_notMem_of_mem_lines) free member

/-- What an insertion makes of a text without carriage returns has none. -/
theorem plain_insertOnce (ran : insertOnce witness insertion anchors required text = .ok edit)
    (plain : '\r' ∉ text) (unreturned : ∀ new ∈ insertion, '\r' ∉ new) : '\r' ∉ edit.text := by
  rcases insertOnce_cases ran with ⟨-, -, same⟩ | ⟨line, position, -, -, -, made⟩ | ⟨-, -, -, same⟩
  · rwa [same]
  · rw [made]
    refine Document.plain_render plain fun line member => ?_
    exact notMem_of_mem_insertAt (fun _ => Document.plain_of_mem_lines plain) unreturned member
  · rwa [same]

/-- A text with several lines still has several when some are inserted. -/
theorem fed_insertOnce (ran : insertOnce witness insertion anchors required text = .ok edit)
    (fed : '\n' ∈ text) : '\n' ∈ edit.text := by
  rcases insertOnce_cases ran with ⟨-, -, same⟩ | ⟨line, position, -, -, -, made⟩ | ⟨-, -, -, same⟩
  · rwa [same]
  · rw [made]
    refine Document.fed_render fed ?_
    simp only [Document.insertAt, List.length_append, List.length_take, List.length_drop]
    omega
  · rwa [same]

theorem splice_longEnds {fragment : Fragment} {anchors : List Text} (plain : '\r' ∉ text)
    (fed : '\n' ∈ text) (sees : fragment.witness.Sees text)
    (single : ∀ anchor ∈ anchors, anchor.IsSingleLine) (free : ∀ line ∈ fragment.lines, '\n' ∉ line) :
    splice fragment anchors (longEnds text) = (splice fragment anchors text).longEnds := by
  have rendered := fun changed free => @Document.render_longEnds text changed plain free (.inl fed)
  have places : (anchors.findSome? (Text.offsetOf? · (longEnds text))).map (Document.lineOf (longEnds text)) =
      (anchors.findSome? (Text.offsetOf? · text)).map (Document.lineOf text) := by
    rw [List.map_findSome?, List.map_findSome?]
    exact findSome?_congr_of_mem fun anchor member => Document.offsetOf?_longEnds (single anchor member)
  have old {line : Text} (member : line ∈ Document.lines text) : '\n' ∉ line :=
    Document.lineFeed_notMem_of_mem_lines member
  unfold splice
  rw [sees, Document.lines_longEnds plain]
  split
  · rfl
  · cases found : anchors.findSome? (Text.offsetOf? · text) with
    | none =>
      rw [found, Option.map_none, Option.map_eq_none_iff] at places
      simp only [places, Edit.longEnds]
      rw [rendered]
      intro line member
      simp only [List.mem_append, List.mem_singleton] at member
      rcases member with ((kept | rfl) | new) | rfl
      · split at kept
        · exact old (List.dropLast_subset _ kept)
        · exact old kept
      · exact List.not_mem_nil
      · exact free line new
      · exact List.not_mem_nil
    | some offset =>
      rw [found, Option.map_some, Option.map_eq_some_iff] at places
      obtain ⟨offset', found', same⟩ := places
      simp only [found', same, Edit.longEnds]
      rw [rendered]
      intro line member
      rcases mem_insertAt.mp member with new | inLines
      · rcases List.mem_append.mp new with inFragment | blank
        · exact free line inFragment
        · split at blank
          · rw [List.mem_singleton.mp blank]
            exact List.not_mem_nil
          · cases blank
      · exact old inLines

end Insertions

/-! ## Removals -/

namespace Java

/-- Methods are removed by looking at lines, so both texts lose the same. -/
theorem removeMethods_longEnds {test : LineTest} {text : Text} (plain : '\r' ∉ text) :
    removeMethods test (longEnds text) = (removeMethods test text).longEnds := by
  have sub := @kept_sublist test 0 false 0 (Document.lines text)
  rw [List.drop_zero] at sub
  have rendered : Document.render (longEnds text) (removeFrom test 0 false 0 (Document.lines text)).kept =
      longEnds (Document.render text (removeFrom test 0 false 0 (Document.lines text)).kept) := by
    refine Document.render_longEnds plain
      (fun line member => Document.lineFeed_notMem_of_mem_lines (sub.subset member)) ?_
    by_cases fed : '\n' ∈ text
    · exact .inl fed
    · rw [Document.lines_eq_singleton fed] at sub ⊢
      exact .inr sub.length_le
  unfold removeMethods
  rw [Document.lines_longEnds plain]
  simp only [rendered]
  split
  · rfl
  · split <;> rfl

theorem plain_removeMethods {test : LineTest} {text : Text} (plain : '\r' ∉ text) :
    '\r' ∉ (removeMethods test text).text := by
  have sub := @kept_sublist test 0 false 0 (Document.lines text)
  rw [List.drop_zero] at sub
  have rendered : '\r' ∉ Document.render text (removeFrom test 0 false 0 (Document.lines text)).kept :=
    Document.plain_render plain fun line member => Document.plain_of_mem_lines plain (sub.subset member)
  unfold removeMethods
  dsimp only
  split
  · exact rendered
  · split
    · exact plain
    · exact rendered

end Java

/-! ## Imports -/

namespace Pattern

theorem follows_word : Follows (run1 isWord) :=
  (follows_one (by decide) (by decide)).append (follows_run (by decide) (by decide))

theorem avoids_word : Avoids (run1 isWord) := (avoids_one (by decide)).append

theorem crosses_blank : isBlank '\r' = true := by decide

private theorem stops_repeated_of_none {p : Pattern} {place : Cursor} (never : p.stops place = []) :
    (repeated p).stops place = [place] := by
  rw [stops]
  cases place.after.length with
  | zero => rfl
  | succ bound => simp [repetitions, never]

private theorem mem_stops_repeated (p : Pattern) (place : Cursor) : place ∈ (repeated p).stops place := by
  rw [stops]
  cases place.after.length <;> simp [repetitions]

private theorem startsAt_append_of_only {p q : Pattern} {place : Cursor} (only : p.stops place = [place]) :
    (p ++ q).startsAt place = q.startsAt place := by
  change (!((p.stops place).flatMap q.stops).isEmpty) = _
  rw [only, List.flatMap_singleton]
  rfl

private theorem startsAt_append_of_mem {p q : Pattern} {place : Cursor} (here : place ∈ p.stops place)
    (starts : q.startsAt place = true) : (p ++ q).startsAt place = true := by
  obtain ⟨mid, rest, cut, spans⟩ := startsAt_iff.mp starts
  refine startsAt_iff.mpr ⟨mid, rest, cut, spans_append.mpr ⟨[], mid, rfl, ?_, spans⟩⟩
  rw [Spans, List.nil_append, List.reverse_nil, List.nil_append, ← cut]
  exact here

end Pattern

namespace Java

open Pattern

variable {name : Text}

/-- A declaration may have white space before and behind its type arguments, so that a line end there
can be divided between the two; without type arguments it belongs to either. -/
theorem sees_declaration {arguments : Pattern} (follows : arguments.Follows) (avoids : arguments.Avoids) :
    Sees (blanks ++ (arguments.optional ++
      (repeated (exactly "[]".toList) ++ (blanks1 ++ run1 isWord)))) := by
  have named : Follows (blanks1 ++ run1 isWord) := follows_run1_append crosses_blank follows_word avoids_word
  refine sees_run_append crosses_blank (follows.optional.append
    ((follows_exactly (by decide)).repeated.append named)) ?_
  intro before after starts
  have splits : Cursor.SplitsEnd ⟨'\r' :: before, '\n' :: after⟩ := ⟨rfl, rfl⟩
  have later : (blanks1 ++ run1 isWord).startsAt ⟨'\r' :: before, '\n' :: after⟩ = true := by
    have noArguments : arguments.optional.stops ⟨'\r' :: before, '\n' :: after⟩ = [_] :=
      congrArg (· ++ [_]) (avoids _ splits)
    have noBrackets := stops_repeated_of_none
      (@avoids_exactly "[]".toList _ rfl (by decide) ⟨'\r' :: before, '\n' :: after⟩ splits)
    rwa [startsAt_append_of_only noArguments, startsAt_append_of_only noBrackets] at starts
  refine startsAt_append_of_mem (List.mem_append_right _ (List.mem_singleton.mpr rfl))
    (startsAt_append_of_mem (mem_stops_repeated _ _) ?_)
  obtain ⟨mid, rest, cut, spans⟩ := startsAt_iff.mp later
  obtain ⟨front, back, rfl, blank, named⟩ := spans_append.mp spans
  refine startsAt_iff.mpr ⟨'\r' :: (front ++ back), rest, congrArg ('\r' :: ·) cut, spans_append.mpr
    ⟨'\r' :: front, back, rfl, spans_run1.mpr ⟨by simp, ?_⟩, by simpa using named⟩⟩
  simpa [crosses_blank] using (spans_run1.mp blank).2

private theorem sees_usagePatterns (single : name.IsSingleLine) (some_ : name ≠ []) :
    ∀ p ∈ usagePatterns name, p.Sees ∧ p.Avoids := by
  obtain ⟨first, others, spelled⟩ := List.exists_cons_of_ne_nil some_
  have word : Follows (exactly name) := follows_exactly single
  have wordAvoids : Avoids (exactly name) := by
    refine avoids_exactly (by rw [spelled]; rfl) ?_
    rintro rfl
    exact single.1 (by simp [spelled])
  have behindBlanks {front : Text} (spelled : front.IsSingleLine) :
      Follows (exactly front ++ blanks1 ++ exactly name) :=
    ((follows_exactly spelled).append (follows_run1_append crosses_blank word wordAvoids)).assoc
  have inClause {front : Text} (spelled : front.IsSingleLine) :
      Follows (exactly front ++ blanks1 ++ withinLine ++ wordEdge) := by
    refine Follows.assoc (Follows.assoc ((follows_exactly spelled).append ?_))
    exact follows_run1_append crosses_blank (follows_run_append (by decide) follows_wordEdge avoids_wordEdge)
      (avoids_run_append (by decide) avoids_wordEdge)
  intro p member
  simp only [usagePatterns, List.mem_cons, List.not_mem_nil, or_false] at member
  rcases member with rfl | rfl | rfl | rfl | rfl | rfl | rfl | rfl | rfl
  · exact ⟨(((follows_exactly (by decide)).append word).append follows_wordEdge).sees,
      (avoids_exactly rfl (by decide)).append.append⟩
  · exact ⟨((follows_wordEdge.append word).append (follows_exactly (by decide))).sees,
      avoids_wordEdge.append.append⟩
  · exact ⟨(((follows_wordEdge.append (follows_exactly (by decide))).append
      (follows_run1_append crosses_blank word wordAvoids)).assoc.append follows_wordEdge).sees,
      avoids_wordEdge.append.append.append.append⟩
  · have arguments : Follows (exactly "<".toList ++
        run (fun c => c != ';' && c != '\x7b' && c != '(' && c != ')') ++ exactly ">".toList) :=
      ((follows_exactly (by decide)).append (follows_run_append (by decide) (follows_exactly (by decide))
        (avoids_exactly rfl (by decide)))).assoc
    have declared := sees_declaration arguments (avoids_exactly rfl (by decide)).append.append
    exact ⟨((follows_wordEdge.append word).append_sees declared).assoc.assoc.assoc.assoc,
      avoids_wordEdge.append.append.append.append.append.append⟩
  · exact ⟨(((follows_exactly (by decide)).append word).append (follows_one (by decide) (by decide))).sees,
      (avoids_exactly rfl (by decide)).append.append⟩
  · exact ⟨(((follows_exactly (by decide)).append word).append follows_wordEdge).sees,
      (avoids_exactly rfl (by decide)).append.append⟩
  · exact ⟨(((inClause (by decide)).append word).append follows_wordEdge).sees,
      (avoids_exactly rfl (by decide)).append.append.append.append.append⟩
  · exact ⟨((behindBlanks (by decide)).append follows_wordEdge).sees,
      (avoids_exactly rfl (by decide)).append.append.append⟩
  · exact ⟨(((inClause (by decide)).append word).append follows_wordEdge).sees,
      (avoids_exactly rfl (by decide)).append.append.append.append.append⟩

private theorem isUsed_longEnds (single : name.IsSingleLine) (some_ : name ≠ []) {text : Text}
    (plain : '\r' ∉ text) : isUsed name (longEnds text) = isUsed name text := by
  rw [isUsed, isUsed, Bool.eq_iff_iff, List.any_eq_true, List.any_eq_true]
  refine exists_congr fun p => and_congr_right fun member => ?_
  obtain ⟨sees, avoids⟩ := sees_usagePatterns single some_ p member
  rw [occursIn_longEnds sees avoids plain]

private theorem follows_importLine {statement : Text} (single : statement.IsSingleLine) :
    (importLine statement).Follows :=
  have spaces : Follows (run isBlankOrTab) := follows_run (by decide) (by decide)
  (((follows_lineStart.append spaces).append (follows_exactly single)).append spaces).append
    follows_lineBreakOrEnd

private theorem avoids_importLine (statement : Text) : (importLine statement).Avoids :=
  avoids_lineStart.append.append.append.append

private theorem mem_of_mem_eraseFirst {part text : Text} {c : Char} (member : c ∈ Text.eraseFirst part text) :
    c ∈ text := by
  induction text with
  | nil => exact member
  | cons d text ih =>
    rw [Text.eraseFirst] at member
    split at member
    · next tail starts =>
      rw [Text.after?_eq_some_iff.mp starts]
      exact List.mem_append_right _ member
    · rcases List.mem_cons.mp member with rfl | later
      · exact List.mem_cons_self
      · exact List.mem_cons_of_mem _ (ih later)

/-- A class name has no line ends, whatever it was found in. -/
theorem isSingleLine_importClassName (line : Text) : (importClassName line).IsSingleLine := by
  rw [importClassName]
  split
  · next found first =>
    obtain ⟨mid, after, before, spans⟩ := Probe.spans_of_find?_eq_some first
    have named : found.text = mid := by
      simp [Stretch.text, Cursor.offset, before, after]
    obtain ⟨_, back, rfl, front, rest⟩ := spans_append.mp spans
    obtain ⟨c, starts, rfl⟩ := spans_one.mp front
    have words := spans_run.mp rest
    have outside {d : Char} (noStart : (d.isAlpha || d == '_') = false) (noWord : isWord d = false) :
        d ∉ [c] ++ back := by
      rw [List.singleton_append, List.mem_cons, not_or]
      refine ⟨fun same => ?_, fun member => ?_⟩
      · rw [← same, noStart] at starts
        cases starts
      · have word := words d member
        rw [noWord] at word
        cases word
    rw [named]
    exact ⟨outside (by decide) (by decide), outside (by decide) (by decide)⟩
  · exact ⟨List.not_mem_nil, List.not_mem_nil⟩

/-- A candidate that fits on a line. -/
structure FitsLine (statement : Text) : Prop where
  some_ : statement ≠ []
  single : statement.IsSingleLine

/-- The same pruning of the text with long line ends. -/
def Pruning.longEnds (state : Pruning) : Pruning := { state with text := Document.longEnds state.text }

private theorem consider_longEnds {statement : Text} (fits : FitsLine statement) {state : Pruning}
    (plain : '\r' ∉ state.text) :
    state.longEnds.consider statement = (state.consider statement).longEnds := by
  unfold Pruning.consider
  simp only [Pruning.longEnds, Document.includes_longEnds fits.single,
    Document.eraseFirst_longEnds fits.single fits.some_,
    eraseFirst?_longEnds (follows_importLine fits.single) (avoids_importLine statement) plain]
  split
  · rfl
  · split
    · rfl
    · next named =>
      rw [AskedNames.uses_eq_isUsed, AskedNames.uses_eq_isUsed,
        isUsed_longEnds (isSingleLine_importClassName statement) (by simpa using named)
          fun member => plain (mem_of_mem_eraseFirst member)]
      split
      · rfl
      · cases (importLine statement).eraseFirst? state.text <;> rfl

private theorem plain_consider {state : Pruning} (plain : '\r' ∉ state.text) (statement : Text) :
    '\r' ∉ (state.consider statement).text := by
  rcases consider_cases state statement with ⟨-, erased, -⟩ | ⟨-, same, -⟩
  · obtain ⟨found, first, rest⟩ := Option.map_eq_some_iff.mp erased
    obtain ⟨mid, cut, -, -⟩ := exists_spans_of_find?_eq_some first
    rw [cut, List.mem_append, List.mem_append, not_or, not_or] at plain
    rw [← rest, List.mem_append, not_or]
    exact ⟨plain.1.1, plain.2⟩
  · rwa [same]

theorem pruneImports_longEnds {candidates : List Text} (fit : ∀ statement ∈ candidates, FitsLine statement)
    (asked : AskedNames) {text : Text} (plain : '\r' ∉ text) :
    pruneImports candidates asked (longEnds text) =
      Prod.map Edit.longEnds id (pruneImports candidates asked text) := by
  have folded {state : Pruning} (plain : '\r' ∉ state.text) :
      candidates.foldl Pruning.consider state.longEnds =
        (candidates.foldl Pruning.consider state).longEnds := by
    induction candidates generalizing state with
    | nil => rfl
    | cons statement candidates ih =>
      rw [List.foldl_cons, List.foldl_cons, consider_longEnds (fit statement (by simp)) plain]
      exact ih (fun other member => fit other (by simp [member])) (plain_consider plain statement)
  have final := @folded { text, asked, removed := [] } plain
  rw [Pruning.longEnds] at final
  unfold pruneImports
  rw [final]
  dsimp only [Pruning.longEnds]
  split <;> rfl

end Java

/-! ## Steps in a row -/

/-- The same results for the text with long line ends. -/
def Steps.longEnds (results : Steps) : Steps := results.map fun result => (result.1, result.2.longEnds)

/-- A step does the same to both texts. -/
def EditStep.Agrees (step : EditStep) (text : Text) : Prop :=
  step (longEnds text) = (step text).map Edit.longEnds

/-- What holds of a text holds of what a step makes of it. -/
def EditStep.Keeps (kind : Text → Prop) (step : EditStep) (text : Text) : Prop :=
  ∀ edit, step text = .ok edit → kind edit.text

/-- Steps in a row agree if each of them does, on the text that the ones before it made. -/
theorem runSteps_cons_longEnds {name : Text} {step : EditStep} {others : List (Text × EditStep)}
    {text : Text} (agrees : step.Agrees text)
    (later : ∀ edit, step text = .ok edit → runSteps (longEnds edit.text) others =
      (runSteps edit.text others).map fun result => (longEnds result.1, Steps.longEnds result.2)) :
    runSteps (longEnds text) ((name, step) :: others) = (runSteps text ((name, step) :: others)).map
      fun result => (longEnds result.1, Steps.longEnds result.2) := by
  rw [runSteps, runSteps, agrees]
  cases ran : step text with
  | error failure => rfl
  | ok edit =>
    simp only [Except.map, bind, Except.bind, Edit.longEnds, later edit ran]
    cases runSteps edit.text others <;> rfl

theorem runSteps_longEnds {kind : Text → Prop} {steps : List (Text × EditStep)}
    (agree : ∀ step ∈ steps, ∀ text, kind text → step.2.Agrees text ∧ step.2.Keeps kind text)
    {text : Text} (start : kind text) :
    runSteps (longEnds text) steps =
      (runSteps text steps).map fun result => (longEnds result.1, Steps.longEnds result.2) := by
  induction steps generalizing text with
  | nil => rfl
  | cons step steps ih =>
    obtain ⟨agrees, keeps⟩ := agree step (by simp) text start
    refine runSteps_cons_longEnds agrees fun edit ran => ?_
    exact ih (fun step member => agree step (by simp [member])) (keeps edit ran)

/-- What every step keeps, steps in a row keep. -/
theorem keeps_runSteps {kind : Text → Prop} {steps : List (Text × EditStep)}
    (keep : ∀ step ∈ steps, ∀ text, kind text → step.2.Keeps kind text) {text final : Text}
    {results : Steps} (start : kind text) (ran : runSteps text steps = .ok (final, results)) :
    kind final := by
  induction steps generalizing text results with
  | nil =>
    obtain ⟨rfl, -⟩ := Prod.mk.inj (Except.ok.inj ran)
    exact start
  | cons step steps ih =>
    obtain ⟨edit, results, stepped, rest, -⟩ := ReadOnly.exists_runSteps_cons ran
    exact ih (fun step member => keep step (by simp [member])) (keep step (by simp) text start edit stepped) rest

end ReadOnlyViews
