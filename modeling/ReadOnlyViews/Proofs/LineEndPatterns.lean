import ReadOnlyViews.Proofs.LineEnds
import ReadOnlyViews.Proofs.Patterns

/-! Matches in texts with short line ends and in the same texts with long ones.  A pattern follows
the line ends if its matches in the longer text are those in the shorter one, in the same order.  The
longer text has places that the shorter one lacks, between the two halves of a line end; a pattern
that can stop there follows only together with what comes behind it. -/
namespace ReadOnlyViews

open Document (longEnds longEndsBack longEnds_cons longEndsBack_cons)

/-! ## Places -/

namespace Cursor

/-- The same place in the text with long line ends. -/
def longEnds (place : Cursor) : Cursor :=
  ⟨longEndsBack place.before, Document.longEnds place.after⟩

/-- The text around a place has no carriage return. -/
def IsPlain (place : Cursor) : Prop := '\r' ∉ place.before ∧ '\r' ∉ place.after

/-- The place lies between the two halves of a long line end. -/
def SplitsEnd (place : Cursor) : Prop :=
  place.before.head? = some '\r' ∧ place.after.head? = some '\n'

private theorem IsPlain.of_passes {place stop : Cursor} (plain : place.IsPlain)
    (passes : Pattern.Passes place stop) : stop.IsPlain := by
  obtain ⟨mid, after, before⟩ := passes
  obtain ⟨plainBefore, plainAfter⟩ := plain
  rw [after, List.mem_append, not_or] at plainAfter
  refine ⟨?_, plainAfter.2⟩
  rw [before, List.mem_append, not_or, List.mem_reverse]
  exact ⟨plainAfter.1, plainBefore⟩

theorem longEnds_of_passes {mid : Text} {place stop : Cursor} (after : place.after = mid ++ stop.after)
    (before : stop.before = mid.reverse ++ place.before) :
    place.longEnds.after = Document.longEnds mid ++ stop.longEnds.after ∧
      stop.longEnds.before = (Document.longEnds mid).reverse ++ place.longEnds.before := by
  constructor
  · rw [longEnds, after]
    exact Document.longEnds_append mid stop.after
  · rw [longEnds, before]
    exact Document.longEndsBack_append mid place.before

/-- A place of the longer text is one of the shorter, or splits a line end. -/
theorem exists_of_longEnds_eq_append {text front rest : Text}
    (cut : Document.longEnds text = front ++ rest) :
    (∃ front' rest', text = front' ++ rest' ∧ front = Document.longEnds front' ∧
      rest = Document.longEnds rest') ∨ SplitsEnd ⟨front.reverse, rest⟩ := by
  induction text generalizing front with
  | nil =>
    obtain ⟨rfl, rfl⟩ := List.append_eq_nil_iff.mp cut.symm
    exact .inl ⟨[], [], rfl, rfl, rfl⟩
  | cons c text ih =>
    cases front with
    | nil => exact .inl ⟨[], c :: text, rfl, rfl, cut.symm⟩
    | cons d front =>
      by_cases fed : c = '\n'
      · rw [fed, Document.longEnds_lf, List.cons_append] at cut
        obtain ⟨rfl, half⟩ := List.cons.inj cut
        cases front with
        | nil => exact .inr ⟨rfl, by rw [← List.nil_append rest, ← half]; rfl⟩
        | cons e front =>
          obtain ⟨rfl, further⟩ := List.cons.inj half
          rcases ih further with ⟨front', rest', rfl, rfl, rfl⟩ | ⟨left, right⟩
          · exact .inl ⟨'\n' :: front', rest', by simp [fed], rfl, rfl⟩
          · refine .inr ⟨?_, right⟩
            rw [List.reverse_cons, List.reverse_cons, List.append_assoc, List.head?_append, left]
            rfl
      · rw [longEnds_cons fed, List.cons_append] at cut
        obtain ⟨rfl, further⟩ := List.cons.inj cut
        rcases ih further with ⟨front', rest', rfl, rfl, rfl⟩ | ⟨left, right⟩
        · exact .inl ⟨c :: front', rest', rfl, (longEnds_cons fed _).symm, rfl⟩
        · refine .inr ⟨?_, right⟩
          rw [List.reverse_cons, List.head?_append, left]
          rfl

/-- A scan finds the same, if it does so at each place and finds nothing within line ends. -/
theorem scan_longEnds {α : Type} {answer? : Cursor → Option α} {longer : α → α} {before after : Text}
    (agrees : ∀ mid rest, after = mid ++ rest → answer? (longEnds ⟨mid.reverse ++ before, rest⟩) =
      (answer? ⟨mid.reverse ++ before, rest⟩).map longer)
    (avoids : ∀ place, place.SplitsEnd → answer? place = none) :
    scan answer? (longEndsBack before) (Document.longEnds after) =
      (scan answer? before after).map longer := by
  induction after generalizing before with
  | nil => exact agrees [] [] rfl
  | cons c after ih =>
    have here := agrees [] (c :: after) rfl
    have later : scan answer? (longEndsBack (c :: before)) (Document.longEnds after) =
        (scan answer? (c :: before) after).map longer := by
      refine ih fun mid rest split => ?_
      simpa using agrees (c :: mid) rest (by rw [split]; rfl)
    rw [List.reverse_nil, List.nil_append, longEnds] at here
    by_cases fed : c = '\n'
    · subst fed
      have between : answer? ⟨'\r' :: longEndsBack before, '\n' :: Document.longEnds after⟩ = none :=
        avoids _ ⟨rfl, rfl⟩
      rw [Document.longEnds_lf] at here ⊢
      simp only [scan, between]
      rw [here]
      cases answer? ⟨before, '\n' :: after⟩ with
      | some answer => rfl
      | none => exact later
    · rw [longEnds_cons fed] at here ⊢
      simp only [scan]
      rw [here]
      cases answer? ⟨before, c :: after⟩ with
      | some answer => rfl
      | none => exact longEndsBack_cons fed before ▸ later

end Cursor

/-! ## Patterns -/

namespace Pattern

/-- The matches in the text with long line ends are those in the text with short ones, in the same
order. -/
def Follows (p : Pattern) : Prop :=
  ∀ place : Cursor, place.IsPlain → p.stops place.longEnds = (p.stops place).map Cursor.longEnds

/-- No match starts between the two halves of a line end. -/
def Avoids (p : Pattern) : Prop := ∀ place : Cursor, place.SplitsEnd → p.stops place = []

private theorem append_assoc_stops (p q r : Pattern) (place : Cursor) :
    (p ++ q ++ r).stops place = (p ++ (q ++ r)).stops place :=
  List.flatMap_assoc

section Composition

variable {p q r : Pattern}

theorem Follows.assoc (follows : Follows (p ++ (q ++ r))) : Follows (p ++ q ++ r) := by
  intro place plain
  rw [append_assoc_stops, append_assoc_stops]
  exact follows place plain

theorem Follows.append (first : Follows p) (second : Follows q) : Follows (p ++ q) := by
  intro place plain
  change (p.stops place.longEnds).flatMap q.stops = ((p.stops place).flatMap q.stops).map Cursor.longEnds
  rw [first place plain, List.flatMap_map, List.map_flatMap]
  refine List.flatMap_congr fun stop member => ?_
  exact second stop (plain.of_passes (p.passes_of_mem_stops member))

theorem Follows.either (first : Follows p) (second : Follows q) : Follows (either p q) := by
  intro place plain
  change p.stops _ ++ q.stops _ = (p.stops place ++ q.stops place).map Cursor.longEnds
  rw [first place plain, second place plain, List.map_append]

theorem follows_nothing : Follows nothing := fun _ _ => rfl

theorem Follows.optional (follows : Follows p) : Follows p.optional := follows.either follows_nothing

theorem Follows.times (follows : Follows p) (count : Nat) : Follows (times p count) := by
  induction count with
  | zero => exact follows_nothing
  | succ count ih => exact follows.append ih

/-- A test of the place that both texts answer alike. -/
private theorem follows_test {test : Cursor → Bool} {place : Cursor}
    (same : test place.longEnds = test place) :
    (if test place.longEnds = true then [place.longEnds] else []) =
      (if test place = true then [place] else []).map Cursor.longEnds := by
  rw [same]
  split <;> rfl

theorem Follows.notAhead (follows : Follows p) : Follows (notAhead p) := by
  intro place plain
  refine @follows_test (fun place => (p.stops place).isEmpty) place ?_
  rw [follows place plain]
  cases p.stops place <;> rfl

theorem Avoids.append (avoids : Avoids p) : Avoids (p ++ q) := by
  intro place splits
  change (p.stops place).flatMap q.stops = []
  rw [avoids place splits]
  rfl

theorem Avoids.nothing_append (avoids : Avoids p) : Avoids (nothing ++ p) := by
  intro place splits
  change [place].flatMap p.stops = []
  simpa using avoids place splits

theorem Avoids.optional_append (first : Avoids p) (second : Avoids q) : Avoids (p.optional ++ q) := by
  intro place splits
  change (p.stops place ++ [place]).flatMap q.stops = []
  rw [first place splits]
  simpa using second place splits

end Composition

/-! ### Single forms -/

section Forms

variable {allowed : Char → Bool} {part : Text}

theorem follows_exactly (single : part.IsSingleLine) : Follows (exactly part) := by
  intro place _
  have past (place : Cursor) :
      place.longEnds.past? part = (place.past? part).map Cursor.longEnds := by
    induction part generalizing place with
    | nil => rfl
    | cons c part ih =>
      obtain ⟨free, unreturned⟩ := single
      simp only [List.mem_cons, not_or] at free unreturned
      obtain ⟨before, after⟩ := place
      cases after with
      | nil => rfl
      | cons d after =>
        by_cases fed : d = '\n'
        · simp [fed, Cursor.longEnds, Cursor.past?, Ne.symm free.1, Ne.symm unreturned.1]
        · rw [Cursor.longEnds, longEnds_cons fed, Cursor.past?, Cursor.past?]
          split
          · have further := ih ⟨free.2, unreturned.2⟩ ⟨d :: before, after⟩
            rwa [Cursor.longEnds, longEndsBack_cons fed] at further
          · rfl
  change (place.longEnds.past? part).toList = (place.past? part).toList.map Cursor.longEnds
  rw [past]
  cases place.past? part <;> rfl

theorem follows_one (noFeed : allowed '\n' = false) (noReturn : allowed '\r' = false) :
    Follows (one allowed) := by
  rintro ⟨before, after⟩ _
  cases after with
  | nil => rfl
  | cons c after =>
    by_cases fed : c = '\n'
    · simp [fed, stops, Cursor.longEnds, noFeed, noReturn]
    · rw [Cursor.longEnds, longEnds_cons fed, stops, stops]
      split
      · simp [Cursor.longEnds, longEndsBack_cons fed]
      · rfl

theorem follows_run (noFeed : allowed '\n' = false) (noReturn : allowed '\r' = false) :
    Follows (run allowed) := by
  have runs (before after : Text) (shorter : List Cursor) :
      Cursor.runs allowed (longEndsBack before) (longEnds after) (shorter.map Cursor.longEnds) =
        (Cursor.runs allowed before after shorter).map Cursor.longEnds := by
    induction after generalizing before shorter with
    | nil => rfl
    | cons c after ih =>
      by_cases fed : c = '\n'
      · simp [fed, Cursor.runs, Cursor.longEnds, noFeed, noReturn]
      · rw [longEnds_cons fed, Cursor.runs, Cursor.runs]
        split
        · have further := ih (c :: before) (⟨before, c :: after⟩ :: shorter)
          rwa [longEndsBack_cons fed, List.map_cons, Cursor.longEnds, longEnds_cons fed] at further
        · simp [Cursor.longEnds, longEnds_cons fed]
  exact fun place _ => runs place.before place.after []

theorem follows_lineStart : Follows lineStart := by
  rintro ⟨before, after⟩ _
  refine @follows_test Cursor.atLineStart _ ?_
  cases before with
  | nil => rfl
  | cons c before =>
    by_cases fed : c = '\n'
    · simp [fed, Cursor.longEnds, Cursor.atLineStart]
    · simp [Cursor.longEnds, longEndsBack_cons fed, Cursor.atLineStart]

theorem follows_wordEdge : Follows wordEdge := by
  rintro ⟨before, after⟩ _
  refine @follows_test Cursor.atWordEdge _ ?_
  have noFeed : isWord '\n' = false := by decide
  have noReturn : isWord '\r' = false := by decide
  have left : (longEndsBack before).head?.any isWord = before.head?.any isWord := by
    cases before with
    | nil => rfl
    | cons c before =>
      by_cases fed : c = '\n'
      · simp [fed]
      · simp [longEndsBack_cons fed]
  have right : (longEnds after).head?.any isWord = after.head?.any isWord := by
    cases after with
    | nil => rfl
    | cons c after =>
      by_cases fed : c = '\n'
      · simp [fed, noFeed, noReturn]
      · simp [longEnds_cons fed]
  rw [Cursor.atWordEdge, Cursor.atWordEdge, Cursor.longEnds, left, right]

private theorem follows_textEnd : Follows textEnd := by
  intro place _
  refine @follows_test (fun place => place.after.isEmpty) _ ?_
  rw [Bool.eq_iff_iff, List.isEmpty_iff, List.isEmpty_iff]
  exact Document.longEnds_eq_nil_iff

theorem avoids_lineStart : Avoids lineStart := by
  rintro ⟨before, after⟩ ⟨left, -⟩
  obtain ⟨rest, rfl⟩ := List.head?_eq_some_iff.mp left
  rfl

theorem avoids_wordEdge : Avoids wordEdge := by
  rintro ⟨before, after⟩ ⟨left, right⟩
  have noFeed : isWord '\n' = false := by decide
  have noReturn : isWord '\r' = false := by decide
  have inside : (⟨before, after⟩ : Cursor).atWordEdge = false := by
    simp only [Cursor.atWordEdge]
    rw [left, right]
    simp [noFeed, noReturn]
  rw [stops, inside]
  rfl

theorem avoids_exactly {c : Char} (first : part.head? = some c) (visible : c ≠ '\n') :
    Avoids (exactly part) := by
  rintro ⟨before, after⟩ ⟨-, right⟩
  obtain ⟨part, rfl⟩ := List.head?_eq_some_iff.mp first
  obtain ⟨rest, rfl⟩ := List.head?_eq_some_iff.mp right
  simp [stops, Cursor.past?, visible]

theorem avoids_one (noFeed : allowed '\n' = false) : Avoids (one allowed) := by
  rintro ⟨before, after⟩ ⟨-, right⟩
  obtain ⟨rest, rfl⟩ := List.head?_eq_some_iff.mp right
  simp [stops, noFeed]

theorem avoids_run_append {q : Pattern} (noFeed : allowed '\n' = false) (avoids : Avoids q) :
    Avoids (run allowed ++ q) := by
  rintro ⟨before, after⟩ splits
  obtain ⟨rest, rfl⟩ := List.head?_eq_some_iff.mp splits.2
  change (Cursor.runs allowed before ('\n' :: rest) []).flatMap q.stops = []
  simp [Cursor.runs, noFeed, avoids _ splits]

end Forms

/-! ### Runs that may cross line ends -/

section Crossing

variable {allowed : Char → Bool} {p q : Pattern}

/-- What follows a run that may cross line ends sees all its stops in the longer text: those of the
shorter text, and behind each line that it passes or reaches the end of, the split end. -/
private theorem flatMap_runs {longer shorter : Cursor → List Cursor} (crosses : allowed '\r' = true)
    (same : ∀ place : Cursor, place.IsPlain → place.after.head? ≠ some '\n' →
      longer place.longEnds = shorter place)
    (atEnd : ∀ before after, Cursor.IsPlain ⟨before, '\n' :: after⟩ →
      longer ⟨'\r' :: longEndsBack before, '\n' :: longEnds after⟩ ++
        longer ⟨longEndsBack before, '\r' :: '\n' :: longEnds after⟩ =
          shorter ⟨before, '\n' :: after⟩)
    {before after : Text} (plain : Cursor.IsPlain ⟨before, after⟩) {some_ others : List Cursor}
    (rest : some_.flatMap longer = others.flatMap shorter) :
    (Cursor.runs allowed (longEndsBack before) (longEnds after) some_).flatMap longer =
      (Cursor.runs allowed before after others).flatMap shorter := by
  induction after generalizing before some_ others with
  | nil =>
    have here := same ⟨before, []⟩ plain (by simp)
    rw [Cursor.longEnds] at here
    simp only [Document.longEnds_nil, Cursor.runs, List.flatMap_cons, rest] at here ⊢
    rw [here]
  | cons c after ih =>
    have next : Cursor.IsPlain ⟨c :: before, after⟩ := plain.of_passes ⟨[c], rfl, rfl⟩
    by_cases fed : c = '\n'
    · subst fed
      have here := atEnd before after plain
      have further : (⟨'\r' :: longEndsBack before, '\n' :: longEnds after⟩ ::
          ⟨longEndsBack before, '\r' :: '\n' :: longEnds after⟩ :: some_).flatMap longer =
            (⟨before, '\n' :: after⟩ :: others).flatMap shorter := by
        rw [List.flatMap_cons, List.flatMap_cons, ← List.append_assoc, here, rest, List.flatMap_cons]
      rw [Document.longEnds_lf, Cursor.runs, if_pos crosses, Cursor.runs, Cursor.runs]
      split
      · exact ih next further
      · exact further
    · have here := same ⟨before, c :: after⟩ plain (by simpa using fed)
      rw [Cursor.longEnds, longEnds_cons fed] at here
      have further : (⟨longEndsBack before, c :: longEnds after⟩ :: some_).flatMap longer =
          (⟨before, c :: after⟩ :: others).flatMap shorter := by
        rw [List.flatMap_cons, List.flatMap_cons, here, rest]
      rw [longEnds_cons fed, Cursor.runs, Cursor.runs]
      split
      · exact longEndsBack_cons fed before ▸ ih next further
      · exact further

private theorem flatMap_runs_follows (crosses : allowed '\r' = true) (follows : Follows q)
    (avoids : Avoids q) {place : Cursor} (plain : place.IsPlain) {dead : List Cursor}
    (ended : dead.flatMap q.stops = []) :
    (Cursor.runs allowed place.longEnds.before place.longEnds.after dead).flatMap q.stops =
      ((run allowed ++ q).stops place).map Cursor.longEnds := by
  change _ = ((Cursor.runs allowed place.before place.after []).flatMap q.stops).map Cursor.longEnds
  rw [List.map_flatMap]
  refine flatMap_runs crosses (fun place plain _ => follows place plain) ?_ plain ended
  intro before after plain
  rw [avoids ⟨'\r' :: longEndsBack before, '\n' :: longEnds after⟩ ⟨rfl, rfl⟩, List.nil_append]
  exact follows ⟨before, '\n' :: after⟩ plain

theorem follows_run_append (crosses : allowed '\r' = true) (follows : Follows q) (avoids : Avoids q) :
    Follows (run allowed ++ q) :=
  fun _ plain => flatMap_runs_follows crosses follows avoids plain rfl

/-- A line feed behind a run is found at the split end. -/
theorem follows_run_lineFeed (crosses : allowed '\r' = true) :
    Follows (run allowed ++ exactly "\n".toList) := by
  rintro ⟨before, after⟩ plain
  change (Cursor.runs allowed (longEndsBack before) (longEnds after) []).flatMap (exactly "\n".toList).stops =
    ((Cursor.runs allowed before after []).flatMap (exactly "\n".toList).stops).map Cursor.longEnds
  rw [List.map_flatMap]
  refine flatMap_runs crosses ?_ (fun before after _ => rfl) plain rfl
  rintro ⟨before, after⟩ - open_
  cases after with
  | nil => rfl
  | cons c after =>
    have fed : c ≠ '\n' := by simpa using open_
    simp [Cursor.longEnds, longEnds_cons fed, stops, Cursor.past?, Ne.symm fed]

theorem follows_run1_append (crosses : allowed '\r' = true) (follows : Follows q) (avoids : Avoids q) :
    Follows (run1 allowed ++ q) := by
  refine Follows.assoc ?_
  rintro ⟨before, after⟩ plain
  change ((one allowed).stops _).flatMap (run allowed ++ q).stops =
    (((one allowed).stops _).flatMap (run allowed ++ q).stops).map Cursor.longEnds
  cases after with
  | nil => rfl
  | cons c after =>
    have next : Cursor.IsPlain ⟨c :: before, after⟩ := plain.of_passes ⟨[c], rfl, rfl⟩
    by_cases fed : c = '\n'
    · -- the first character of the run is the first half of the line end
      subst fed
      have splits : q.stops ⟨'\r' :: longEndsBack before, '\n' :: longEnds after⟩ = [] :=
        avoids _ ⟨rfl, rfl⟩
      simp only [Cursor.longEnds, Document.longEnds_lf, stops, crosses, if_true, List.flatMap_cons,
        List.flatMap_nil, List.append_nil]
      change (Cursor.runs allowed _ ('\n' :: longEnds after) []).flatMap q.stops = _
      rw [Cursor.runs]
      split
      · rw [List.flatMap_cons, List.flatMap_nil, List.append_nil]
        exact flatMap_runs_follows crosses follows avoids next (by simp [splits])
      · simp [splits]
    · have further := follows_run_append crosses follows avoids ⟨c :: before, after⟩ next
      simp only [Cursor.longEnds, longEnds_cons fed, stops]
      split
      · simpa [Cursor.longEnds, longEndsBack_cons fed] using further
      · rfl

end Crossing

/-- The end of a line, long or short, or that of the text. -/
theorem follows_lineBreak : Follows ((exactly ['\r']).optional ++ exactly ['\n']) := by
  rintro ⟨before, after⟩ ⟨-, plain⟩
  cases after with
  | nil => rfl
  | cons c after =>
    simp only [List.mem_cons, not_or] at plain
    by_cases fed : c = '\n'
    · subst fed
      rfl
    · change ((exactly ['\r']).stops _ ++ [_]).flatMap _ =
        (((exactly ['\r']).stops _ ++ [_]).flatMap _).map Cursor.longEnds
      simp [Cursor.longEnds, longEnds_cons fed, stops, Cursor.past?, Ne.symm fed, plain.1]

theorem follows_lineBreakOrEnd : Follows lineBreakOrEnd := follows_lineBreak.either follows_textEnd

/-- Repetitions of a step that agrees in both texts agree; the bounds differ, but bind in neither. -/
private theorem repetitions_longEnds {p : Pattern} (follows : Follows p) (bound wider : Nat)
    {place : Cursor} (plain : place.IsPlain) (enough : place.after.length ≤ bound)
    (more : place.longEnds.after.length ≤ wider) :
    repetitions p.stops wider place.longEnds = (repetitions p.stops bound place).map Cursor.longEnds := by
  -- At the end of the text no step goes further, whatever the bound.
  have ended (bound : Nat) {place : Cursor} (last : place.after = []) :
      repetitions p.stops bound place = [place] := by
    cases bound with
    | zero => rfl
    | succ bound => simp [repetitions, last]
  have endsAlike (place : Cursor) : place.longEnds.after = [] ↔ place.after = [] :=
    Document.longEnds_eq_nil_iff
  induction bound generalizing place wider with
  | zero =>
    have last : place.after = [] := List.length_eq_zero_iff.mp (Nat.le_zero.mp enough)
    rw [ended _ last, ended _ ((endsAlike place).mpr last)]
    rfl
  | succ bound ih =>
    cases wider with
    | zero =>
      have last : place.longEnds.after = [] := List.length_eq_zero_iff.mp (Nat.le_zero.mp more)
      rw [ended _ last, ended _ ((endsAlike place).mp last)]
      rfl
    | succ wider =>
      have consumes (next : Cursor) (member : next ∈ p.stops place) :
          next.longEnds.after.length < place.longEnds.after.length ↔
            next.after.length < place.after.length := by
        obtain ⟨mid, after, before⟩ := p.passes_of_mem_stops member
        have empty : (longEnds mid).length = 0 ↔ mid.length = 0 := by simp
        rw [(Cursor.longEnds_of_passes after before).1, after, List.length_append, List.length_append]
        omega
      rw [repetitions, repetitions, follows place plain, List.filter_map, List.flatMap_map,
        List.map_append, List.map_flatMap]
      have kept : (p.stops place).filter ((fun next => decide (next.after.length <
          place.longEnds.after.length)) ∘ Cursor.longEnds) =
          (p.stops place).filter fun next => decide (next.after.length < place.after.length) :=
        List.filter_congr fun next member => decide_eq_decide.mpr (consumes next member)
      rw [kept]
      refine congrArg (· ++ [place.longEnds]) (List.flatMap_congr fun next member => ?_)
      obtain ⟨stepped, shorter⟩ := List.mem_filter.mp member
      have shorter : next.after.length < place.after.length := by simpa using shorter
      have shorter' := (consumes next stepped).mpr shorter
      exact ih wider (plain.of_passes (p.passes_of_mem_stops stepped)) (by omega) (by omega)

theorem Follows.repeated {p : Pattern} (follows : Follows p) : Follows (repeated p) :=
  fun _ plain => repetitions_longEnds follows _ _ plain (Nat.le_refl _) (Nat.le_refl _)

end Pattern

/-! ## The first match, and all of them -/

theorem findSome?_congr_of_mem {α β : Type} {f g : α → Option β} {items : List α}
    (same : ∀ item ∈ items, f item = g item) : items.findSome? f = items.findSome? g := by
  induction items with
  | nil => rfl
  | cons item items ih =>
    rw [List.findSome?_cons, List.findSome?_cons, same item (by simp),
      ih fun other member => same other (by simp [member])]

/-- The same stretch in the text with long line ends. -/
def Stretch.longEnds (stretch : Stretch) : Stretch := ⟨stretch.start.longEnds, stretch.stop.longEnds⟩

namespace Probe

variable {lead target : Pattern}

/-- Without a tail the best stop of the target is taken. -/
theorem stretchAt?_eq (lead target : Pattern) (place : Cursor) :
    Probe.stretchAt? { lead, target } place =
      (lead.stops place).findSome? fun start => (target.stops start).head?.map (Stretch.mk start) := by
  refine findSome?_congr_of_mem fun start _ => ?_
  cases target.stops start <;> rfl

/-- Where lead and target follow the line ends, so does the match that starts at a place. -/
theorem stretchAt?_longEnds (leads : lead.Follows) (follows : target.Follows) {place : Cursor}
    (plain : place.IsPlain) :
    Probe.stretchAt? { lead, target } place.longEnds =
      (Probe.stretchAt? { lead, target } place).map Stretch.longEnds := by
  rw [stretchAt?_eq, stretchAt?_eq, leads place plain, List.findSome?_map, List.map_findSome?]
  refine findSome?_congr_of_mem fun start member => ?_
  have same := follows start (plain.of_passes (lead.passes_of_mem_stops member))
  simp only [Function.comp_apply, same, List.head?_map, Option.map_map]
  rfl

/-- Without a lead only the best stop matters. -/
theorem stretchAt?_of_best {place : Cursor}
    (best : (target.stops place.longEnds).head? = (target.stops place).head?.map Cursor.longEnds) :
    Probe.stretchAt? { target } place.longEnds =
      (Probe.stretchAt? { target } place).map Stretch.longEnds := by
  have alone (place : Cursor) :
      Probe.stretchAt? { target } place = (target.stops place).head?.map (Stretch.mk place) := by
    rw [stretchAt?_eq, Pattern.stops, List.findSome?_cons, List.findSome?_nil]
    cases (target.stops place).head? <;> rfl
  rw [alone, alone, best, Option.map_map, Option.map_map]
  rfl

theorem stretchAt?_of_splitsEnd (avoids : Pattern.Avoids (lead ++ target)) {place : Cursor}
    (splits : place.SplitsEnd) : Probe.stretchAt? { lead, target } place = none := by
  rw [stretchAt?_eq, List.findSome?_eq_none_iff]
  intro start member
  rw [List.flatMap_eq_nil_iff.mp (avoids place splits) start member]
  rfl

/-- A probe whose parts follow the line ends finds the same. -/
theorem find?_longEnds (leads : lead.Follows) (follows : target.Follows)
    (avoids : Pattern.Avoids (lead ++ target)) {text : Text} (plain : '\r' ∉ text) :
    Probe.find? { lead, target } (longEnds text) =
      (Probe.find? { lead, target } text).map Stretch.longEnds := by
  refine @Cursor.scan_longEnds _ _ _ [] text ?_ fun place => stretchAt?_of_splitsEnd avoids
  rintro front rest rfl
  rw [List.mem_append, not_or] at plain
  exact stretchAt?_longEnds leads follows ⟨by simpa using plain.1, plain.2⟩

end Probe

/-! ### Lines of a match -/

namespace Document

private theorem lineOf_length (front rest : Text) :
    lineOf (front ++ rest) front.length = Text.lineFeeds front := by
  rw [lineOf, List.take_left]

/-- The line that holds the last character of a stretch, or its place if it is empty. -/
theorem lineOf_last (front mid rest : Text) :
    lineOf (front ++ (mid ++ rest)) (max front.length (mid.length + front.length - 1)) =
      Text.lineFeeds front + Text.lineFeeds mid.dropLast := by
  rcases List.eq_nil_or_concat' mid with rfl | ⟨inner, last, rfl⟩
  · have offset : max front.length (([] : Text).length + front.length - 1) = front.length := by simp
    rw [offset, lineOf_length]
    rfl
  · have offset : max front.length ((inner ++ [last]).length + front.length - 1) =
        (front ++ inner).length := by
      simp only [List.length_append, List.length_singleton]
      omega
    have text : front ++ (inner ++ [last] ++ rest) = front ++ inner ++ (last :: rest) := by simp
    rw [offset, text, lineOf_length, List.dropLast_concat, Text.lineFeeds, List.count_append]
    rfl

private theorem lineFeeds_dropLast_longEnds (mid : Text) :
    Text.lineFeeds (longEnds mid).dropLast = Text.lineFeeds mid.dropLast := by
  rcases List.eq_nil_or_concat' mid with rfl | ⟨inner, last, rfl⟩
  · rfl
  · rw [List.dropLast_concat, longEnds_append, ← lineFeeds_longEnds inner]
    by_cases fed : last = '\n'
    · have half : longEnds inner ++ longEnds [last] = longEnds inner ++ ['\r'] ++ ['\n'] := by
        simp [fed]
      rw [half, List.dropLast_concat, Text.lineFeeds, List.count_append]
      rfl
    · rw [longEnds_cons fed, longEnds_nil, List.dropLast_concat]

end Document

/-- An anchor that is found at the same places gives the same lines. -/
theorem Anchor.place?_of_find? {anchor : Anchor} {text : Text}
    (same : Probe.find? { lead := anchor.lead, target := anchor.target } (longEnds text) =
      (Probe.find? { lead := anchor.lead, target := anchor.target } text).map Stretch.longEnds) :
    anchor.place? (longEnds text) = anchor.place? text := by
  rw [Anchor.place?, Anchor.place?, same]
  cases first : Probe.find? { lead := anchor.lead, target := anchor.target } text with
  | none => rfl
  | some found =>
    obtain ⟨mid, after, before, -⟩ := Probe.spans_of_find?_eq_some first
    have cut : text = found.start.before.reverse ++ (mid ++ found.stop.after) :=
      after ▸ Probe.text_of_find?_eq_some first
    have start : found.start.offset = found.start.before.reverse.length := by simp [Cursor.offset]
    have stop : found.stop.offset = mid.length + found.start.before.reverse.length := by
      simp [Cursor.offset, before]
    have start' : found.longEnds.start.offset = (longEnds found.start.before.reverse).length := by
      rw [← Document.reverse_longEndsBack]
      simp [Stretch.longEnds, Cursor.offset, Cursor.longEnds]
    have stop' : found.longEnds.stop.offset =
        (longEnds mid).length + (longEnds found.start.before.reverse).length := by
      rw [← start', Cursor.offset, Stretch.longEnds, (Cursor.longEnds_of_passes after before).2]
      simp [Cursor.offset]
    have here : Document.lineOf (longEnds text) found.longEnds.start.offset =
        Document.lineOf text found.start.offset := by
      rw [start, start', cut, Document.longEnds_append, Document.lineOf_length,
        Document.lineOf_length, Document.lineFeeds_longEnds]
    have last : Document.lineOf (longEnds text)
        (max found.longEnds.start.offset (found.longEnds.stop.offset - 1)) =
        Document.lineOf text (max found.start.offset (found.stop.offset - 1)) := by
      rw [start, start', stop, stop', cut, Document.longEnds_append, Document.longEnds_append,
        Document.lineOf_last, Document.lineOf_last, Document.lineFeeds_longEnds,
        Document.lineFeeds_dropLast_longEnds]
    simp only [Option.map_some, here, last]

namespace Pattern

variable {p : Pattern}

theorem eraseFirst?_longEnds (follows : p.Follows) (avoids : p.Avoids) {text : Text}
    (plain : '\r' ∉ text) : p.eraseFirst? (longEnds text) = (p.eraseFirst? text).map longEnds := by
  have same : p.find? (longEnds text) = (p.find? text).map Stretch.longEnds :=
    Probe.find?_longEnds follows_nothing follows avoids.nothing_append plain
  rw [eraseFirst?, eraseFirst?, same, Option.map_map, Option.map_map]
  refine congrArg (Option.map · _) (funext fun found => ?_)
  simp only [Function.comp_apply, Stretch.longEnds, Cursor.longEnds, Document.reverse_longEndsBack,
    Document.longEnds_append]

/-- The length of the best match at a place. -/
def reach? (p : Pattern) (place : Cursor) : Option Nat :=
  (p.stops place).head?.map fun stop => stop.offset - place.before.length

private theorem eraseAllFrom_of_reach {before after : Text} {c : Char} {more : Nat}
    (reach : p.reach? ⟨before, c :: after⟩ = some (more + 1)) :
    p.eraseAllFrom 0 before (c :: after) = Prod.map id (· + 1) (p.eraseAllFrom more (c :: before) after) := by
  rw [reach?] at reach
  rw [eraseAllFrom, reach]
  rfl

private theorem eraseAllFrom_of_no_reach {before after : Text} {c : Char}
    (idle : ∀ more, p.reach? ⟨before, c :: after⟩ ≠ some (more + 1)) :
    p.eraseAllFrom 0 before (c :: after) = Prod.map (c :: ·) id (p.eraseAllFrom 0 (c :: before) after) := by
  rw [eraseAllFrom]
  split
  · next more reach => exact absurd reach (idle more)
  · rfl

/-- A match reaches over the same stretch of both texts. -/
theorem reach?_longEnds (follows : p.Follows) {place : Cursor} (plain : place.IsPlain) :
    p.reach? place = none ∧ p.reach? place.longEnds = none ∨ ∃ mid rest, place.after = mid ++ rest ∧
      p.reach? place = some mid.length ∧ p.reach? place.longEnds = some (longEnds mid).length := by
  rw [reach?, reach?, follows place plain, List.head?_map]
  cases first : (p.stops place).head? with
  | none => exact .inl ⟨rfl, rfl⟩
  | some stop =>
    obtain ⟨mid, after, before⟩ := p.passes_of_mem_stops (List.mem_of_mem_head? first)
    refine .inr ⟨mid, stop.after, after, ?_, ?_⟩
    · simp [Cursor.offset, before]
    · simp [Cursor.offset, (Cursor.longEnds_of_passes after before).2]

/-- Removing all matches from a place on, within a match or not. -/
theorem eraseAllFrom_longEnds (follows : p.Follows) (avoids : p.Avoids) (skip : Nat)
    {before after : Text} (plain : Cursor.IsPlain ⟨before, after⟩) :
    p.eraseAllFrom (longEnds (after.take skip)).length (longEndsBack before) (longEnds after) =
      Prod.map longEnds id (p.eraseAllFrom skip before after) := by
  induction after generalizing skip before with
  | nil => cases skip <;> rfl
  | cons c after ih =>
    have next : Cursor.IsPlain ⟨c :: before, after⟩ := plain.of_passes ⟨[c], rfl, rfl⟩
    have further (skip : Nat) := ih skip next
    cases skip with
    | succ skip =>
      by_cases fed : c = '\n'
      · subst fed
        exact further skip
      · rw [List.take_succ_cons, longEnds_cons fed, longEnds_cons fed, List.length_cons, eraseAllFrom,
          eraseAllFrom, ← longEndsBack_cons fed, further]
    | zero =>
      have between : ∀ more, p.reach? ⟨'\r' :: longEndsBack before, '\n' :: longEnds after⟩ ≠
          some (more + 1) := by
        intro more
        rw [reach?, avoids _ ⟨rfl, rfl⟩]
        exact nofun
      -- A place where no match starts keeps its character, or both halves of its line end.
      have keeps (idle : ∀ more, p.reach? ⟨before, c :: after⟩ ≠ some (more + 1))
          (idle' : ∀ more, p.reach? ⟨longEndsBack before, longEnds (c :: after)⟩ ≠ some (more + 1)) :
          p.eraseAllFrom 0 (longEndsBack before) (longEnds (c :: after)) =
            Prod.map longEnds id (p.eraseAllFrom 0 before (c :: after)) := by
        rw [eraseAllFrom_of_no_reach idle]
        by_cases fed : c = '\n'
        · subst fed
          rw [Document.longEnds_lf] at idle' ⊢
          rw [eraseAllFrom_of_no_reach idle', eraseAllFrom_of_no_reach between]
          exact congrArg (Prod.map ('\r' :: ·) id ∘ Prod.map ('\n' :: ·) id) (further 0)
        · rw [longEnds_cons fed] at idle' ⊢
          rw [eraseAllFrom_of_no_reach idle', ← longEndsBack_cons fed]
          refine (congrArg (Prod.map (c :: ·) id) (further 0)).trans ?_
          simp only [Prod.map_map, Function.comp_def, longEnds_cons fed]
      rw [List.take_zero, Document.longEnds_nil, List.length_nil]
      rcases reach?_longEnds follows plain with ⟨never, never'⟩ | ⟨mid, rest, cut, reach, reach'⟩
      · exact keeps (fun more some_ => nomatch never.symm.trans some_)
          fun more some_ => nomatch never'.symm.trans some_
      cases mid with
      | nil =>
        exact keeps (fun more some_ => nomatch reach.symm.trans some_)
          fun more some_ => nomatch reach'.symm.trans some_
      | cons d mid =>
        rw [List.cons_append] at cut
        obtain ⟨rfl, rfl⟩ := List.cons.inj cut
        have dropped := further mid.length
        rw [List.take_left] at dropped
        rw [eraseAllFrom_of_reach reach]
        by_cases fed : c = '\n'
        · subst fed
          rw [Cursor.longEnds, Document.longEnds_lf, Document.longEnds_lf] at reach'
          rw [Document.longEnds_lf, eraseAllFrom_of_reach reach', List.length_cons, eraseAllFrom]
          exact congrArg (Prod.map id (· + 1)) dropped
        · rw [Cursor.longEnds, longEnds_cons fed, longEnds_cons fed] at reach'
          rw [longEnds_cons fed, eraseAllFrom_of_reach reach', ← longEndsBack_cons fed]
          exact congrArg (Prod.map id (· + 1)) dropped

theorem eraseAll_longEnds (follows : p.Follows) (avoids : p.Avoids) {text : Text}
    (plain : '\r' ∉ text) : p.eraseAll (longEnds text) = Prod.map longEnds id (p.eraseAll text) :=
  @eraseAllFrom_longEnds p follows avoids 0 [] text ⟨by simp, plain⟩

/-! ### Whether there is a match -/

/-- Some match starts at a place of one text exactly if one does in the other. -/
def Sees (p : Pattern) : Prop :=
  ∀ place : Cursor, place.IsPlain → p.startsAt place.longEnds = p.startsAt place

theorem Follows.sees (follows : p.Follows) : p.Sees := by
  intro place plain
  rw [startsAt, startsAt, follows place plain, List.isEmpty_map]

theorem Follows.append_sees {q : Pattern} (follows : p.Follows) (sees : q.Sees) : (p ++ q).Sees := by
  have later (place : Cursor) : (p ++ q).startsAt place = (p.stops place).any q.startsAt := by
    change (!((p.stops place).flatMap q.stops).isEmpty) = _
    rw [Bool.eq_iff_iff, Bool.not_eq_true', ← Bool.not_eq_true, List.isEmpty_iff,
      List.flatMap_eq_nil_iff, List.any_eq_true]
    simp [startsAt]
  intro place plain
  rw [later, later, follows place plain, List.any_map, Bool.eq_iff_iff, List.any_eq_true,
    List.any_eq_true]
  refine exists_congr fun stop => and_congr_right fun member => ?_
  rw [Function.comp_apply, sees stop (plain.of_passes (p.passes_of_mem_stops member))]

theorem startsAt_iff {place : Cursor} :
    p.startsAt place = true ↔ ∃ mid rest, place.after = mid ++ rest ∧ p.Spans place.before mid rest := by
  rw [startsAt, Bool.not_eq_true', ← Bool.not_eq_true, List.isEmpty_iff]
  constructor
  · intro some_
    obtain ⟨stop, member⟩ := List.exists_mem_of_ne_nil _ some_
    obtain ⟨mid, after, -, spans⟩ := exists_spans_of_mem_stops member
    exact ⟨mid, stop.after, after, spans⟩
  · rintro ⟨mid, rest, after, spans⟩
    rw [Spans, ← after] at spans
    exact List.ne_nil_of_mem spans

theorem Sees.assoc {q r : Pattern} (sees : Sees (p ++ (q ++ r))) : Sees (p ++ q ++ r) := by
  intro place plain
  rw [startsAt, startsAt, append_assoc_stops, append_assoc_stops]
  exact sees place plain

private theorem startsAt_run_append_iff {allowed : Char → Bool} {before after : Text} :
    (run allowed ++ p).startsAt ⟨before, after⟩ = true ↔ ∃ mid rest, after = mid ++ rest ∧
      (∀ c ∈ mid, allowed c = true) ∧ p.startsAt ⟨mid.reverse ++ before, rest⟩ = true := by
  rw [startsAt_iff]
  constructor
  · rintro ⟨_, rest, cut, spans⟩
    obtain ⟨front, back, rfl, runs, more⟩ := spans_append.mp spans
    exact ⟨front, back ++ rest, by simpa using cut, spans_run.mp runs, startsAt_iff.mpr ⟨back, rest, rfl, more⟩⟩
  · rintro ⟨front, rest, rfl, runs, starts⟩
    obtain ⟨back, rest, rfl, more⟩ := startsAt_iff.mp starts
    exact ⟨front ++ back, rest, by simp, spans_append.mpr ⟨front, back, rfl, spans_run.mpr runs, more⟩⟩

/-- A run that may cross line ends, before a pattern that may start at a split end, if it then starts
before the line end as well. -/
theorem sees_run_append {allowed : Char → Bool} (crosses : allowed '\r' = true) (follows : p.Follows)
    (absorbs : ∀ before after, p.startsAt ⟨'\r' :: before, '\n' :: after⟩ = true →
      p.startsAt ⟨before, '\r' :: '\n' :: after⟩ = true) : Sees (run allowed ++ p) := by
  rintro ⟨before, after⟩ plain
  have same {mid rest : Text} (cut : after = mid ++ rest) :
      p.startsAt ⟨(longEnds mid).reverse ++ longEndsBack before, longEnds rest⟩ =
        p.startsAt ⟨mid.reverse ++ before, rest⟩ := by
    rw [← Document.longEndsBack_append]
    exact follows.sees ⟨mid.reverse ++ before, rest⟩ (plain.of_passes ⟨mid, cut, rfl⟩)
  -- Every match in the longer text gives one that starts behind a run of the shorter one.
  have back {front rest : Text} (cut : longEnds after = front ++ rest)
      (open_ : ¬ Cursor.SplitsEnd ⟨front.reverse, rest⟩) (runs : ∀ c ∈ front, allowed c = true)
      (starts : p.startsAt ⟨front.reverse ++ longEndsBack before, rest⟩ = true) :
      (run allowed ++ p).startsAt ⟨before, after⟩ = true := by
    obtain ⟨mid, rest, cut', rfl, rfl⟩ := (Cursor.exists_of_longEnds_eq_append cut).resolve_right open_
    refine startsAt_run_append_iff.mpr ⟨mid, rest, cut', fun c member => ?_, same cut' ▸ starts⟩
    exact runs c (Document.mem_longEnds member)
  rw [Bool.eq_iff_iff]
  constructor
  · intro starts
    obtain ⟨front, rest, cut, runs, starts⟩ := startsAt_run_append_iff.mp starts
    by_cases splits : Cursor.SplitsEnd ⟨front.reverse, rest⟩
    · obtain ⟨tail, rfl⟩ := List.head?_eq_some_iff.mp splits.2
      obtain ⟨reversed, last⟩ := List.head?_eq_some_iff.mp splits.1
      obtain rfl : front = reversed.reverse ++ ['\r'] := by
        simpa using congrArg List.reverse last
      refine @back reversed.reverse ('\r' :: '\n' :: tail) (by simpa using cut) (fun again => ?_)
        (fun c member => runs c (by simp [List.mem_reverse.mp member])) ?_
      · simp [Cursor.SplitsEnd] at again
      · exact absorbs _ _ (by simpa using starts)
    · exact back cut splits runs starts
  · intro starts
    obtain ⟨mid, rest, cut, runs, starts⟩ := startsAt_run_append_iff.mp starts
    refine startsAt_run_append_iff.mpr ⟨longEnds mid, longEnds rest, ?_, fun c member => ?_,
      (same cut).symm ▸ starts⟩
    · exact (congrArg longEnds cut).trans (Document.longEnds_append mid rest)
    · rcases Document.eq_or_mem_of_mem_longEnds member with rfl | inside
      · exact crosses
      · exact runs c inside

private theorem occursIn_iff_startsAt {text : Text} :
    p.occursIn text = true ↔ ∃ front rest, text = front ++ rest ∧ p.startsAt ⟨front.reverse, rest⟩ = true := by
  rw [occursIn_iff]
  constructor
  · rintro ⟨front, mid, rest, rfl, spans⟩
    exact ⟨front, mid ++ rest, by simp, startsAt_iff.mpr ⟨mid, rest, rfl, spans⟩⟩
  · rintro ⟨front, rest, rfl, starts⟩
    obtain ⟨mid, rest, rfl, spans⟩ := startsAt_iff.mp starts
    exact ⟨front, mid, rest, by simp, spans⟩

theorem occursIn_longEnds (sees : p.Sees) (avoids : p.Avoids) {text : Text} (plain : '\r' ∉ text) :
    p.occursIn (longEnds text) = p.occursIn text := by
  have same {front rest : Text} (cut : text = front ++ rest) :
      p.startsAt ⟨(longEnds front).reverse, longEnds rest⟩ = p.startsAt ⟨front.reverse, rest⟩ := by
    rw [cut, List.mem_append, not_or] at plain
    rw [Document.reverse_longEnds]
    exact sees ⟨front.reverse, rest⟩ ⟨by simpa using plain.1, plain.2⟩
  rw [Bool.eq_iff_iff, occursIn_iff_startsAt, occursIn_iff_startsAt]
  constructor
  · rintro ⟨front, rest, cut, starts⟩
    rcases Cursor.exists_of_longEnds_eq_append cut with ⟨front', rest', cut', rfl, rfl⟩ | splits
    · exact ⟨front', rest', cut', same cut' ▸ starts⟩
    · simp [startsAt, avoids _ splits] at starts
  · rintro ⟨front, rest, cut, starts⟩
    exact ⟨longEnds front, longEnds rest, by rw [cut, Document.longEnds_append], (same cut).symm ▸ starts⟩

end Pattern

end ReadOnlyViews
