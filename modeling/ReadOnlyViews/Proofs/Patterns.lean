import Mathlib.Data.List.Basic
import ReadOnlyViews.Text.Pattern

/-! What a match spells.  A pattern lists the places where a match may stop; here every stop is
turned into the stretch of text that was passed, so that later arguments speak of texts and never
of places. -/
namespace ReadOnlyViews

namespace Cursor

theorem past?_eq_some_iff {part before after : Text} {stop : Cursor} :
    past? part ⟨before, after⟩ = some stop ↔
      after = part ++ stop.after ∧ stop.before = part.reverse ++ before := by
  induction part generalizing before after with
  | nil =>
    obtain ⟨stopBefore, stopAfter⟩ := stop
    simp only [past?, Option.some.injEq, Cursor.mk.injEq, List.nil_append, List.reverse_nil]
    exact ⟨fun h => ⟨h.2, h.1.symm⟩, fun h => ⟨h.2.symm, h.1⟩⟩
  | cons c part ih =>
    cases after with
    | nil => simp [past?]
    | cons d after =>
      by_cases same : c = d
      · subst same
        simp [past?, ih]
      · simp [past?, same, Ne.symm same]

private theorem eq_mk_iff {stop : Cursor} {before after : Text} :
    stop = ⟨before, after⟩ ↔ after = stop.after ∧ stop.before = before := by
  cases stop
  simp only [Cursor.mk.injEq]
  exact ⟨fun h => ⟨h.2.symm, h.1⟩, fun h => ⟨h.2, h.1.symm⟩⟩

/-- The stops of a run are those behind an allowed stretch, and the shorter ones given. -/
theorem mem_runs_iff {allowed : Char → Bool} {before after : Text} {shorter : List Cursor}
    {stop : Cursor} :
    stop ∈ runs allowed before after shorter ↔
      stop ∈ shorter ∨ ∃ mid, (∀ c ∈ mid, allowed c = true) ∧ after = mid ++ stop.after ∧
        stop.before = mid.reverse ++ before := by
  -- A stop is either here, behind the empty stretch, or behind one that starts with the next character.
  have here {before after : Text} (same : stop = ⟨before, after⟩) :
      ∃ mid, (∀ c ∈ mid, allowed c = true) ∧ after = mid ++ stop.after ∧
        stop.before = mid.reverse ++ before :=
    ⟨[], by simp, (eq_mk_iff.mp same).1, (eq_mk_iff.mp same).2⟩
  induction after generalizing before shorter with
  | nil =>
    rw [runs, List.mem_cons]
    constructor
    · rintro (same | member)
      · exact .inr (here same)
      · exact .inl member
    · rintro (member | ⟨mid, _, text, front⟩)
      · exact .inr member
      · obtain ⟨rfl, rest⟩ := List.append_eq_nil_iff.mp text.symm
        exact .inl (eq_mk_iff.mpr ⟨rest.symm, front⟩)
  | cons c after ih =>
    rw [runs]
    split
    · next fits =>
      refine ih.trans ?_
      rw [List.mem_cons]
      constructor
      · rintro ((same | member) | ⟨mid, all, text, front⟩)
        · exact .inr (here same)
        · exact .inl member
        · exact .inr ⟨c :: mid, by simpa [fits] using all, by simp [text], by simp [front]⟩
      · rintro (member | ⟨mid, all, text, front⟩)
        · exact .inl (.inr member)
        · cases mid with
          | nil => exact .inl (.inl (eq_mk_iff.mpr ⟨text, front⟩))
          | cons d mid =>
            simp only [List.cons_append, List.cons.injEq] at text
            refine .inr ⟨mid, fun e member => all e (.tail _ member), text.2, ?_⟩
            simpa [text.1] using front
    · next refused =>
      rw [List.mem_cons]
      constructor
      · rintro (same | member)
        · exact .inr (here same)
        · exact .inl member
      · rintro (member | ⟨mid, all, text, front⟩)
        · exact .inr member
        · cases mid with
          | nil => exact .inl (eq_mk_iff.mpr ⟨text, front⟩)
          | cons d mid =>
            simp only [List.cons_append, List.cons.injEq] at text
            exact absurd (all d (by simp)) (text.1 ▸ refused)

/-- The first answer of a scan is one at some place of the text. -/
theorem exists_of_scan_eq_some {α : Type} {answer? : Cursor → Option α} {before after : Text}
    {answer : α} (found : scan answer? before after = some answer) :
    ∃ mid rest, after = mid ++ rest ∧ answer? ⟨mid.reverse ++ before, rest⟩ = some answer := by
  induction after generalizing before with
  | nil => exact ⟨[], [], rfl, found⟩
  | cons c after ih =>
    rw [scan] at found
    split at found
    · next here => exact ⟨[], c :: after, rfl, by simpa [here] using found⟩
    · obtain ⟨mid, rest, split, there⟩ := ih found
      exact ⟨c :: mid, rest, by simp [split], by simpa using there⟩

/-- A scan answers if there is an answer at some place of the text. -/
theorem isSome_scan {α : Type} {answer? : Cursor → Option α} {before mid rest : Text}
    (there : (answer? ⟨mid.reverse ++ before, rest⟩).isSome) :
    (scan answer? before (mid ++ rest)).isSome := by
  induction mid generalizing before with
  | nil =>
    obtain ⟨answer, here⟩ := Option.isSome_iff_exists.mp there
    cases rest with
    | nil => exact there
    | cons c rest => simp only [List.nil_append, scan, List.reverse_nil] at here ⊢; simp [here]
  | cons c mid ih =>
    rw [List.cons_append, scan]
    split
    · rfl
    · exact ih (by simpa using there)

end Cursor

namespace Pattern

/-- A match that starts behind `before` may stop behind `mid`, with `after` still to come. -/
def Spans (p : Pattern) (before mid after : Text) : Prop :=
  (⟨mid.reverse ++ before, after⟩ : Cursor) ∈ p.stops ⟨before, mid ++ after⟩

/-- The stop lies behind a stretch of the text that stood at the place. -/
def Passes (place stop : Cursor) : Prop :=
  ∃ mid, place.after = mid ++ stop.after ∧ stop.before = mid.reverse ++ place.before

theorem Passes.refl (place : Cursor) : Passes place place := ⟨[], by simp, by simp⟩

theorem Passes.trans {first second third : Cursor} (front : Passes first second)
    (back : Passes second third) : Passes first third := by
  obtain ⟨mid, after, before⟩ := front
  obtain ⟨more, afterThat, beforeThat⟩ := back
  exact ⟨mid ++ more, by simp [after, afterThat], by simp [before, beforeThat]⟩

private theorem passes_of_mem_repetitions {step : Cursor → List Cursor}
    (passes : ∀ place, ∀ stop ∈ step place, Passes place stop) (bound : Nat) {place stop : Cursor}
    (member : stop ∈ repetitions step bound place) : Passes place stop := by
  induction bound generalizing place with
  | zero =>
    obtain rfl : stop = place := by simpa [repetitions] using member
    exact .refl _
  | succ bound ih =>
    simp only [repetitions, List.mem_append, List.mem_flatMap, List.mem_filter,
      List.mem_singleton] at member
    obtain ⟨next, ⟨stepped, _⟩, rest⟩ | rfl := member
    · exact (passes place next stepped).trans (ih rest)
    · exact .refl _

/-- No pattern loses or changes text: it only moves the place forward. -/
theorem passes_of_mem_stops (p : Pattern) {place stop : Cursor} (member : stop ∈ p.stops place) :
    Passes place stop := by
  induction p generalizing place stop with
  | nothing =>
    obtain rfl := List.mem_singleton.mp member
    exact .refl _
  | exactly part =>
    obtain ⟨after, before⟩ := Cursor.past?_eq_some_iff.mp (Option.mem_toList.mp member)
    exact ⟨part, after, before⟩
  | one allowed =>
    obtain ⟨before, after⟩ := place
    cases after with
    | nil => simp [stops] at member
    | cons c after =>
      simp only [stops] at member
      split at member
      · obtain rfl := List.mem_singleton.mp member
        exact ⟨[c], by simp, by simp⟩
      · simp at member
  | run allowed =>
    obtain none | ⟨mid, _, after, before⟩ := Cursor.mem_runs_iff.mp member
    · simp at none
    · exact ⟨mid, after, before⟩
  | thenAlso first second firstPasses secondPasses =>
    obtain ⟨between, front, back⟩ := List.mem_flatMap.mp member
    exact (firstPasses front).trans (secondPasses back)
  | either first second firstPasses secondPasses =>
    obtain left | right := List.mem_append.mp member
    · exact firstPasses left
    · exact secondPasses right
  | repeated body bodyPasses =>
    exact passes_of_mem_repetitions (fun _ _ => bodyPasses) _ member
  | lineStart | wordEdge | textEnd | lastLineEnd | notAhead _ _ =>
    simp only [stops] at member
    split at member
    · obtain rfl := List.mem_singleton.mp member
      exact .refl _
    · simp at member

theorem exists_spans_of_mem_stops {p : Pattern} {place stop : Cursor}
    (member : stop ∈ p.stops place) :
    ∃ mid, place.after = mid ++ stop.after ∧ stop.before = mid.reverse ++ place.before ∧
      p.Spans place.before mid stop.after := by
  obtain ⟨mid, after, before⟩ := p.passes_of_mem_stops member
  refine ⟨mid, after, before, ?_⟩
  rw [Spans, ← after, ← before]
  exact member

/-! ## One equation for each form of pattern -/

section Forms

variable {before mid after : Text}

@[simp] theorem spans_nothing : nothing.Spans before mid after ↔ mid = [] := by
  refine List.mem_singleton.trans ?_
  rw [Cursor.mk.injEq]
  exact ⟨fun h => List.self_eq_append_left.mp h.2, fun h => by simp [h]⟩

@[simp] theorem spans_exactly {part : Text} : (exactly part).Spans before mid after ↔ mid = part := by
  refine (Option.mem_toList.trans Cursor.past?_eq_some_iff).trans ?_
  rw [List.append_cancel_right_eq, and_iff_left_iff_imp]
  rintro rfl
  rfl

@[simp] theorem spans_one {allowed : Char → Bool} :
    (one allowed).Spans before mid after ↔ ∃ c, allowed c = true ∧ mid = [c] := by
  constructor
  · intro spans
    cases mid with
    | nil =>
      cases after with
      | nil => simp [Spans, stops] at spans
      | cons c after => simp [Spans, stops] at spans
    | cons c mid =>
      simp only [Spans, stops, List.cons_append] at spans
      split at spans
      · next fits =>
        obtain ⟨_, rest⟩ := Cursor.mk.inj (List.mem_singleton.mp spans)
        exact ⟨c, fits, by rw [List.self_eq_append_left.mp rest]⟩
      · simp at spans
  · rintro ⟨c, fits, rfl⟩
    simp [Spans, stops, fits]

@[simp] theorem spans_run {allowed : Char → Bool} :
    (run allowed).Spans before mid after ↔ ∀ c ∈ mid, allowed c = true := by
  refine Cursor.mem_runs_iff.trans ?_
  simp only [List.not_mem_nil, false_or, List.append_cancel_right_eq]
  exact ⟨fun ⟨_, all, same, _⟩ => same ▸ all, fun all => ⟨mid, all, rfl, rfl⟩⟩

@[simp] theorem spans_append {p q : Pattern} :
    (p ++ q).Spans before mid after ↔
      ∃ front back, mid = front ++ back ∧ p.Spans before front (back ++ after) ∧
        q.Spans (front.reverse ++ before) back after := by
  constructor
  · intro spans
    obtain ⟨between, first, second⟩ := List.mem_flatMap.mp spans
    obtain ⟨front, text, place, fronts⟩ := exists_spans_of_mem_stops first
    obtain ⟨back, rest, _, backs⟩ := exists_spans_of_mem_stops second
    obtain ⟨between, tail⟩ := between
    simp only at text place fronts rest backs
    subst rest place
    refine ⟨front, back, ?_, fronts, backs⟩
    simpa [← List.append_assoc] using text
  · rintro ⟨front, back, rfl, first, second⟩
    refine List.mem_flatMap.mpr ⟨⟨front.reverse ++ before, back ++ after⟩, ?_, ?_⟩
    · simpa [Spans] using first
    · simpa [Spans] using second

theorem spans_run1 {allowed : Char → Bool} :
    (run1 allowed).Spans before mid after ↔ mid ≠ [] ∧ ∀ c ∈ mid, allowed c = true := by
  rw [run1, spans_append]
  constructor
  · rintro ⟨_, back, rfl, first, more⟩
    obtain ⟨c, fits, rfl⟩ := spans_one.mp first
    exact ⟨by simp, by simpa [fits] using spans_run.mp more⟩
  · rintro ⟨some_, all⟩
    obtain ⟨c, mid, rfl⟩ := List.exists_cons_of_ne_nil some_
    refine ⟨[c], mid, rfl, spans_one.mpr ⟨c, all c (by simp), rfl⟩, spans_run.mpr fun d member => ?_⟩
    exact all d (by simp [member])

@[simp] theorem spans_either {p q : Pattern} :
    (either p q).Spans before mid after ↔ p.Spans before mid after ∨ q.Spans before mid after :=
  List.mem_append

@[simp] theorem spans_optional {p : Pattern} :
    p.optional.Spans before mid after ↔ p.Spans before mid after ∨ mid = [] := by
  rw [optional, spans_either, spans_nothing]

/-- A test of the place matches the empty stretch, when the place passes it. -/
private theorem spans_test (test : Cursor → Bool) :
    ((⟨mid.reverse ++ before, after⟩ : Cursor) ∈
      if test ⟨before, mid ++ after⟩ = true then [⟨before, mid ++ after⟩] else []) ↔
      mid = [] ∧ test ⟨before, after⟩ = true := by
  constructor
  · intro member
    split at member
    · next passed =>
      obtain ⟨_, rest⟩ := Cursor.mk.inj (List.mem_singleton.mp member)
      obtain rfl := List.self_eq_append_left.mp rest
      exact ⟨rfl, passed⟩
    · simp at member
  · rintro ⟨rfl, passed⟩
    simp [passed]

@[simp] theorem spans_lineStart :
    lineStart.Spans before mid after ↔ mid = [] ∧ (before = [] ∨ before.head? = some '\n') := by
  refine (spans_test Cursor.atLineStart).trans (and_congr_right fun _ => ?_)
  cases before with
  | nil => simp [Cursor.atLineStart]
  | cons c before => simp [Cursor.atLineStart]

@[simp] theorem spans_wordEdge :
    wordEdge.Spans before mid after ↔ mid = [] ∧ (⟨before, after⟩ : Cursor).atWordEdge = true :=
  spans_test Cursor.atWordEdge

@[simp] theorem spans_textEnd : textEnd.Spans before mid after ↔ mid = [] ∧ after = [] := by
  refine (spans_test fun place => place.after.isEmpty).trans ?_
  simp

@[simp] theorem spans_lastLineEnd :
    lastLineEnd.Spans before mid after ↔ mid = [] ∧ (after = [] ∨ after = ['\n']) := by
  refine (spans_test Cursor.atLastLineEnd).trans (and_congr_right fun _ => ?_)
  rcases after with _ | ⟨c, _ | ⟨d, after⟩⟩ <;> simp [Cursor.atLastLineEnd]

end Forms

end Pattern

/-! ## The first match of a text -/

namespace Probe

/-- The first match stands between what is before it and behind it. -/
theorem spans_of_find?_eq_some {probe : Probe} {text : Text} {found : Stretch}
    (first : probe.find? text = some found) :
    ∃ mid, found.start.after = mid ++ found.stop.after ∧
      found.stop.before = mid.reverse ++ found.start.before ∧
      probe.target.Spans found.start.before mid found.stop.after := by
  obtain ⟨front, rest, rfl, there⟩ := Cursor.exists_of_scan_eq_some first
  obtain ⟨start, leads, inside⟩ := List.exists_of_findSome?_eq_some there
  obtain ⟨stop, matched, ended⟩ := List.exists_of_findSome?_eq_some inside
  split at ended
  · obtain rfl := Option.some.inj ended
    exact Pattern.exists_spans_of_mem_stops matched
  · cases ended

theorem text_of_find?_eq_some {probe : Probe} {text : Text} {found : Stretch}
    (first : probe.find? text = some found) :
    text = found.start.before.reverse ++ found.start.after := by
  obtain ⟨front, rest, rfl, there⟩ := Cursor.exists_of_scan_eq_some first
  obtain ⟨start, leads, inside⟩ := List.exists_of_findSome?_eq_some there
  obtain ⟨stop, -, ended⟩ := List.exists_of_findSome?_eq_some inside
  split at ended
  · obtain rfl := Option.some.inj ended
    obtain ⟨mid, after, before⟩ := probe.lead.passes_of_mem_stops leads
    dsimp only at after before ⊢
    rw [before, after]
    simp
  · cases ended

end Probe

namespace Pattern

/-- The first match is a match: the text is what stands before it, what it spells, and the rest. -/
theorem exists_spans_of_find?_eq_some {p : Pattern} {text : Text} {found : Stretch}
    (first : p.find? text = some found) :
    ∃ mid, text = found.start.before.reverse ++ mid ++ found.stop.after ∧
      found.start.after = mid ++ found.stop.after ∧
      p.Spans found.start.before mid found.stop.after := by
  obtain ⟨mid, after, -, spans⟩ := Probe.spans_of_find?_eq_some first
  exact ⟨mid, by rw [List.append_assoc, ← after, Probe.text_of_find?_eq_some first], after, spans⟩

/-- A text holds a match exactly if some stretch of it is one. -/
theorem occursIn_iff {p : Pattern} {text : Text} :
    p.occursIn text = true ↔
      ∃ front mid rest, text = front ++ mid ++ rest ∧ p.Spans front.reverse mid rest := by
  constructor
  · intro occurs
    obtain ⟨found, first⟩ := Option.isSome_iff_exists.mp occurs
    obtain ⟨mid, split, -, spans⟩ := exists_spans_of_find?_eq_some first
    exact ⟨found.start.before.reverse, mid, found.stop.after, split, by simpa using spans⟩
  · rintro ⟨front, mid, rest, rfl, spans⟩
    rw [occursIn, find?, Probe.find?, List.append_assoc]
    refine Cursor.isSome_scan ?_
    rw [List.append_nil]
    rw [Spans] at spans
    obtain ⟨stop, others, stops⟩ : ∃ stop others, p.stops ⟨front.reverse, mid ++ rest⟩ = stop :: others :=
      List.exists_cons_of_ne_nil (List.ne_nil_of_mem spans)
    simp [Probe.stretchAt?, Pattern.stops, startsAt, stops]

theorem occursIn_eq_false_iff {p : Pattern} {text : Text} :
    p.occursIn text = false ↔
      ∀ front mid rest, text = front ++ mid ++ rest → ¬ p.Spans front.reverse mid rest := by
  rw [← Bool.not_eq_true, occursIn_iff]
  simp only [not_exists, not_and]

end Pattern

end ReadOnlyViews
