import ReadOnlyViews.Proofs.Patterns

/-! The match that is taken.  A pattern lists its stops best first, and a search takes the first of
them that the rest of the pattern can follow; where nothing has to be given back, the best matches of
the parts make up the best match of the whole. -/
namespace ReadOnlyViews

namespace Cursor

variable {allowed : Char → Bool}

private theorem runs_eq_append (before after : Text) (shorter : List Cursor) :
    runs allowed before after shorter = runs allowed before after [] ++ shorter := by
  induction after generalizing before shorter with
  | nil => rfl
  | cons c after ih =>
    rw [runs, runs]
    split
    · rw [ih (c :: before) (_ :: shorter), ih (c :: before) [_], List.append_assoc, List.singleton_append]
    · rfl

/-- A run gives back its last character last. -/
theorem runs_cons {c : Char} (fits : allowed c = true) (before after : Text) :
    runs allowed before (c :: after) [] =
      runs allowed (c :: before) after [] ++ [⟨before, c :: after⟩] := by
  rw [runs, if_pos fits, runs_eq_append]

theorem runs_of_refused {after : Text} (refused : after.head?.any allowed = false) (before : Text) :
    runs allowed before after [] = [⟨before, after⟩] := by
  cases after with
  | nil => rfl
  | cons c after =>
    have refusedHere : allowed c = false := by simpa using refused
    rw [runs, if_neg (by simp [refusedHere])]

/-- A scan passes over the places that have no answer. -/
theorem scan_append {α : Type} {answer? : Cursor → Option α} {front : Text} {passes : Char → Prop}
    (passed : ∀ c ∈ front, passes c)
    (silent : ∀ before c after, passes c → answer? ⟨before, c :: after⟩ = none) (before rest : Text) :
    scan answer? before (front ++ rest) = scan answer? (front.reverse ++ before) rest := by
  induction front generalizing before with
  | nil => rfl
  | cons c front ih =>
    obtain ⟨here, there⟩ := List.forall_mem_cons.mp passed
    rw [List.cons_append, scan, silent before c _ here, ih there, List.reverse_cons, List.append_assoc,
      List.singleton_append]

theorem scan_of_answer {α : Type} {answer? : Cursor → Option α} {before after : Text} {answer : α}
    (here : answer? ⟨before, after⟩ = some answer) : scan answer? before after = some answer := by
  cases after with
  | nil => exact here
  | cons c after => rw [scan, here]

end Cursor

namespace Pattern

/-- The best match that starts behind `before` is `mid`. -/
def Takes (p : Pattern) (before mid after : Text) : Prop :=
  (p.stops ⟨before, mid ++ after⟩).head? = some ⟨mid.reverse ++ before, after⟩

/-- A pattern has no stop where no stretch of the text is a match. -/
theorem stops_eq_nil_iff {p : Pattern} {before text : Text} :
    p.stops ⟨before, text⟩ = [] ↔ ∀ mid after, text = mid ++ after → ¬ p.Spans before mid after := by
  constructor
  · rintro none mid after rfl spans
    rw [Spans, none] at spans
    cases spans
  · intro none
    refine List.eq_nil_iff_forall_not_mem.mpr fun stop member => ?_
    obtain ⟨mid, after, -, spans⟩ := exists_spans_of_mem_stops member
    exact none mid stop.after after spans

section Forms

variable {before mid after : Text} {p q : Pattern} {allowed : Char → Bool}

private theorem takes_nothing : nothing.Takes before [] after := rfl

theorem takes_exactly (part : Text) : (exactly part).Takes before part after := by
  have past : Cursor.past? part ⟨before, part ++ after⟩ = some ⟨part.reverse ++ before, after⟩ :=
    Cursor.past?_eq_some_iff.mpr ⟨rfl, rfl⟩
  rw [Takes, stops, past]
  rfl

theorem takes_one {c : Char} (fits : allowed c = true) : (one allowed).Takes before [c] after := by
  simp [Takes, stops, fits]

/-- A run takes all it can. -/
theorem takes_run (fits : ∀ c ∈ mid, allowed c = true) (refused : after.head?.any allowed = false) :
    (run allowed).Takes before mid after := by
  rw [Takes, stops]
  induction mid generalizing before with
  | nil => simp [Cursor.runs_of_refused refused]
  | cons c mid ih =>
    obtain ⟨here, there⟩ := List.forall_mem_cons.mp fits
    simp only [List.cons_append] at ih ⊢
    rw [Cursor.runs_cons here, List.head?_append, ih there, List.reverse_cons, List.append_assoc]
    rfl

theorem Takes.append {front back : Text} (first : p.Takes before front (back ++ after))
    (second : q.Takes (front.reverse ++ before) back after) :
    (p ++ q).Takes before (front ++ back) after := by
  obtain ⟨others, firstStops⟩ := List.head?_eq_some_iff.mp first
  obtain ⟨more, secondStops⟩ := List.head?_eq_some_iff.mp second
  change ((p.stops ⟨before, front ++ back ++ after⟩).flatMap q.stops).head? = _
  rw [List.append_assoc, firstStops, List.flatMap_cons, secondStops, List.reverse_append,
    List.append_assoc]
  rfl

theorem takes_run1 (nonempty : mid ≠ []) (fits : ∀ c ∈ mid, allowed c = true)
    (refused : after.head?.any allowed = false) : (run1 allowed).Takes before mid after := by
  obtain ⟨c, mid, rfl⟩ := List.exists_cons_of_ne_nil nonempty
  obtain ⟨here, there⟩ := List.forall_mem_cons.mp fits
  exact (takes_one here).append (takes_run there refused)

theorem Takes.either_left (first : p.Takes before mid after) : (either p q).Takes before mid after := by
  rw [Takes] at first ⊢
  rw [stops, List.head?_append, first]
  rfl

/-- The second choice is taken where the first has no match. -/
theorem Takes.either_right (none : p.stops ⟨before, mid ++ after⟩ = [])
    (second : q.Takes before mid after) : (either p q).Takes before mid after := by
  rw [Takes, stops, none]
  exact second

theorem Takes.optional (taken : p.Takes before mid after) : p.optional.Takes before mid after :=
  taken.either_left

theorem optional_takes_nil (none : p.stops ⟨before, after⟩ = []) : p.optional.Takes before [] after :=
  takes_nothing.either_right none

/-- A text of letters is matched by its letters in any case. -/
theorem takes_anyCase {part : Text} (letters : List.Forall₂ (fun c d => sameLetter c d = true) part mid) :
    (anyCase part).Takes before mid after := by
  induction letters generalizing before with
  | nil => exact takes_nothing
  | cons same _ ih => exact (takes_one same).append ih

end Forms

end Pattern

/-- A stretch holds what is passed on the way. -/
theorem Stretch.text_of_passed (before mid after : Text) :
    Stretch.text ⟨⟨before, mid ++ after⟩, ⟨mid.reverse ++ before, after⟩⟩ = mid := by
  simp [Stretch.text, Cursor.offset]

namespace Probe

/-- Where lead and target take their best matches and the tail can follow, these are the match. -/
theorem stretchAt?_of_takes {probe : Probe} {before lead mid after : Text}
    (leads : probe.lead.Takes before lead (mid ++ after))
    (matched : probe.target.Takes (lead.reverse ++ before) mid after)
    (tails : probe.tail.startsAt ⟨mid.reverse ++ (lead.reverse ++ before), after⟩ = true) :
    probe.stretchAt? ⟨before, lead ++ (mid ++ after)⟩ =
      some ⟨⟨lead.reverse ++ before, mid ++ after⟩, ⟨mid.reverse ++ (lead.reverse ++ before), after⟩⟩ := by
  obtain ⟨others, leadStops⟩ := List.head?_eq_some_iff.mp leads
  obtain ⟨more, targetStops⟩ := List.head?_eq_some_iff.mp matched
  rw [stretchAt?, leadStops, List.findSome?_cons, targetStops, List.findSome?_cons, if_pos tails]

theorem stretchAt?_of_no_lead {probe : Probe} {place : Cursor} (none : probe.lead.stops place = []) :
    probe.stretchAt? place = .none := by
  rw [stretchAt?, none, List.findSome?_nil]

/-- Without a lead and a target in a row there is no match. -/
theorem stretchAt?_eq_none {probe : Probe} {before text : Text}
    (never : ∀ lead mid after, text = lead ++ (mid ++ after) →
      probe.lead.Spans before lead (mid ++ after) → ¬ probe.target.Spans (lead.reverse ++ before) mid after) :
    probe.stretchAt? ⟨before, text⟩ = none := by
  rw [stretchAt?, List.findSome?_eq_none_iff]
  intro start leads
  rw [List.findSome?_eq_none_iff]
  intro stop matched
  obtain ⟨lead, leadAfter, leadBefore, leadSpans⟩ := Pattern.exists_spans_of_mem_stops leads
  obtain ⟨mid, midAfter, -, midSpans⟩ := Pattern.exists_spans_of_mem_stops matched
  simp only [midAfter, leadBefore] at leadAfter leadSpans midSpans
  exact absurd midSpans (never lead mid stop.after leadAfter leadSpans)

/-! ## Marks -/

section Marks

variable {probe : Probe} {mark before after : Text}

/-- Characters of a match that are already written are passed over. -/
theorem markAllFrom_skip (written : Text) :
    probe.markAllFrom mark written.length before (written ++ after) =
      probe.markAllFrom mark 0 (written.reverse ++ before) after := by
  induction written generalizing before with
  | nil => rfl
  | cons c written ih =>
    rw [List.length_cons, List.cons_append, markAllFrom, ih, List.reverse_cons, List.append_assoc]
    rfl

/-- Where no match starts, the character stays. -/
theorem markAllFrom_of_none {c : Char} (none : probe.stretchAt? ⟨before, c :: after⟩ = .none) :
    probe.markAllFrom mark 0 before (c :: after) = c :: probe.markAllFrom mark 0 (c :: before) after := by
  rw [markAllFrom, none]
  rfl

/-- A match stays as it is, with the mark between its lead and its target. -/
theorem markAllFrom_of_some {lead mid : Text} (nonempty : lead ≠ [])
    (found : probe.stretchAt? ⟨before, lead ++ (mid ++ after)⟩ =
      some ⟨⟨lead.reverse ++ before, mid ++ after⟩, ⟨mid.reverse ++ (lead.reverse ++ before), after⟩⟩) :
    probe.markAllFrom mark 0 before (lead ++ (mid ++ after)) = lead ++ mark ++ mid ++
      probe.markAllFrom mark 0 (mid.reverse ++ (lead.reverse ++ before)) after := by
  obtain ⟨c, others, rfl⟩ := List.exists_cons_of_ne_nil nonempty
  have ahead : before.length <
      Cursor.offset ⟨mid.reverse ++ ((c :: others).reverse ++ before), after⟩ := by
    simp [Cursor.offset]
    omega
  have width : Cursor.offset ⟨mid.reverse ++ ((c :: others).reverse ++ before), after⟩ -
      before.length - 1 = (others ++ mid).length := by
    simp [Cursor.offset]
    omega
  have rest := @markAllFrom_skip probe mark (c :: before) after (others ++ mid)
  rw [List.append_assoc] at rest
  rw [List.cons_append] at found ⊢
  rw [markAllFrom, found, Option.filter_some_pos (by simpa using ahead)]
  dsimp only
  rw [width, rest, Stretch.text_of_passed]
  have lead := Stretch.text_of_passed before (c :: others) (mid ++ after)
  rw [List.cons_append] at lead
  rw [lead]
  simp

end Marks

end Probe

end ReadOnlyViews
