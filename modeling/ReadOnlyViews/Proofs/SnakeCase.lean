import ReadOnlyViews.Entity.Naming
import ReadOnlyViews.Proofs.BestMatches
import ReadOnlyViews.Proofs.Texts

/-! Words of a name.  Two searches put the underscores, one for runs of capitals and one for words, and
each takes the characters of a match away from the next.  Still every place where a word starts gets
its underscore, and only such a place: whether it does can be told from the character and its two
neighbours. -/
namespace ReadOnlyViews.Naming

/-- A small letter or a digit. -/
def isSmall (c : Char) : Bool := c.isLower || isDecimal c

/-- Whether a word starts at a position of a name: behind the first there is a capital, and before it a
small letter or a digit, or else a capital, and then a small letter behind it. -/
def startsWordAt (name : Text) (i : Nat) : Bool :=
  0 < i && name[i]?.any Char.isUpper &&
    (name[i - 1]?.any isSmall || name[i - 1]?.any Char.isUpper && name[i + 1]?.any Char.isLower)

/-- The name with an underscore before each character that starts a word. -/
def underscored (name : Text) : Text :=
  name.zipIdx.flatMap fun (c, i) => if startsWordAt name i then ['_', c] else [c]

example : underscored "orderXMLItem2Total" = "order_XML_Item2_Total" := by decide

/-! ## Marks by the neighbours -/

/-- A character with what stands before and behind it. -/
abbrev Test := Option Char → Char → Option Char → Bool

/-- The last capital of a run starts a word. -/
def startsInRun : Test := fun previous c next =>
  previous.any Char.isUpper && c.isUpper && next.any Char.isLower

/-- A capital starts a word behind a small letter or a digit. -/
def startsBehindWord : Test := fun previous c _ => previous.any isSmall && c.isUpper

def startsWord : Test := fun previous c next =>
  startsInRun previous c next || startsBehindWord previous c next

/-- The text with an underscore before each character that passes the test. -/
def marked (test : Test) : (previous : Option Char) → Text → Text
  | _, [] => []
  | previous, c :: rest =>
    (if test previous c rest.head? then ['_', c] else [c]) ++ marked test (some c) rest

private theorem marked_of_test {test : Test} {previous : Option Char} {c : Char} {rest : Text}
    (passes : test previous c rest.head? = true) :
    marked test previous (c :: rest) = '_' :: c :: marked test (some c) rest := by
  rw [marked, if_pos passes]
  rfl

private theorem marked_of_not_test {test : Test} {previous : Option Char} {c : Char} {rest : Text}
    (fails : test previous c rest.head? = false) :
    marked test previous (c :: rest) = c :: marked test (some c) rest := by
  rw [marked, if_neg (by simp [fails])]
  rfl

/-! ## Capitals, small letters and digits -/

private theorem isUpper_iff {c : Char} : c.isUpper = true ↔ 65 ≤ c.toNat ∧ c.toNat ≤ 90 := by
  delta Char.isUpper
  simp [UInt32.le_iff_toNat_le, ← Char.toNat_val]

private theorem isLower_iff {c : Char} : c.isLower = true ↔ 97 ≤ c.toNat ∧ c.toNat ≤ 122 := by
  delta Char.isLower
  simp [UInt32.le_iff_toNat_le, ← Char.toNat_val]

private theorem isDigit_iff {c : Char} : c.isDigit = true ↔ 48 ≤ c.toNat ∧ c.toNat ≤ 57 := by
  delta Char.isDigit
  simp [UInt32.le_iff_toNat_le, ← Char.toNat_val]

private theorem isLower_of_isUpper {c : Char} (upper : c.isUpper = true) : c.isLower = false := by
  rw [← Bool.not_eq_true, isLower_iff]
  rw [isUpper_iff] at upper
  omega

private theorem isUpper_of_isLower {c : Char} (lower : c.isLower = true) : c.isUpper = false := by
  rw [← Bool.not_eq_true]
  intro upper
  simp [isLower_of_isUpper upper] at lower

private theorem isSmall_of_isUpper {c : Char} (upper : c.isUpper = true) : isSmall c = false := by
  have digit : c.isDigit = false := by
    rw [← Bool.not_eq_true, isDigit_iff]
    rw [isUpper_iff] at upper
    omega
  have lower := isLower_of_isUpper upper
  rw [isUpper_iff] at upper
  simp [isSmall, isDecimal, lower, digit]
  omega

/-! ## Runs of capitals -/

/-- The front of a text is a run of capitals, two at least, and a small letter behind it. -/
structure RunThenWord (text init : Text) (last small : Char) (rest : Text) : Prop where
  spelled : text = init ++ ([last, small] ++ rest)
  nonempty : init ≠ []
  capitals : ∀ c ∈ init, c.isUpper = true
  lastCapital : last.isUpper = true
  isLower : small.isLower = true

/-- The run gives back its last capital, and nothing more. -/
theorem findSome?_runs {α : Type} {answer? : Cursor → Option α} {answer : α} {init rest before : Text}
    {last small : Char} (capitals : ∀ c ∈ init, c.isUpper = true) (lastCapital : last.isUpper = true)
    (isLower : small.isLower = true)
    (whole : answer? ⟨last :: (init.reverse ++ before), small :: rest⟩ = none)
    (given : answer? ⟨init.reverse ++ before, last :: small :: rest⟩ = some answer) :
    (Cursor.runs Char.isUpper before (init ++ last :: small :: rest) []).findSome? answer? = some answer := by
  induction init generalizing before with
  | nil =>
    rw [List.nil_append, Cursor.runs_cons lastCapital,
      Cursor.runs_of_refused (by simp [isUpper_of_isLower isLower])]
    simp_all
  | cons c init ih =>
    obtain ⟨here, there⟩ := List.forall_mem_cons.mp capitals
    rw [List.cons_append, Cursor.runs_cons here, List.findSome?_append, ih there]
    · rfl
    · simpa using whole
    · simpa using given

/-- A run of capitals before a small letter is found from its first capital on, and cut before its
last. -/
theorem RunThenWord.stretchAt? {text init rest before : Text} {last small : Char}
    (run : RunThenWord text init last small rest) :
    capitalsThenWord.stretchAt? ⟨before, text⟩ =
      some ⟨⟨init.reverse ++ before, [last, small] ++ rest⟩,
        ⟨[last, small].reverse ++ (init.reverse ++ before), rest⟩⟩ := by
  obtain ⟨c, others, rfl⟩ := List.exists_cons_of_ne_nil run.nonempty
  obtain ⟨here, there⟩ := List.forall_mem_cons.mp run.capitals
  have lead : capitalsThenWord.lead.stops ⟨before, text⟩ =
      Cursor.runs Char.isUpper (c :: before) (others ++ last :: small :: rest) [] := by
    rw [run.spelled]
    change ((Pattern.one Char.isUpper).stops _).flatMap (Pattern.run Char.isUpper).stops = _
    simp [Pattern.stops, here]
  rw [Probe.stretchAt?, lead]
  refine findSome?_runs there run.lastCapital run.isLower ?_ ?_
  · have none : capitalsThenWord.target.stops
        ⟨last :: (others.reverse ++ c :: before), small :: rest⟩ = [] := by
      change ((Pattern.one Char.isUpper).stops _).flatMap (Pattern.one Char.isLower).stops = []
      simp [Pattern.stops, isUpper_of_isLower run.isLower]
    rw [none, List.findSome?_nil]
  · have target : capitalsThenWord.target.Takes (others.reverse ++ c :: before) [last, small] rest :=
      (Pattern.takes_one run.lastCapital).append (Pattern.takes_one run.isLower)
    obtain ⟨more, stops⟩ := List.head?_eq_some_iff.mp target
    rw [List.cons_append, List.cons_append, List.nil_append] at stops
    have ended : capitalsThenWord.tail.startsAt
        ⟨[last, small].reverse ++ (others.reverse ++ c :: before), rest⟩ = true := rfl
    rw [stops, List.findSome?_cons, if_pos ended]
    simp

/-- Nothing else is found. -/
theorem stretchAt?_of_no_run {text before : Text}
    (never : ∀ init last small rest, ¬ RunThenWord text init last small rest) :
    capitalsThenWord.stretchAt? ⟨before, text⟩ = none := by
  refine Probe.stretchAt?_eq_none fun lead mid after spelled leads matched => ?_
  obtain ⟨nonempty, capitals⟩ := Pattern.spans_run1.mp leads
  obtain ⟨_, _, rfl, first, second⟩ := Pattern.spans_append.mp matched
  obtain ⟨last, lastCapital, rfl⟩ := Pattern.spans_one.mp first
  obtain ⟨small, isLower, rfl⟩ := Pattern.spans_one.mp second
  exact never lead last small after ⟨spelled, nonempty, capitals, lastCapital, isLower⟩

/-- Within a run no capital but the last is before a small letter. -/
theorem marked_run {init rest : Text} {last : Char} (capitals : ∀ c ∈ init, c.isUpper = true)
    (lastCapital : last.isUpper = true) (previous : Option Char) :
    marked startsInRun previous (init ++ last :: rest) =
      init ++ marked startsInRun (init.getLast?.or previous) (last :: rest) := by
  induction init generalizing previous with
  | nil => rfl
  | cons c init ih =>
    obtain ⟨here, there⟩ := List.forall_mem_cons.mp capitals
    have next : (init ++ last :: rest).head?.any Char.isLower = false := by
      cases init with
      | nil => simp [isLower_of_isUpper lastCapital]
      | cons d init => simp [isLower_of_isUpper (there d List.mem_cons_self)]
    have fails : startsInRun previous c (init ++ last :: rest).head? = false := by
      rw [startsInRun, next, Bool.and_false]
    rw [List.cons_append, marked_of_not_test fails, ih there (some c), List.getLast?_cons]
    cases init.getLast? <;> rfl

theorem RunThenWord.marked {text init rest : Text} {last small : Char}
    (run : RunThenWord text init last small rest) (previous : Option Char) :
    marked startsInRun previous text =
      init ++ ['_'] ++ [last, small] ++ marked startsInRun (some small) rest := by
  obtain ⟨front, c, rfl⟩ : ∃ front c, init = front ++ [c] :=
    ⟨_, _, (List.dropLast_append_getLast run.nonempty).symm⟩
  have upper : c.isUpper = true := run.capitals c (by simp)
  have starts : startsInRun (some c) last (small :: rest).head? = true := by
    simp [startsInRun, upper, run.lastCapital, run.isLower]
  have inside : startsInRun (some last) small rest.head? = false := by
    simp [startsInRun, isUpper_of_isLower run.isLower]
  have cut := @marked_run (front ++ [c]) (small :: rest) last run.capitals run.lastCapital previous
  rw [List.getLast?_concat, Option.some_or, marked_of_test starts, marked_of_not_test inside] at cut
  rw [run.spelled]
  simpa using cut

/-- The search for runs marks the last capital of each run before a small letter.  A run whose first
capital is passed already has no small letter behind it, or it would have been found from there. -/
theorem markAllFrom_capitalsThenWord (size : Nat) {before text : Text} (short : text.length ≤ size)
    (passed : before.head?.any Char.isUpper = true →
      ∀ init last small rest, ¬ RunThenWord (before.take 1 ++ text) init last small rest) :
    capitalsThenWord.markAllFrom ['_'] 0 before text = Naming.marked startsInRun before.head? text := by
  induction size generalizing before text with
  | zero =>
    obtain rfl := List.eq_nil_of_length_eq_zero (Nat.le_zero.mp short)
    rfl
  | succ size ih =>
    cases text with
    | nil => rfl
    | cons c rest =>
      by_cases found : ∃ init last small more, RunThenWord (c :: rest) init last small more
      · obtain ⟨init, last, small, more, run⟩ := found
        have length := congrArg List.length run.spelled
        have further := @ih ([last, small].reverse ++ (init.reverse ++ before)) more
          (by simp at length short; omega) (by simp [isUpper_of_isLower run.isLower])
        rw [run.marked, run.spelled, Probe.markAllFrom_of_some run.nonempty (run.spelled ▸ run.stretchAt?),
          further]
        rfl
      · have none : ∀ init last small more, ¬ RunThenWord (c :: rest) init last small more :=
          fun init last small more run => found ⟨init, last, small, more, run⟩
        have fails : startsInRun before.head? c rest.head? = false := by
          by_contra starts
          simp only [startsInRun, Bool.not_eq_false, Bool.and_eq_true] at starts
          obtain ⟨⟨previous, capital⟩, next⟩ := starts
          cases before with
          | nil => simp at previous
          | cons b before =>
            cases rest with
            | nil => simp at next
            | cons d rest =>
              exact passed previous [b] c d rest ⟨rfl, by simp, by simpa using previous, capital,
                by simpa using next⟩
        have further := @ih (c :: before) rest (by simp at short; omega) fun _ => none
        rw [Probe.markAllFrom_of_none (stretchAt?_of_no_run none), marked_of_not_test fails, further]
        rfl

/-! ## Words -/

/-- The search for words marks each capital behind a small letter or a digit. -/
theorem markAllFrom_wordThenCapital (size : Nat) {before text : Text} (short : text.length ≤ size)
    (passed : before.head?.any isSmall = true → text.head?.any Char.isUpper = false) :
    wordThenCapital.markAllFrom ['_'] 0 before text = marked startsBehindWord before.head? text := by
  induction size generalizing before text with
  | zero =>
    obtain rfl := List.eq_nil_of_length_eq_zero (Nat.le_zero.mp short)
    rfl
  | succ size ih =>
    cases text with
    | nil => rfl
    | cons c rest =>
      have fails : startsBehindWord before.head? c rest.head? = false := by
        by_contra starts
        simp only [startsBehindWord, Bool.not_eq_false, Bool.and_eq_true] at starts
        simp [starts.2] at passed
        simp [passed] at starts
      by_cases found : isSmall c = true ∧ rest.head?.any Char.isUpper = true
      · obtain ⟨small, capital⟩ := found
        cases rest with
        | nil => simp at capital
        | cons d rest =>
          have upper : d.isUpper = true := by simpa using capital
          have starts : startsBehindWord (some c) d rest.head? = true := by
            simp [startsBehindWord, small, upper]
          have lead : wordThenCapital.lead.Takes before [c] ([d] ++ rest) := Pattern.takes_one small
          have target : wordThenCapital.target.Takes ([c].reverse ++ before) [d] rest :=
            Pattern.takes_one upper
          have further := @ih ([d].reverse ++ ([c].reverse ++ before)) rest
            (by simp at short; omega) (by simp [isSmall_of_isUpper upper])
          have written := @Probe.markAllFrom_of_some wordThenCapital ['_'] before rest [c] [d] (by simp)
            (Probe.stretchAt?_of_takes lead target rfl)
          rw [marked_of_not_test fails, marked_of_test starts]
          exact written.trans (by rw [further]; rfl)
      · have none : wordThenCapital.stretchAt? ⟨before, c :: rest⟩ = .none := by
          refine Probe.stretchAt?_eq_none fun lead mid after spelled leads matched => found ?_
          obtain ⟨b, small, rfl⟩ := Pattern.spans_one.mp leads
          obtain ⟨d, upper, rfl⟩ := Pattern.spans_one.mp matched
          obtain ⟨rfl, rfl⟩ := List.cons.inj spelled
          exact ⟨small, by simpa using upper⟩
        have further := @ih (c :: before) rest (by simp at short; omega) (by simpa using found)
        rw [Probe.markAllFrom_of_none none, marked_of_not_test fails, further]
        rfl

/-! ## Both searches -/

/-- An underscore that the first search puts neither hides a word from the second nor makes one. -/
theorem marked_marked (previous : Option Char) (text : Text) :
    marked startsBehindWord previous (marked startsInRun previous text) =
      marked startsWord previous text := by
  induction text generalizing previous with
  | nil => rfl
  | cons c rest ih =>
    have blind (next : Option Char) : startsBehindWord previous c next =
        startsBehindWord previous c rest.head? := rfl
    by_cases inRun : startsInRun previous c rest.head? = true
    · have mark (next : Option Char) : startsBehindWord previous '_' next = false := by
        simp [startsBehindWord]
      have behindMark (next : Option Char) : startsBehindWord (some '_') c next = false := by
        have plain : isSmall '_' = false := by decide
        simp [startsBehindWord, plain]
      rw [marked_of_test inRun, marked_of_not_test (mark _), marked_of_not_test (behindMark _), ih,
        marked_of_test (by rw [startsWord, inRun, Bool.true_or])]
    · have notInRun : startsInRun previous c rest.head? = false := by simpa using inRun
      have total : startsWord previous c rest.head? = startsBehindWord previous c rest.head? := by
        rw [startsWord, notInRun, Bool.false_or]
      rw [marked_of_not_test notInRun, marked, marked, ih, total, blind]

/-- Whether a word starts at a position is settled by the neighbours. -/
theorem startsWordAt_append (front : Text) (c : Char) (rest : Text) :
    startsWordAt (front ++ c :: rest) front.length = startsWord front.getLast? c rest.head? := by
  have here : (front ++ c :: rest)[front.length]? = some c := by simp
  have behind : (front ++ c :: rest)[front.length + 1]? = rest.head? := by
    rw [List.getElem?_append_right (by omega)]
    cases rest <;> simp
  cases front with
  | nil => simp [startsWordAt, startsWord, startsInRun, startsBehindWord]
  | cons b front =>
    have before : (b :: front ++ c :: rest)[(b :: front).length - 1]? = (b :: front).getLast? := by
      rw [List.getElem?_append_left (by simp), List.getLast?_eq_getElem?]
    have positive : decide (0 < (b :: front).length) = true := by simp
    rw [startsWordAt, here, behind, before, positive, startsWord, startsInRun, startsBehindWord,
      Option.any_some, Bool.true_and]
    cases c.isUpper <;> simp [Bool.or_comm]

private theorem flatMap_zipIdx (front text : Text) :
    ((text.zipIdx front.length).flatMap fun (c, i) =>
        if startsWordAt (front ++ text) i then ['_', c] else [c]) =
      marked startsWord front.getLast? text := by
  induction text generalizing front with
  | nil => rfl
  | cons c rest ih =>
    have further := ih (front ++ [c])
    rw [List.append_assoc, List.singleton_append, List.length_append, List.length_singleton,
      List.getLast?_concat] at further
    rw [List.zipIdx_cons, List.flatMap_cons, further, marked]
    dsimp only
    rw [startsWordAt_append]

/-- The two searches in a row put an underscore before each start of a word. -/
theorem markAll_markAll (name : Text) :
    wordThenCapital.markAll ['_'] (capitalsThenWord.markAll ['_'] name) = underscored name := by
  rw [Probe.markAll, Probe.markAll, markAllFrom_capitalsThenWord name.length (Nat.le_refl _) (by simp),
    markAllFrom_wordThenCapital _ (Nat.le_refl _) (by simp), List.head?_nil, marked_marked]
  exact (flatMap_zipIdx [] name).symm

private theorem dropUnderscore_eq (text : Text) :
    dropUnderscore text = if text.head? = some '_' then text.tail else text := by
  unfold dropUnderscore
  split
  · rfl
  · next other =>
    rw [if_neg]
    intro first
    obtain ⟨rest, rfl⟩ := List.head?_eq_some_iff.mp first
    exact other rest rfl

/-- A name in snake case, character by character: an underscore goes before each start of a word and
nowhere else, all is put into small letters, and one leading underscore is dropped. -/
theorem snakeCase_pointwise (name : Text) :
    snakeCase name =
      if (Text.lower (underscored name)).head? = some '_' then (Text.lower (underscored name)).tail
      else Text.lower (underscored name) := by
  rw [snakeCase, markAll_markAll, dropUnderscore_eq]

end ReadOnlyViews.Naming
