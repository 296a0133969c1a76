import Mathlib.Algebra.Group.Nat.Even
import Mathlib.Tactic.SplitIfs
import ReadOnlyViews.Changelog.Clock

/-!
The stamps that a clock issues.  A stamp is read as one number, the moment's fields followed by the
counter, and of two stamps of one width the one with the smaller number comes first.  Whatever the
clock reads, each call issues a greater number than the calls before it, until the last second of
the calendar is used up; from then on every call fails.
-/

namespace ReadOnlyViews

/-! ### Texts of digits in order -/

namespace Text

private theorem isDigit_of_mem_ofNatPadded {width n : Nat} {c : Char} (member : c ∈ ofNatPadded width n) :
    c.isDigit = true := by
  rcases List.mem_append.mp member with padding | digit
  · rw [List.eq_of_mem_replicate padding]
    rfl
  · exact Nat.isDigit_of_mem_toDigits (by decide) (by decide) digit

/-- A number below the given power of ten is written in exactly that many places. -/
theorem length_ofNatPadded {width n : Nat} (wide : 0 < width) (fits : n < 10 ^ width) :
    (ofNatPadded width n).length = width := by
  have short : (ofNat n).length ≤ width := (Nat.length_toDigits_le_iff (by decide) wide).mpr fits
  simp only [ofNatPadded, List.length_append, List.length_replicate]
  omega

/-- Places that are read behind a number push it to the left. -/
theorem ofDigitChars_ofNatPadded {width n : Nat} (wide : 0 < width) (fits : n < 10 ^ width)
    (start : Nat) :
    Nat.ofDigitChars 10 (ofNatPadded width n) start = 10 ^ width * start + n := by
  rw [Nat.ofDigitChars_eq_ofDigitChars_zero, length_ofNatPadded wide fits]
  simp only [ofNatPadded, ofNat, Nat.ofDigitChars_append, Nat.ofDigitChars_replicate_zero,
    Nat.mul_zero, Nat.ofDigitChars_ten_toDigits]

private theorem digit_le_nine {c : Char} (digit : c.isDigit = true) : c.toNat - '0'.toNat ≤ 9 := by
  simp only [Char.isDigit, Bool.and_eq_true, decide_eq_true_eq] at digit
  have upper : c.toNat ≤ 57 := digit.2
  have zero : '0'.toNat = 48 := rfl
  omega

/-- A number that is ahead stays ahead, whatever digits are read behind both. -/
theorem ofDigitChars_lt_of_lt {a b : Text} (digits : ∀ c ∈ a, c.isDigit = true)
    (same : a.length = b.length) {m n : Nat} (ahead : m < n) :
    Nat.ofDigitChars 10 a m < Nat.ofDigitChars 10 b n := by
  induction a generalizing b m n with
  | nil =>
    rw [List.eq_nil_of_length_eq_zero same.symm]
    exact ahead
  | cons c a ih =>
    obtain ⟨d, b, rfl⟩ : ∃ d rest, b = d :: rest :=
      List.exists_cons_of_length_eq_add_one same.symm
    have small := digit_le_nine (digits c List.mem_cons_self)
    rw [Nat.ofDigitChars_cons, Nat.ofDigitChars_cons]
    exact ih (fun c member => digits c (List.mem_cons_of_mem _ member)) (by simpa using same)
      (by omega)

/-- Of two texts of digits of one length the one with the smaller number comes first. -/
theorem before_of_ofDigitChars_lt {a b : Text} (digits : ∀ c ∈ a, c.isDigit = true)
    (others : ∀ c ∈ b, c.isDigit = true) (same : a.length = b.length) {start : Nat}
    (less : Nat.ofDigitChars 10 a start < Nat.ofDigitChars 10 b start) : before a b = true := by
  induction a generalizing b start with
  | nil => rfl
  | cons c a ih =>
    obtain ⟨d, b, rfl⟩ : ∃ d rest, b = d :: rest :=
      List.exists_cons_of_length_eq_add_one same.symm
    have lengths : a.length = b.length := by simpa using same
    obtain ⟨-, rest⟩ := List.forall_mem_cons.mp digits
    obtain ⟨high, otherRest⟩ := List.forall_mem_cons.mp others
    rw [Nat.ofDigitChars_cons, Nat.ofDigitChars_cons] at less
    by_cases equal : c = d
    · subst equal
      simpa [before] using ih rest otherRest lengths less
    · -- If the second text had the smaller digit here, it would be the one that lags behind.
      have apart : c.toNat < d.toNat := by
        by_contra notLess
        have codes : c.toNat ≠ d.toNat := fun h => equal (Char.toNat_inj.mp h)
        have low : '0'.toNat ≤ d.toNat := by
          simp only [Char.isDigit, Bool.and_eq_true, decide_eq_true_eq] at high
          exact high.1
        have lag := ofDigitChars_lt_of_lt otherRest lengths.symm
          (show 10 * start + (d.toNat - '0'.toNat) < 10 * start + (c.toNat - '0'.toNat) by omega)
        omega
      simp [before, equal, apart]

end Text

/-! ### Moments in order -/

namespace Moment

/-- The last second of the calendar. -/
def final : Moment := ⟨lastYear, 12, 31, 23, 59, 59⟩

private theorem daysInMonth_bounds (year month : Nat) :
    1 ≤ daysInMonth year month ∧ daysInMonth year month ≤ 31 := by
  unfold daysInMonth
  split_ifs <;> decide

private theorem number_le_final {m : Moment} (valid : m.Valid) : m.number ≤ final.number := by
  obtain ⟨-, year, -, month, -, day, hour, minute, second⟩ := valid
  have days := daysInMonth_bounds m.year m.month
  simp only [number, final]
  omega

/-- The second after a moment of the calendar is one of the calendar, later and of no earlier
year. -/
theorem valid_of_next? {m later : Moment} (valid : m.Valid) (next : m.next? = some later) :
    later.Valid ∧ m.number < later.number ∧ m.year ≤ later.year := by
  simp only [Valid] at valid
  -- A day that is carried over starts a month, which has a first day.
  have days := daysInMonth_bounds m.year m.month
  have nextMonth := daysInMonth_bounds m.year (m.month + 1)
  have nextYear := daysInMonth_bounds (m.year + 1) 1
  unfold next? at next
  split_ifs at next with second minute hour day month year
  all_goals
    cases next
    simp only [Valid, number]
    omega

/-- Only the last second of the calendar has none after it. -/
theorem eq_final_of_next?_eq_none {m : Moment} (valid : m.Valid) (ends : m.next? = none) :
    m = final := by
  obtain ⟨year, month, day, hour, minute, second⟩ := m
  simp only [Valid] at valid
  unfold next? at ends
  split_ifs at ends with s mi h d mo y
  dsimp only at s mi h d mo y
  obtain rfl : year = lastYear := by omega
  obtain rfl : month = 12 := by omega
  have december : daysInMonth lastYear 12 = 31 := by decide
  simp only [final, mk.injEq, true_and]
  omega

end Moment

/-! ### Stamps as numbers -/

/-- What a stamp says: a moment of the calendar with a year of four digits, and a counter. -/
structure Issue where
  moment : Moment
  counter : Nat
  valid : moment.Valid
  fourDigits : 1000 ≤ moment.year
  counts : counter ≤ counterLimit

namespace Issue

/-- The stamp that says it. -/
def stamp (issue : Issue) : Text := Clock.stamp issue.moment issue.counter

/-- The number that a stamp's digits spell. -/
def rank (issue : Issue) : Nat := issue.moment.number * 1000 + issue.counter

private theorem length_digits (issue : Issue) : issue.moment.digits.length = 14 := by
  obtain ⟨-, year, -, month, -, day, hour, minute, second⟩ := issue.valid
  have days := Moment.daysInMonth_bounds issue.moment.year issue.moment.month
  have wide := issue.fourDigits
  have most : (Text.ofNat issue.moment.year).length ≤ 4 :=
    (Nat.length_toDigits_le_iff (by decide) (by decide)).mpr (by unfold Moment.lastYear at year; omega)
  have least : ¬(Text.ofNat issue.moment.year).length ≤ 3 :=
    mt (Nat.length_toDigits_le_iff (by decide) (by decide)).mp (by omega)
  have two {n : Nat} (small : n < 100) : (Text.ofNatPadded 2 n).length = 2 :=
    Text.length_ofNatPadded (by decide) small
  simp only [Moment.digits, List.length_append, two (show issue.moment.month < 100 by omega),
    two (show issue.moment.day < 100 by omega), two (show issue.moment.hour < 100 by omega),
    two (show issue.moment.minute < 100 by omega), two (show issue.moment.second < 100 by omega)]
  omega

private theorem length_stamp (issue : Issue) : issue.stamp.length = 17 := by
  have counter : (Text.ofNatPadded 3 issue.counter).length = 3 :=
    Text.length_ofNatPadded (by decide) (Nat.lt_of_le_of_lt issue.counts (by decide))
  simp only [stamp, Clock.stamp, List.length_append, issue.length_digits, counter]

private theorem take_stamp (issue : Issue) : issue.stamp.take 14 = issue.moment.digits := by
  rw [stamp, Clock.stamp, ← issue.length_digits, List.take_left']
  rfl

private theorem isDigit_of_mem_stamp {issue : Issue} {c : Char} (member : c ∈ issue.stamp) :
    c.isDigit = true := by
  simp only [stamp, Clock.stamp, Moment.digits, List.mem_append] at member
  rcases member with (((((year | part) | part) | part) | part) | part) | part
  · exact Nat.isDigit_of_mem_toDigits (by decide) (by decide) year
  all_goals exact Text.isDigit_of_mem_ofNatPadded part

private theorem ofDigitChars_stamp (issue : Issue) :
    Nat.ofDigitChars 10 issue.stamp 0 = issue.rank := by
  obtain ⟨-, -, -, month, -, day, hour, minute, second⟩ := issue.valid
  have days := Moment.daysInMonth_bounds issue.moment.year issue.moment.month
  have counts : issue.counter < 10 ^ 3 := Nat.lt_of_le_of_lt issue.counts (by decide)
  have two {n : Nat} (small : n < 100) (start : Nat) :
      Nat.ofDigitChars 10 (Text.ofNatPadded 2 n) start = 100 * start + n :=
    Text.ofDigitChars_ofNatPadded (by decide) small start
  simp only [stamp, Clock.stamp, Moment.digits, Nat.ofDigitChars_append, Text.ofNat,
    Nat.ofDigitChars_ten_toDigits, two (show issue.moment.month < 100 by omega),
    two (show issue.moment.day < 100 by omega), two (show issue.moment.hour < 100 by omega),
    two (show issue.moment.minute < 100 by omega), two (show issue.moment.second < 100 by omega),
    Text.ofDigitChars_ofNatPadded (by decide) counts, rank, Moment.number]
  omega

/-- A stamp with a smaller number comes first. -/
theorem stamp_before {earlier later : Issue} (less : earlier.rank < later.rank) :
    Text.before earlier.stamp later.stamp = true ∧ earlier.stamp ≠ later.stamp := by
  rw [← ofDigitChars_stamp, ← ofDigitChars_stamp] at less
  refine ⟨Text.before_of_ofDigitChars_lt (fun _ => isDigit_of_mem_stamp)
    (fun _ => isDigit_of_mem_stamp) ?_ less, ?_⟩
  · rw [length_stamp, length_stamp]
  · intro same
    rw [same] at less
    exact Nat.lt_irrefl _ less

/-- The last stamp of the calendar. -/
def final : Issue := ⟨Moment.final, counterLimit, by decide, by decide, by decide⟩

private theorem stamp_final : final.stamp = "99991231235959999" := by decide

end Issue

/-! ### One call -/

namespace Clock

/-- The answers to so many calls in a row. -/
def answers : (calls : Nat) → Clock → List (Except Failure Text)
  | 0, _ => []
  | calls + 1, clock => clock.next.1 :: answers calls clock.next.2

/-- A reading that the stamps can spell: a moment of the calendar with a year of four digits. -/
def Spellable (reading : Moment) : Prop := reading.Valid ∧ 1000 ≤ reading.year

instance (reading : Moment) : Decidable (Spellable reading) := by unfold Spellable; infer_instance

/-- The clock has just issued a stamp. -/
def Shows (clock : Clock) (issue : Issue) : Prop :=
  clock.last = some issue.moment ∧ clock.counter = issue.counter

/-- The clock has no stamp left. -/
def Spent (clock : Clock) : Prop :=
  clock.last = some Moment.final ∧ counterLimit ≤ clock.counter

private theorem next_readings (clock : Clock) : clock.next.2.readings = clock.readings := by
  unfold next
  dsimp only
  split
  · rfl
  · split_ifs
    · rfl
    · split <;> rfl

theorem next_taken (clock : Clock) : clock.next.2.taken = clock.taken + 1 := by
  unfold next
  dsimp only
  split
  · rfl
  · split_ifs
    · rfl
    · split <;> rfl

variable {clock : Clock}

/-- A reading after everything issued so far is taken as it is. -/
theorem next_of_ahead (spellable : Spellable (clock.readings clock.taken))
    (ahead : clock.last.filter (clock.readings clock.taken).notAfter = none) :
    ∃ issue : Issue, issue.moment = clock.readings clock.taken ∧ issue.counter = 0 ∧
      clock.next.1 = .ok issue.stamp ∧ clock.next.2.Shows issue := by
  refine ⟨⟨clock.readings clock.taken, 0, spellable.1, spellable.2, by decide⟩, rfl, rfl, ?_⟩
  unfold next
  simp only [ahead]
  exact ⟨rfl, rfl, rfl⟩

/-- A clock that has issued a stamp issues a greater one, or has no stamp left. -/
theorem next_of_shows {issue : Issue} (shows : clock.Shows issue)
    (spellable : Spellable (clock.readings clock.taken)) :
    (∃ later : Issue, issue.rank < later.rank ∧ clock.next.1 = .ok later.stamp ∧
      clock.next.2.Shows later) ∨ issue = Issue.final ∧ clock.Spent := by
  obtain ⟨last, counter⟩ := shows
  cases ahead : (clock.readings clock.taken).notAfter issue.moment with
  | false =>
    obtain ⟨later, moment, -, issued⟩ := next_of_ahead spellable (by simp [last, ahead])
    refine .inl ⟨later, ?_, issued⟩
    have less : issue.moment.number < later.moment.number := by
      simpa [Moment.notAfter, moment] using ahead
    have counts := issue.counts
    simp only [Issue.rank, counterLimit] at counts ⊢
    omega
  | true =>
    have kept : clock.last.filter (clock.readings clock.taken).notAfter = some issue.moment := by
      simp [last, ahead]
    unfold next
    simp only [kept, counter]
    by_cases room : issue.counter + 1 ≤ counterLimit
    · refine .inl ⟨⟨issue.moment, issue.counter + 1, issue.valid, issue.fourDigits, room⟩, ?_, ?_⟩
      · simp only [Issue.rank]
        omega
      · simp only [room, if_true]
        exact ⟨rfl, last, rfl⟩
    · have full : issue.counter = counterLimit := by
        have counts := issue.counts
        omega
      simp only [room, if_false]
      cases borrowed : issue.moment.next? with
      | some moment =>
        obtain ⟨valid, later, year⟩ := Moment.valid_of_next? issue.valid borrowed
        have fourDigits := issue.fourDigits
        refine .inl ⟨⟨moment, 0, valid, by omega, by decide⟩, ?_, rfl, rfl, rfl⟩
        simp only [Issue.rank, full, counterLimit]
        omega
      | none =>
        have ends := Moment.eq_final_of_next?_eq_none issue.valid borrowed
        refine .inr ⟨?_, by rw [last, ends], by rw [counter, full]⟩
        cases issue
        simp only [Issue.final, Issue.mk.injEq]
        exact ⟨ends, full⟩

/-- A clock without a stamp left fails, and has none left afterwards. -/
theorem next_of_spent (spent : clock.Spent) (spellable : Spellable (clock.readings clock.taken)) :
    clock.next.1 = .error .calendarEnd ∧ clock.next.2.Spent := by
  obtain ⟨last, counter⟩ := spent
  have kept : clock.last.filter (clock.readings clock.taken).notAfter = some Moment.final := by
    have notAfter := Moment.number_le_final spellable.1
    simp [last, Moment.notAfter, notAfter]
  have full : ¬clock.counter + 1 ≤ counterLimit := by omega
  have ends : Moment.final.next? = none := by decide
  unfold next
  simp only [kept, full, if_false, ends]
  exact ⟨trivial, last, Nat.le_succ_of_le counter⟩

/-! ### Calls in a row -/

private theorem answers_of_spent (calls : Nat) (spent : clock.Spent)
    (spellable : ∀ i < calls, Spellable (clock.readings (clock.taken + i))) :
    answers calls clock = List.replicate calls (.error .calendarEnd) := by
  induction calls generalizing clock with
  | zero => rfl
  | succ calls ih =>
    obtain ⟨fails, still⟩ := next_of_spent spent (spellable 0 (Nat.succ_pos calls))
    rw [answers, fails, List.replicate_succ, ih still]
    intro i less
    rw [next_readings, next_taken, Nat.add_assoc, Nat.add_comm 1]
    exact spellable (i + 1) (Nat.succ_lt_succ less)

/-- What calls in a row issue behind a stamp: greater and greater stamps, and failures only behind
the last one of the calendar. -/
theorem answers_of_shows (calls : Nat) {issue : Issue} (shows : clock.Shows issue)
    (spellable : ∀ i < calls, Spellable (clock.readings (clock.taken + i))) :
    ∃ (issues : List Issue) (refused : Nat),
      answers calls clock = (issues.map fun issue => .ok issue.stamp) ++
        List.replicate refused (.error .calendarEnd) ∧
      (issue :: issues).Pairwise (fun earlier later => earlier.rank < later.rank) ∧
      (0 < refused → (issue :: issues).getLast? = some Issue.final) := by
  induction calls generalizing clock issue with
  | zero => exact ⟨[], 0, rfl, List.pairwise_singleton _ _, fun positive => by omega⟩
  | succ calls ih =>
    have later (i : Nat) (less : i < calls) :
        Spellable (clock.next.2.readings (clock.next.2.taken + i)) := by
      rw [next_readings, next_taken, Nat.add_assoc, Nat.add_comm 1]
      exact spellable (i + 1) (Nat.succ_lt_succ less)
    rcases next_of_shows shows (spellable 0 (Nat.succ_pos calls)) with
      ⟨next, greater, issued, shown⟩ | ⟨rfl, spent⟩
    · obtain ⟨issues, refused, split, increasing, ends⟩ := ih shown later
      refine ⟨next :: issues, refused, ?_, ?_, ?_⟩
      · rw [answers, issued, split]
        rfl
      · refine List.pairwise_cons.mpr ⟨?_, increasing⟩
        intro other member
        rcases List.mem_cons.mp member with rfl | member
        · exact greater
        · exact Nat.lt_trans greater ((List.pairwise_cons.mp increasing).1 other member)
      · intro positive
        rw [List.getLast?_cons_cons]
        exact ends positive
    · exact ⟨[], calls + 1, answers_of_spent _ spent spellable, List.pairwise_singleton _ _,
        fun _ => rfl⟩

/-- What the answers to calls in a row are: stamps of seventeen digits that start with a moment of
the calendar, each after those before it in code-point order, and failures only once the last stamp
of the calendar has been issued, and from then on. -/
structure Orderly (answers : List (Except Failure Text)) (stamps : List Text) (refused : Nat) :
    Prop where
  split : answers = stamps.map .ok ++ List.replicate refused (.error .calendarEnd)
  wide : ∀ stamp ∈ stamps, stamp.length = 17
  digits : ∀ stamp ∈ stamps, ∀ c ∈ stamp, c.isDigit = true
  spells : ∀ stamp ∈ stamps, ∃ moment : Moment, moment.Valid ∧ stamp.take 14 = moment.digits
  increasing : stamps.Pairwise fun a b => Text.before a b = true ∧ a ≠ b
  distinct : stamps.Nodup
  exhausted : 0 < refused → stamps.getLast? = some "99991231235959999".toList

private theorem orderly_of_issues {given : List (Except Failure Text)} (issues : List Issue) {refused : Nat}
    (split : given = (issues.map fun issue => .ok issue.stamp) ++
      List.replicate refused (.error .calendarEnd))
    (increasing : issues.Pairwise fun earlier later => earlier.rank < later.rank)
    (ends : 0 < refused → issues.getLast? = some Issue.final) :
    Orderly given (issues.map Issue.stamp) refused := by
  have ordered : (issues.map Issue.stamp).Pairwise fun a b => Text.before a b = true ∧ a ≠ b :=
    List.pairwise_map.mpr (increasing.imp Issue.stamp_before)
  refine ⟨by rw [split, List.map_map]; rfl, ?_, ?_, ?_, ordered, ordered.imp And.right, ?_⟩
  · simp only [List.forall_mem_map]
    exact fun issue _ => issue.length_stamp
  · simp only [List.forall_mem_map]
    exact fun issue _ c => Issue.isDigit_of_mem_stamp
  · simp only [List.forall_mem_map]
    exact fun issue _ => ⟨issue.moment, issue.valid, issue.take_stamp⟩
  · intro positive
    rw [List.getLast?_map, ends positive, Option.map_some, Issue.stamp_final]

/-- Whatever moments a clock reads, forwards, backwards or the same one again, the answers to any
number of calls are orderly. -/
theorem answers_orderly (readings : Nat → Moment) (calls : Nat)
    (spellable : ∀ i < calls, Spellable (readings i)) :
    ∃ stamps refused, Orderly (answers calls { readings }) stamps refused := by
  cases calls with
  | zero => exact ⟨[], 0, orderly_of_issues [] rfl .nil (by omega)⟩
  | succ calls =>
    obtain ⟨first, -, -, issued, shows⟩ :=
      @next_of_ahead { readings } (spellable 0 (Nat.succ_pos calls)) rfl
    obtain ⟨issues, refused, split, increasing, ends⟩ := answers_of_shows calls shows (by
      intro i less
      rw [next_readings, next_taken, Nat.add_assoc, Nat.add_comm 1]
      simpa using spellable (i + 1) (Nat.succ_lt_succ less))
    refine ⟨_, _, orderly_of_issues (first :: issues) ?_ increasing ends⟩
    rw [answers, issued, split]
    rfl

/-- Readings that start in the last second of a leap day and then fall back by decades. -/
def fallingReadings (i : Nat) : Moment :=
  if i = 0 then ⟨2024, 2, 29, 23, 59, 59⟩ else ⟨1999, 1, 1, 0, 0, 0⟩

theorem answers_orderly_of_fallingReadings :
    (∀ i < 1001, Spellable (fallingReadings i)) ∧
      ∃ stamps refused, Orderly (answers 1001 { readings := fallingReadings }) stamps refused := by
  have spellable (i : Nat) (_ : i < 1001) : Spellable (fallingReadings i) := by
    unfold fallingReadings
    split_ifs <;> decide
  exact ⟨spellable, answers_orderly fallingReadings 1001 spellable⟩

end Clock

end ReadOnlyViews
