import ReadOnlyViews.Changelog.Moment
import ReadOnlyViews.Failure

/-!
Stamps for changelogs.  A stamp is a moment to the second and a counter of three digits that tells
apart the stamps of one second; the thousandth stamp of a second borrows the next one.
-/

namespace ReadOnlyViews

/-- The greatest counter. -/
def counterLimit : Nat := 999

/-- A clock: its readings in the order in which they will be taken, how many were taken, and the
moment and counter of the last stamp. -/
structure Clock where
  readings : Nat → Moment
  taken : Nat := 0
  last : Option Moment := none
  counter : Nat := 0

namespace Clock

/-- A clock that always reads the same moment. -/
def fixed (now : Moment) : Clock := { readings := fun _ => now }

/-- The stamp of a moment and a counter. -/
def stamp (moment : Moment) (counter : Nat) : Text :=
  moment.digits ++ Text.ofNatPadded 3 counter

/-- The next stamp.  A reading that is not after the last stamp's moment counts that one up; when
the calendar ends there is no stamp, and none later either. -/
def next (clock : Clock) : Except Failure Text × Clock :=
  let now := clock.readings clock.taken
  let clock := { clock with taken := clock.taken + 1 }
  match clock.last.filter now.notAfter with
  | none => (.ok (stamp now 0), { clock with last := some now, counter := 0 })
  | some last =>
    let clock := { clock with counter := clock.counter + 1 }
    if clock.counter ≤ counterLimit then (.ok (stamp last clock.counter), clock)
    else match last.next? with
      | some borrowed =>
        (.ok (stamp borrowed 0), { clock with last := some borrowed, counter := 0 })
      | none => (.error .calendarEnd, clock)

end Clock

end ReadOnlyViews
