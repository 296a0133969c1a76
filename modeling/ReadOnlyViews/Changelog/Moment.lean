import ReadOnlyViews.Text.Basic

/-!
Moments of the calendar, to the second.
-/

namespace ReadOnlyViews

/-- A moment by its calendar fields. -/
structure Moment where
  year : Nat
  month : Nat
  day : Nat
  hour : Nat
  minute : Nat
  second : Nat
  deriving DecidableEq, Repr

namespace Moment

/-- The last year of the calendar. -/
def lastYear : Nat := 9999

/-- Whether a year has a leap day. -/
def isLeap (year : Nat) : Bool := year % 4 == 0 && (year % 100 != 0 || year % 400 == 0)

/-- The number of days of a month. -/
def daysInMonth (year month : Nat) : Nat :=
  if month = 2 then if isLeap year then 29 else 28
  else if month = 4 ∨ month = 6 ∨ month = 9 ∨ month = 11 then 30
  else 31

/-- Whether the fields name a moment of the calendar. -/
def Valid (m : Moment) : Prop :=
  1 ≤ m.year ∧ m.year ≤ lastYear ∧ 1 ≤ m.month ∧ m.month ≤ 12 ∧
    1 ≤ m.day ∧ m.day ≤ daysInMonth m.year m.month ∧
    m.hour < 24 ∧ m.minute < 60 ∧ m.second < 60

instance (m : Moment) : Decidable m.Valid := by unfold Valid; infer_instance

/-- The fields in one number, with two decimal places for each unit below the year. -/
def number (m : Moment) : Nat :=
  ((((m.year * 100 + m.month) * 100 + m.day) * 100 + m.hour) * 100 + m.minute) * 100 + m.second

/-- Whether a moment is not after another. -/
def notAfter (m n : Moment) : Bool := m.number ≤ n.number

/-- The moment one second later, as long as the calendar has one. -/
def next? (m : Moment) : Option Moment :=
  if m.second < 59 then some { m with second := m.second + 1 }
  else if m.minute < 59 then some { m with minute := m.minute + 1, second := 0 }
  else if m.hour < 23 then some { m with hour := m.hour + 1, minute := 0, second := 0 }
  else if m.day < daysInMonth m.year m.month then some ⟨m.year, m.month, m.day + 1, 0, 0, 0⟩
  else if m.month < 12 then some ⟨m.year, m.month + 1, 1, 0, 0, 0⟩
  else if m.year < lastYear then some ⟨m.year + 1, 1, 1, 0, 0, 0⟩
  else none

/-- The digits of a moment: the year, then two digits for each smaller unit. -/
def digits (m : Moment) : Text :=
  Text.ofNat m.year ++ Text.ofNatPadded 2 m.month ++ Text.ofNatPadded 2 m.day ++
    Text.ofNatPadded 2 m.hour ++ Text.ofNatPadded 2 m.minute ++ Text.ofNatPadded 2 m.second

end Moment

end ReadOnlyViews
