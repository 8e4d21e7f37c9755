/-! Points in civil time, in UTC, and the calendar. -/

namespace IdentityVault

/-- A day of the Gregorian calendar, which is also used before its introduction. -/
structure Date where
  year : Int
  month : Nat
  day : Nat
  deriving DecidableEq, Repr

namespace Date

def leapYear (y : Int) : Bool := y % 4 == 0 && (y % 100 != 0 || y % 400 == 0)

def daysInMonth (y : Int) : Nat → Nat
  | 2 => if leapYear y then 29 else 28
  | 4 | 6 | 9 | 11 => 30
  | _ => 31

def Valid (d : Date) : Prop :=
  -262143 ≤ d.year ∧ d.year ≤ 262142 ∧ 1 ≤ d.month ∧ d.month ≤ 12 ∧ 1 ≤ d.day ∧ d.day ≤ daysInMonth d.year d.month

instance (d : Date) : Decidable d.Valid := inferInstanceAs (Decidable (_ ∧ _))

/-- The number of days from 1 January 1970. Years are counted from March here, so that the leap day comes last. -/
def toDays (d : Date) : Int :=
  let y := if d.month ≤ 2 then d.year - 1 else d.year
  let cycle := y / 400
  let yearOfCycle := y % 400
  let monthFromMarch := ((d.month + 9) % 12 : Nat)
  let dayOfYear : Int := (153 * monthFromMarch + 2) / 5 + d.day - 1
  let dayOfCycle := yearOfCycle * 365 + yearOfCycle / 4 - yearOfCycle / 100 + dayOfYear
  cycle * 146097 + dayOfCycle - 719468

/-- The day `n` days after 1 January 1970. -/
def ofDays (n : Int) : Date :=
  let n := n + 719468
  let cycle := n / 146097
  let dayOfCycle := (n % 146097).toNat
  let yearOfCycle := (dayOfCycle - dayOfCycle / 1460 + dayOfCycle / 36524 - dayOfCycle / 146096) / 365
  let dayOfYear := dayOfCycle - (365 * yearOfCycle + yearOfCycle / 4 - yearOfCycle / 100)
  let monthFromMarch := (5 * dayOfYear + 2) / 153
  let day := dayOfYear - (153 * monthFromMarch + 2) / 5 + 1
  let month := if monthFromMarch < 10 then monthFromMarch + 3 else monthFromMarch - 9
  let year := yearOfCycle + cycle * 400
  ⟨if month ≤ 2 then year + 1 else year, month, day⟩

end Date

/-- A point in time: whole seconds since 1 January 1970 and nanoseconds. A thousand million nanoseconds or more
    stand for the leap second that follows the given one. -/
structure Timestamp where
  seconds : Int
  nanos : Nat
  deriving DecidableEq, Repr

namespace Timestamp

def ofMillis (ms : Int) : Timestamp := ⟨ms / 1000, (ms % 1000).toNat * 1000000⟩

/-- Whole milliseconds since 1 January 1970. -/
def toMillis (t : Timestamp) : Int := t.seconds * 1000 + t.nanos / 1000000

def before (t u : Timestamp) : Bool := t.seconds < u.seconds || (t.seconds == u.seconds && t.nanos < u.nanos)

def addNanos (t : Timestamp) (n : Nat) : Timestamp :=
  ⟨t.seconds + ((t.nanos + n) / 1000000000 : Nat), (t.nanos + n) % 1000000000⟩

end Timestamp
end IdentityVault
