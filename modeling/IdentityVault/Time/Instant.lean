/-! Points on a clock that only moves forward, and waiting on it for no longer than a deadline allows. -/

namespace IdentityVault

/-- A point on the clock, in milliseconds. -/
abbrev Instant := Int

/-- A length of time, in milliseconds. -/
abbrev Duration := Nat

namespace Instant

/-- The last point that the clock can show: its seconds have 64 bits with a sign. -/
def last : Instant := 0x8000000000000000 * 1000 - 1

/-- The point that lies `d` after `t`, if the clock can show it. -/
def after? (t : Instant) (d : Duration) : Option Instant :=
  if t + (d : Int) ≤ last then some (t + (d : Int)) else none

end Instant

/-- How a wait ends. -/
inductive Wait where
  /-- The deadline had passed before the wait began, so there was none. -/
  | late
  /-- The deadline cut the wait off. -/
  | cutOff (finish : Instant)
  /-- The wait was over by its own, at the latest together with the deadline. -/
  | completed (finish : Instant)
  deriving DecidableEq, Repr

namespace Wait

/-- A wait of length `delay` that begins at `now`. A deadline that is not later than `now` has passed. -/
def within (deadline : Option Instant) (now : Instant) (delay : Duration) : Wait :=
  match deadline with
  | none => completed (now + delay)
  | some d => if d ≤ now then late else if now + delay ≤ d then completed (now + delay) else cutOff d

end Wait
end IdentityVault
