/-!
# The deadline of a scan

A deadline is a moment. It is reached once the clock shows that moment or a later one
(`Deadline.reached`); a scan without a deadline reaches none.

**The clock** is read anew for each check, so a deadline may pass between two candidates. What it
shows depends on how long everything takes and not on what a scan computes, so it is given from
outside, reading by reading (`Clock`). Nothing is asked of it; it might even go back.

**Readings** are told apart by what they are for (`Reading`): the statement of the configuration,
the turn of a candidate on one thread, and the task of a candidate.
-/

namespace PoolArbitrage

/-- A moment on the clock, in nanoseconds. -/
abbrev Moment := Int

/-- The moment from which on candidates are abandoned, if there is one. -/
abbrev Deadline := Option Moment

namespace Deadline

/-- The nanoseconds of a millisecond. -/
def millisecond : Int := 1000000

/-- The deadline so many milliseconds from a moment on. -/
def after (now : Moment) (milliseconds : Int) : Deadline := some (now + milliseconds * millisecond)

/-- At this moment the deadline has come. -/
def reached (d : Deadline) (now : Moment) : Bool := d.any (· ≤ now)

/-- The whole milliseconds left at a moment, if there is a deadline; below zero past it. -/
def left? (d : Deadline) (now : Moment) : Option Int :=
  d.map fun moment => (moment - now).tdiv millisecond

end Deadline

/-- What a scan reads the clock for. -/
inductive Reading where
  | configuration
  | turn (i : Nat)
  | task (i : Nat)
  deriving DecidableEq, Repr

/-- What the clock shows at each reading. -/
abbrev Clock := Reading → Moment

end PoolArbitrage
