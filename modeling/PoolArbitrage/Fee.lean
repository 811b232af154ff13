import PoolArbitrage.Amount
import PoolArbitrage.Table

/-!
# Fee rates and who inherits them

A rate may be unset, and a signed number sets it: a negative one takes it back. An unset rate
reads as zero.

**Schedule.** Each exchange may have a rate of its own (`FeeSchedule`). The rate of an exchange
is the one set last. An exchange may be known before its rate is: it is when someone refers to it.

**Inheritance.** A holder without a rate of its own takes its parent's, as it is when asked, not
as it was when the holder came to be (`FeeBook.reading`).

Main results: `FeeSchedule.rate_set_self`, `FeeSchedule.rate_set_of_ne`,
`FeeSchedule.rate_mention` and `Rate.orElse_known`.
-/

namespace PoolArbitrage

/-- A fee rate, possibly unset. -/
abbrev Rate := Option Bps

namespace Rate

/-- The rate a signed number sets. -/
def ofSigned (v : Int32) : Rate := if v < 0 then none else some v.toUInt32

/-- The rate as a number; an unset rate counts as zero. -/
def bps (r : Rate) : Bps := r.getD 0

/-- A rate of one's own, or else the parent's. -/
def orElse (own parent : Rate) : Rate := own <|> parent

theorem orElse_known {own : Rate} (h : own.isSome) (parent : Rate) : own.orElse parent = own := by
  cases own with
  | none => cases h
  | some b => rfl

end Rate

/-- The exchanges known, with their rates. One that was only mentioned has none. -/
structure FeeSchedule where
  rates : Table String Rate := []
  deriving DecidableEq, Repr, Inhabited

namespace FeeSchedule

/-- The rate of an exchange. -/
def rate (s : FeeSchedule) (exchange : String) : Rate := (s.rates.get? exchange).join

/-- Sets the rate of an exchange. -/
def set (s : FeeSchedule) (exchange : String) (r : Rate) : FeeSchedule :=
  { rates := s.rates.insert exchange r }

/-- Makes an exchange known that someone refers to; a new one has no rate yet. -/
def mention (s : FeeSchedule) (exchange : String) : FeeSchedule :=
  if s.rates.contains exchange then s else s.set exchange none

theorem rate_set_self (s : FeeSchedule) (exchange : String) (r : Rate) :
    (s.set exchange r).rate exchange = r := by
  simp [rate, set]

theorem rate_set_of_ne (s : FeeSchedule) {exchange other : String} (h : other ≠ exchange)
    (r : Rate) : (s.set exchange r).rate other = s.rate other := by
  rw [rate, set, Table.get?_insert_of_ne _ h, rate]

/-- **Being mentioned changes no rate.** -/
theorem rate_mention (s : FeeSchedule) (exchange other : String) :
    (s.mention exchange).rate other = s.rate other := by
  unfold mention
  split
  · rfl
  · rename_i hnew
    by_cases h : other = exchange
    · subst h
      have hnone : s.rates.get? other = none := by simpa [Table.contains] using hnew
      rw [rate_set_self, rate, hnone, Option.join_none]
    · exact rate_set_of_ne s h none

end FeeSchedule

/-! ## Holders of rates -/

/-- A fee as a holder shows it: the number, and whether it is known to be one. -/
structure FeeReading where
  bps : Int := 0
  known : Bool := false
  deriving DecidableEq, Repr, Inhabited

def FeeReading.ofRate (r : Rate) : FeeReading := { bps := r.bps.toNat, known := r.isSome }

/-- Someone who has a fee. Parents are named by their number in the book. -/
inductive FeeHolder where
  /-- A rate of its own and nothing to fall back on. -/
  | own (rate : Rate)
  /-- A number that never changes; it is known unless it is zero. -/
  | flat (bps : Int32)
  /-- An exchange of the schedule. -/
  | exchange (name : String)
  /-- A rate of its own, and a parent for when it is unset. -/
  | child (own : Rate) (parent : Option Nat)
  deriving DecidableEq, Repr, Inhabited

namespace FeeHolder

/-- The holder with another rate of its own; a holder without one stays as it is. -/
def setRate (h : FeeHolder) (r : Rate) : FeeHolder :=
  match h with
  | own _ => own r
  | child _ parent => child r parent
  | flat b => flat b
  | exchange n => exchange n

end FeeHolder

/-- Fee holders in the order they came to be, and the schedule they may refer to. -/
structure FeeBook where
  schedule : FeeSchedule := {}
  holders : List FeeHolder := []
  deriving Inhabited

namespace FeeBook

/-- Adds a holder; its number is how many there were. An exchange becomes known to the schedule. -/
def add (b : FeeBook) (h : FeeHolder) : FeeBook :=
  { schedule :=
      match h with
      | .exchange name => b.schedule.mention name
      | _ => b.schedule
    holders := b.holders ++ [h] }

def set (b : FeeBook) (i : Nat) (r : Rate) : FeeBook :=
  { b with holders := b.holders.modify i (·.setRate r) }

/-- What holder `i` shows now. A parent came to be before its child. -/
def reading (b : FeeBook) (i : Nat) : FeeReading :=
  match b.holders[i]? with
  | none => {}
  | some (.own r) => .ofRate r
  | some (.flat v) => { bps := v.toInt, known := v ≠ 0 }
  | some (.exchange name) => .ofRate (b.schedule.rate name)
  | some (.child (some r) _) => .ofRate (some r)
  | some (.child none none) => {}
  | some (.child none (some p)) => if p < i then reading b p else {}

end FeeBook

end PoolArbitrage
