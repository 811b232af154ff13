import PoolArbitrage.Log

/-!
# Where log lines go

A logger holds a threshold and a sink. Lines that pass the threshold are handed to the sink; with
no sink they are printed on the console, behind their level in brackets. A sink that fails is
reported on the console and never disturbs who wrote the line.

**Threshold.** Only ranks that are levels are accepted as a threshold; others leave it as it was.
Lines may carry any rank.
-/

namespace PoolArbitrage

/-- What became of a line handed to a sink: a failure may come without a reason. -/
inductive Delivery where
  | accepted
  | failed (reason : Option String)

/-- A receiver of lines, given their rank and text. -/
abbrev Sink := Nat → String → Delivery

/-- The threshold in force and the receiver of the lines, if one is set. -/
structure Logger where
  limit : Level := .info
  sink : Option Sink := none

/-- What emitting a line did: whether a sink accepted it, and the text printed on the console. -/
structure Emission where
  accepted : Bool := false
  console : String := ""

namespace Logger

/-- Moves the threshold to the level of rank `r`; a rank that is no level changes nothing. -/
def setLimit (l : Logger) (r : Nat) : Logger := { l with limit := (Level.ofRank? r).getD l.limit }

/-- A line of rank `r` would be emitted. -/
def triggers (l : Logger) (r : Nat) : Bool := l.limit.triggers r

/-- Emits a line of rank `r`. -/
def emit (l : Logger) (r : Nat) (text : String) : Emission :=
  if l.triggers r then
    match l.sink with
    | none => { console := s!"[{Level.rankName r}] {text}\n" }
    | some sink =>
      match sink r text with
      | .accepted => { accepted := true }
      | .failed reason =>
        let why := reason.getD "unknown exception"
        { console := s!"[error] log sink failure: {why}\n" }
  else {}

theorem emit_of_not_triggers {l : Logger} {r : Nat} (h : l.triggers r = false) (text : String) :
    l.emit r text = {} := by
  simp [emit, h]

end Logger

end PoolArbitrage
