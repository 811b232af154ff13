import PoolArbitrage.Scan.Candidate

/-!
# The report of a scan

A report lists the ranked opportunities and counts what became of every candidate. The counts are
read off the outcomes, one per candidate (`Report.ofOutcomes`). A scan that finds nothing is a
success; a scan that could not start says so and holds nothing else.
-/

namespace PoolArbitrage

namespace Outcome

def opportunity? : Outcome → Option Opportunity
  | profitable o => some o
  | _ => none

def isUnprofitable : Outcome → Bool
  | unprofitable => true
  | _ => false

def isRejectedByGuard : Outcome → Bool
  | rejectedByGuard => true
  | _ => false

def isNoAmount : Outcome → Bool
  | noAmount => true
  | _ => false

def isFailed : Outcome → Bool
  | failed => true
  | _ => false

def isRejectedByStress : Outcome → Bool
  | rejectedByStress => true
  | _ => false

def isAbandoned : Outcome → Bool
  | abandoned => true
  | _ => false

/-- The candidate got as far as being evaluated. -/
def isEvaluated : Outcome → Bool
  | profitable _ | unprofitable | failed | rejectedByStress => true
  | rejectedByGuard | noAmount | abandoned => false

end Outcome

/-- What a scan found and what became of its candidates. -/
structure Report where
  opportunities : List Opportunity := []
  candidates : Nat := 0
  rejectedByGuard : Nat := 0
  noAmount : Nat := 0
  failed : Nat := 0
  rejectedByStress : Nat := 0
  unprofitable : Nat := 0
  evaluated : Nat := 0
  deadlineHit : Bool := false
  configError : Bool := false
  diagnostics : List String := []

namespace Report

/-- The report of a scan that could not start. -/
def notStarted (diagnostic : String) : Report :=
  { configError := true, diagnostics := [diagnostic] }

/-- The counts and the opportunities, as they came, of the outcomes of all candidates. -/
def ofOutcomes (outcomes : List Outcome) : Report :=
  { opportunities := outcomes.filterMap (·.opportunity?)
    candidates := outcomes.length
    rejectedByGuard := outcomes.countP (·.isRejectedByGuard)
    noAmount := outcomes.countP (·.isNoAmount)
    failed := outcomes.countP (·.isFailed)
    rejectedByStress := outcomes.countP (·.isRejectedByStress)
    unprofitable := outcomes.countP (·.isUnprofitable)
    evaluated := outcomes.countP (·.isEvaluated)
    deadlineHit := outcomes.any (·.isAbandoned) }

/-- The report with its opportunities ranked, and cut to the best if a limit is set. -/
def ranked (r : Report) (matchLimit : Nat) : Report :=
  let entries := rank Opportunity.rankKey r.opportunities
  { r with opportunities := if matchLimit = 0 then entries else entries.take matchLimit }

def summary (r : Report) : String :=
  let deadline := if r.deadlineHit then ", deadline hit" else ""
  s!"{r.candidates} candidates, {r.evaluated} evaluated, {r.opportunities.length} opportunities" ++
    s!" (guard {r.rejectedByGuard}, no amount {r.noAmount}, failed {r.failed}" ++
    s!", stress {r.rejectedByStress}, unprofitable {r.unprofitable}){deadline}"

end Report

end PoolArbitrage
