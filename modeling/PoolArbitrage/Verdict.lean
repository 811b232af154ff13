import PoolArbitrage.Log
import PoolArbitrage.Amount

/-!
# The decision whether an attempt pays

From the amounts sent and received and the total cost follow the gross and the net profit, both
stopping at zero, and the net profit in basis points of the amount sent, which saturates. An
attempt is profitable when something is gained and the basis points reach the threshold.

A zero amount has no basis points: it is an error, and logged as one.

Main results: `Assessment.of_netProfit`, the net profit in `Nat`.
-/

namespace PoolArbitrage

/-- The outcome of the decision. -/
inductive Verdict where
  | profitable
  | belowThreshold
  | notProfitable
  deriving DecidableEq, Repr, Inhabited

namespace Verdict

def all : List Verdict := [profitable, belowThreshold, notProfitable]

def name : Verdict → String
  | profitable => "profitable"
  | belowThreshold => "below threshold"
  | notProfitable => "not profitable"

end Verdict

/-- The profit of an attempt and the decision on it. -/
structure Assessment where
  grossProfit : Amount := 0
  netProfit : Amount := 0
  netBps : Amount := 0
  verdict : Verdict := .notProfitable
  deriving DecidableEq, Repr, Inhabited

/-- A zero amount was to be assessed. -/
inductive AssessmentError where
  | zeroAmount
  deriving DecidableEq, Repr

def AssessmentError.message : AssessmentError → String
  | zeroAmount => "assess_profitability(): amount_in is 0"

namespace Assessment

def profitable (a : Assessment) : Bool := a.verdict = .profitable

def text (a : Assessment) : String :=
  s!"{a.verdict.name} (gross {a.grossProfit}, net {a.netProfit}, {a.netBps}bps)"

/-- The profit of a non-zero amount, with the decision against a threshold. -/
def of (amountIn grossOut totalCost minBps : Amount) : Assessment :=
  let grossProfit := grossOut.minus amountIn
  let netProfit := grossProfit.minus totalCost
  let netBps := Amount.saturate (netProfit.toNat * whole / amountIn.toNat)
  let verdict :=
    if netProfit = 0 then .notProfitable
    else if minBps ≤ netBps then .profitable
    else .belowThreshold
  { grossProfit, netProfit, netBps, verdict }

theorem of_netProfit (amountIn grossOut totalCost minBps : Amount) :
    (of amountIn grossOut totalCost minBps).netProfit.toNat =
      grossOut.toNat - amountIn.toNat - totalCost.toNat := by
  simp [of, Amount.toNat_minus]

end Assessment

/-- The decision on an attempt. -/
def assess (amountIn grossOut totalCost minBps : Amount) : Except AssessmentError Assessment :=
  if amountIn = 0 then .error .zeroAmount else .ok (.of amountIn grossOut totalCost minBps)

/-- The decision, with a statement if there is none. -/
def assessLogged (amountIn grossOut totalCost minBps : Amount) :
    Logged (Except AssessmentError Assessment) := do
  Logged.noteIf (amountIn = 0) .error "assess_profitability() called with a zero amount_in"
  return assess amountIn grossOut totalCost minBps

end PoolArbitrage
