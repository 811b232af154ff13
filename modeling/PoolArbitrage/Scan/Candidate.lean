import PoolArbitrage.Constraints
import PoolArbitrage.Opportunity
import PoolArbitrage.Route.Identity
import PoolArbitrage.Route.Search

/-!
# Judging one candidate

A candidate route passes the guard, gets an amount, is evaluated, checked for stress, costed and
decided on, in this order; the first step that speaks against it ends the judgement
(`Candidate.examine`). Judging reads the configuration and the route and nothing else, so
candidates cannot influence each other. An opportunity is numbered as its route is.

**Confidence** is one for an amount negligible against the pools it crosses and falls to zero as
the stress comes near a reference. Long routes are marked down by a tenth.

**Defects.** A step that would look past the end of a route or decide on a zero amount is a
defect; the candidate then counts as failed and the scan goes on.
-/

namespace PoolArbitrage

/-- What became of a candidate. -/
inductive Outcome where
  | profitable (o : Opportunity)
  | unprofitable
  | rejectedByGuard
  | noAmount
  | failed
  | rejectedByStress
  | abandoned
  deriving Inhabited

/-- A step of the judgement that cannot be taken. -/
inductive Defect where
  | outOfRange
  | assessment (e : AssessmentError)
  deriving DecidableEq, Repr

def Defect.message : Defect → String
  | outOfRange => "index out of range"
  | assessment e => e.message

namespace Evaluation

/-- The lesser of a figure and one; what is no number counts as one. -/
def atMostOne (x : Float) : Float := if x < 1 then x else 1

/-- The greater of a figure and zero; what is no number counts as zero. -/
def atLeastZero (x : Float) : Float := if 0 < x then x else 0

/-- The weight of an evaluated route against a reference stress; a reference that is not positive
counts as one. -/
def confidence? (e : Evaluation) (r : Route) (reference : Float) : Option Float :=
  if e.failed then some 0
  else do
    let worst ← e.stress? r
    let full := if 0 < reference then reference else 1
    let score := 1 - atMostOne (worst / full)
    let marked := if maxHops ≤ r.length then score * 0.9 else score
    return atLeastZero (atMostOne marked)

end Evaluation

namespace Candidate

/-- The exchanges and prices of a two-hop route: none for other lengths. -/
def withPrices (o : Opportunity) (r : Route) (amount : Amount) (e : Evaluation) :
    Option Opportunity :=
  match r with
  | [buy, sell] =>
    match e.outputs with
    | [] => none
    | between :: _ =>
      some { o with
        buyExchange := buy.exchange
        sellExchange := sell.exchange
        buyPrice := between.toFloat / amount.toFloat
        sellPrice := if 0 < e.finalOut then between.toFloat / e.finalOut.toFloat else 0 }
  | _ => some o

/-- The opportunity a judged route is. -/
def opportunity? (mix : Mixing) (c : Constraints) (r : Route) (amount : Amount) (e : Evaluation)
    (cost : CostBreakdown) (a : Assessment) : Option Opportunity := do
  let confidence ← e.confidence? r c.maxStress
  let o : Opportunity :=
    { route := r, id := r.id mix, amountIn := amount, grossOut := e.finalOut,
      grossProfit := a.grossProfit, cost, netProfit := a.netProfit, netBps := a.netBps,
      profitable := a.profitable, verdict := a.verdict, outputs := e.outputs, confidence }
  withPrices o r amount e

/-- The amount to trade: searched, or configured for the start token; zero if there is none. -/
def amount (c : Constraints) (r : Route) (start : Token) : Logged Amount :=
  if c.optimize then
    Search.bestLogged c.costs r c.searchMin c.searchMax Search.defaultLevels
  else pure (c.amountFor start)

/-- The costs and the decision on an evaluated route. -/
def decide (mix : Mixing) (c : Constraints) (r : Route) (start : Token) (amount : Amount)
    (e : Evaluation) : Logged (Except Defect Outcome) := do
  let cost ← Cost.breakdownLogged c.costs amount r
  let decision ← assessLogged amount e.finalOut cost.total c.minProfitBps.toUInt64
  match decision with
  | .error why => return .error (.assessment why)
  | .ok a =>
    if a.profitable then
      match opportunity? mix c r amount e cost a with
      | none => return .error .outOfRange
      | some o =>
        Logged.note .info
          s!"opportunity {r.symbols}: +{o.netProfit} ({o.netBps}bps) on {amount} {start}"
        return .ok (.profitable o)
    else
      Logged.note .trace s!"candidate {r.symbols}: {a.text}"
      return .ok .unprofitable

/-- The stress a route may not exceed is a limit only where it is positive. -/
def overstressed (c : Constraints) (stress : Float) : Bool :=
  0 < c.maxStress && c.maxStress < stress

/-- The statement about a route under too much stress. -/
def stressNote (r : Route) (stress limit : Float) : String :=
  let found := Decimal.general stress
  let allowed := Decimal.general limit
  s!"discarded candidate {r.symbols}: reserves stress {found} exceeds {allowed}"

/-- The evaluation of a route with a non-zero amount, and what follows from it. -/
def trade (mix : Mixing) (c : Constraints) (r : Route) (start : Token) (amount : Amount) :
    Logged (Except Defect Outcome) :=
  let e := r.evaluate amount
  if e.failed then do
    Logged.note .debug
      (s!"candidate {r.symbols} failed evaluation at hop {e.failedHop}: " ++
        s!"{e.error.name} ({e.errorMessage})")
    return .ok .failed
  else
    match e.stress? r with
    | none => pure (.error .outOfRange)
    | some stress =>
      if overstressed c stress then do
        Logged.note .debug (stressNote r stress c.maxStress)
        return .ok .rejectedByStress
      else decide mix c r start amount e

/-- The judgement of a candidate. -/
def examine (mix : Mixing) (c : Constraints) (r : Route) : Logged (Except Defect Outcome) :=
  match r.fault? c.maxTokenRepeats with
  | some f => do
    Logged.note .debug s!"discarded candidate {r.symbols}: {f.kind.name}"
    return .ok .rejectedByGuard
  | none =>
    match r.start? with
    | none => pure (.error .outOfRange)
    | some start => do
      let a ← amount c r start
      if a = 0 then
        Logged.note .debug s!"discarded candidate {r.symbols}: no trade amount for {start}"
        return .ok .noAmount
      else trade mix c r start a

/-- The judgement of a candidate whose defects, if any, are stated and count against it alone. -/
def judge (mix : Mixing) (c : Constraints) (r : Route) : Logged Outcome := do
  let outcome ← examine mix c r
  match outcome with
  | .ok o => return o
  | .error d =>
    Logged.note .error s!"candidate {r.symbols} evaluation error: {d.message}"
    return .failed

end Candidate

end PoolArbitrage
