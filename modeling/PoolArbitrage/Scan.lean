import PoolArbitrage.Scan.Deadline
import PoolArbitrage.Scan.Report
import PoolArbitrage.Snapshot.Cycles

/-!
# Scans

A scan takes candidate routes, built from a snapshot or given by the caller or both, judges each
and reports the ranked opportunities. It keeps nothing. It is a function of its context, of the
mixing that routes are numbered by, and of a schedule: in what order tasks run and what the clock
shows them.

**Candidates.** For each start token with an amount, the cycles of the snapshot in order; then the
routes of the caller; then the limit cuts the list.

**Judging** fills one slot per candidate, by a task that writes this slot only. A task that finds
the deadline reached abandons its candidate. With several threads the tasks run in the order the
schedule gives (`Scan.fillSlots`). One thread runs them in the order of the candidates and checks
the deadline before each of them as well: once it is reached the thread breaks off, and the slots
it has not come to stay abandoned (`Scan.inTurn`).

**Configuration errors** give an empty report with a diagnostic; no scan fails otherwise.

Main results: `Scan.value_candidates`, the candidates whatever is logged.
-/

namespace PoolArbitrage

/-- The inputs of one scan. -/
structure ScanContext where
  snapshot : Option Snapshot := .none
  routes : List Route := []
  constraints : Constraints := {}
  deadline : Deadline := .none

/-- How a scan goes on: the order in which the tasks of so many candidates run, and the clock. -/
structure Schedule where
  order : Nat → List Nat
  clock : Clock

/-- The tasks run in the order of the candidates. -/
def Schedule.inOrder (clock : Clock) : Schedule := { order := List.range, clock }

namespace Scan

/-! ## Candidates -/

/-- The tokens routes may start from: those configured, or all of the snapshot. -/
def startTokens (s : Snapshot) (c : Constraints) : List Token :=
  if c.startTokens.isEmpty then s.tokens else c.startTokens

/-- The candidates that start from a token, and what is to be said about the token. -/
def candidatesFrom (s : Snapshot) (c : Constraints) (t : Token) :
    Logged (List Route × List String) :=
  if !s.hasToken t then do
    Logged.note .debug s!"start token {t} not in the snapshot: no liquidity data"
    return ([], [s!"no liquidity data for start token {t}"])
  else if !c.optimize && c.amountFor t == 0 then do
    Logged.note .trace s!"no trade amount for start token {t}"
    return ([], [])
  else do
    let found ← s.discover t c.minHops.toNat c.maxHops.toNat 0
    return (found.state.toList, [])

/-- The candidates of a snapshot, start token by start token, and the diagnostics. -/
def candidates (s : Snapshot) (c : Constraints) : Logged (List Route × List String) := do
  let found ← Logged.each (candidatesFrom s c) (startTokens s c)
  return (found.flatMap (·.1), found.flatMap (·.2))

theorem value_candidates (s : Snapshot) (c : Constraints) :
    (candidates s c).value.1 =
      (startTokens s c).flatMap fun t => (candidatesFrom s c t).value.1 := by
  simp [candidates, List.flatMap_map]

/-! ## Judging -/

/-- The candidates at the positions of an order, with their positions. -/
def picked (routes : Array Route) (order : List Nat) : List (Nat × Route) :=
  order.filterMap fun i => (routes[i]?).map fun r => (i, r)

/-- A slot for each candidate after the tasks of an order have run, each writing its own slot. -/
def fillSlots (task : Nat → Route → Logged Outcome) (routes : List Route) (order : List Nat) :
    Logged (List Outcome) := do
  let candidates := routes.toArray
  let done ← Logged.each (fun (i, r) => do return (i, ← task i r)) (picked candidates order)
  let slots := Array.replicate candidates.size Outcome.abandoned
  return (done.foldl (fun slots (i, o) => slots.setIfInBounds i o) slots).toList

/-- The candidates one thread turns to, with their positions: those before the first whose turn
comes too late. -/
def turned (tooLate : Nat → Bool) (routes : List Route) : List (Route × Nat) :=
  routes.zipIdx.takeWhile fun (_, i) => !tooLate i

/-- A slot for each candidate after one thread has run the tasks of those it turned to. -/
def inTurn (tooLate : Nat → Bool) (task : Nat → Route → Logged Outcome) (routes : List Route) :
    Logged (List Outcome) := do
  let done ← Logged.each (fun (r, i) => task i r) (turned tooLate routes)
  return done ++ List.replicate (routes.length - done.length) .abandoned

/-- The task of candidate `i`: past the deadline the candidate is abandoned. -/
def task (mix : Mixing) (clock : Clock) (ctx : ScanContext) (i : Nat) (r : Route) :
    Logged Outcome :=
  if ctx.deadline.reached (clock (.task i)) then pure .abandoned
  else Candidate.judge mix ctx.constraints r

/-- So many candidates are judged by several threads. -/
def parallel (c : Constraints) (candidates : Nat) : Bool := 1 < c.threads && 1 < candidates

/-- The outcome of each candidate. -/
def outcomes (mix : Mixing) (schedule : Schedule) (ctx : ScanContext) (routes : List Route) :
    Logged (List Outcome) :=
  let task := task mix schedule.clock ctx
  if parallel ctx.constraints routes.length then
    fillSlots task routes (schedule.order routes.length)
  else inTurn (fun i => ctx.deadline.reached (schedule.clock (.turn i))) task routes

/-! ## Scanning -/

/-- The statements about the configuration a scan starts with. -/
def noteConstraints (clock : Clock) (ctx : ScanContext) : Logged Unit := do
  let c := ctx.constraints
  let margin := Decimal.general c.costs.safetyMarginPct
  let stress := Decimal.general c.maxStress
  Logged.note .debug s!" \\__ min_profit_bps is {c.minProfitBps}"
  Logged.note .debug s!" \\__ max_same_token_repeats is {c.maxTokenRepeats}"
  Logged.note .debug s!" \\__ routes from {c.minHops} to {c.maxHops} hops"
  Logged.note .debug
    s!" \\__ costs: network {c.costs.networkFee}, priority {c.costs.priorityFee}, margin {margin}%"
  Logged.noteIf c.optimize .debug
    s!" \\__ trade amount searched in [{c.searchMin}, {c.searchMax}]"
  Logged.noteIf (0 < c.maxStress) .debug s!" \\__ max_lp_reserves_stress set at {stress}"
  Logged.noteIf (c.matchLimit != 0) .debug s!" \\__ match limit is set at {c.matchLimit}"
  Logged.noteIf (c.limit != 0) .debug s!" \\__ loop limit is set at {c.limit}"
  match ctx.deadline.left? (clock .configuration) with
  | some left => Logged.note .debug s!" \\__ deadline in {left} ms"
  | none => pure ()

/-- All candidates of a scan before the limit, and the diagnostics. -/
def allCandidates (ctx : ScanContext) : Logged (List Route × List String) :=
  match ctx.snapshot with
  | .none => pure (ctx.routes, [])
  | .some s => do
    Logged.noteIf s.pools.isEmpty .info "snapshot carries no pools"
    let (found, missing) ← candidates s ctx.constraints
    let empty := if s.pools.isEmpty then ["no liquidity data in snapshot"] else []
    return (found ++ ctx.routes, empty ++ missing)

/-- The candidates left by the limit. -/
def limited (limit : Nat) (routes : List Route) : List Route :=
  if 0 < limit then routes.take limit else routes

/-- A scan of a sound configuration. -/
def run (mix : Mixing) (schedule : Schedule) (ctx : ScanContext) : Logged Report := do
  let c := ctx.constraints
  Logged.note .info "opportunity scan starting"
  noteConstraints schedule.clock ctx
  let (all, missing) ← allCandidates ctx
  Logged.noteIf (0 < c.limit && c.limit.toNat < all.length) .debug
    s!"loop limit reached: {c.limit} candidates out of {all.length} examined"
  let slots ← outcomes mix schedule ctx (limited c.limit.toNat all)
  let counted := Report.ofOutcomes slots
  Logged.noteIf counted.deadlineHit .warning
    "scan deadline reached, remaining candidates abandoned"
  let late :=
    if counted.deadlineHit then ["deadline reached before all candidates were evaluated"] else []
  Logged.noteIf (0 < c.matchLimit && c.matchLimit.toNat < counted.opportunities.length) .trace
    s!"match limit reached ({c.matchLimit})"
  let report := { counted.ranked c.matchLimit.toNat with diagnostics := missing ++ late }
  Logged.note .info s!"opportunity scan done: {report.summary}"
  return report

/-- A scan that goes on as a schedule says. -/
def withSchedule (mix : Mixing) (schedule : Schedule) (ctx : ScanContext) : Logged Report :=
  match ctx.constraints.fault? with
  | some f => do
    Logged.note .error s!"scan not started, bad configuration: {f.message}"
    return .notStarted s!"configuration error: {f.message}"
  | none =>
    if ctx.snapshot.isNone && ctx.routes.isEmpty then do
      Logged.note .error "scan not started: neither a snapshot nor candidate routes were given"
      return .notStarted "configuration error: no snapshot and no candidate routes"
    else run mix schedule ctx

end Scan

/-- A scan whose tasks run in the order of the candidates. -/
def scan (mix : Mixing) (clock : Clock) (ctx : ScanContext) : Logged Report :=
  Scan.withSchedule mix (.inOrder clock) ctx

end PoolArbitrage
