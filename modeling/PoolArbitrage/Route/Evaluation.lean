import PoolArbitrage.Decimal
import PoolArbitrage.Route

/-!
# Evaluating a route

An amount is sent through the hops in order, each hop selling what the one before bought. A hop
whose pool refuses the swap ends the walk: the outputs before it stay, and nothing comes out.

**Stress.** A hop takes a share of its pool's input reserve; the greatest share along the route
is its stress. An empty reserve counts as fully taken. A share is asked for by the position of
the hop, and there is none past the route or past the outputs.

Main results: `Route.outputs_length_le`, there is at most one output per hop, and
`Route.length_outputs_of_ok`, exactly one per hop if no pool refuses.
-/

namespace PoolArbitrage

/-- How reports name the outcome of an evaluation. -/
inductive EvalErrorKind where
  | ok
  | invalidReserves
  | insufficientLiquidity
  deriving DecidableEq, Repr

def EvalErrorKind.all : List EvalErrorKind := [.ok, .invalidReserves, .insufficientLiquidity]

def EvalErrorKind.name : EvalErrorKind → String
  | .ok => "Ok"
  | .invalidReserves => "InvalidReserves"
  | .insufficientLiquidity => "InsufficientLiquidity"

def EvalErrorKind.ofSwap : SwapErrorKind → EvalErrorKind
  | .invalidReserves => .invalidReserves
  | .insufficientLiquidity => .insufficientLiquidity

/-- The hop that refused and why. -/
structure Refusal where
  hop : Nat
  cause : SwapError
  deriving DecidableEq, Repr

/-- The outcome of sending an amount through a route. -/
structure Evaluation where
  amountIn : Amount := 0
  outputs : List Amount := []
  finalOut : Amount := 0
  refusal : Option Refusal := none
  deriving DecidableEq, Repr, Inhabited

namespace Route

/-- The output of each hop up to the first that refuses, and why that one does. -/
def flow (amount : Amount) : Route → List Amount × Option SwapError
  | [] => ([], none)
  | h :: rest =>
    match h.pool.output amount with
    | .error e => ([], some e)
    | .ok out =>
      let (outs, e) := flow out rest
      (out :: outs, e)

/-- Sends an amount through the route. -/
def evaluate (r : Route) (amount : Amount) : Evaluation :=
  match r.flow amount with
  | (outs, none) => { amountIn := amount, outputs := outs, finalOut := outs.getLast?.getD amount }
  | (outs, some e) => { amountIn := amount, outputs := outs, refusal := some ⟨outs.length, e⟩ }

theorem outputs_length_le (r : Route) (amount : Amount) : (r.flow amount).1.length ≤ r.length := by
  induction r generalizing amount with
  | nil => simp [flow]
  | cons h rest ih =>
    unfold flow
    cases h.pool.output amount with
    | error e => simp
    | ok out => simp [ih out]

theorem length_outputs_of_ok {r : Route} {amount : Amount} (h : (r.flow amount).2 = none) :
    (r.flow amount).1.length = r.length := by
  induction r generalizing amount with
  | nil => rfl
  | cons hop rest ih =>
    unfold flow at h ⊢
    cases ho : hop.pool.output amount with
    | error e => simp [ho] at h
    | ok out =>
      simp only [ho] at h
      simp [ih h]

end Route

namespace Evaluation

def failed (e : Evaluation) : Bool := e.refusal.isSome

/-- The position of the hop that refused, zero if none did. -/
def failedHop (e : Evaluation) : Nat := (e.refusal.map (·.hop)).getD 0

def error (e : Evaluation) : EvalErrorKind :=
  (e.refusal.map fun f => .ofSwap f.cause.kind).getD .ok

def errorMessage (e : Evaluation) : String := (e.refusal.map (·.cause.message)).getD ""

/-- The amount sent into hop `i`, if the walk got that far. -/
def amountBefore? (e : Evaluation) : Nat → Option Amount
  | 0 => some e.amountIn
  | i + 1 => e.outputs[i]?

/-- What came out over what went in; zero when nothing did. -/
def yieldRatio (e : Evaluation) : Float :=
  if e.failed || e.amountIn == 0 then 0 else e.finalOut.toFloat / e.amountIn.toFloat

def text (e : Evaluation) : String :=
  if e.failed then
    s!"evaluation failed at hop {e.failedHop}: {e.error.name} ({e.errorMessage})"
  else
    let steps := String.join (e.outputs.map fun a => s!" -> {a}")
    let ratio := Decimal.general e.yieldRatio
    s!"{e.amountIn}{steps} (yield {ratio})"

/-- The share of its pool's input reserve that hop `i` takes. -/
def hopStress? (e : Evaluation) (r : Route) (i : Nat) : Option Float :=
  match r[i]? with
  | none => none
  | some h =>
    if h.pool.reserveIn = 0 then some 1
    else (e.amountBefore? i).map fun a => a.toFloat / h.pool.reserveIn.toFloat

/-- How many hops were walked. -/
def walked (e : Evaluation) (r : Route) : Nat := (e.refusal.map (·.hop)).getD r.length

/-- The greater of two shares; a share that is no number never replaces another. -/
def greater (a b : Float) : Float := if a < b then b else a

/-- The greatest share taken by the hops walked. -/
def stress? (e : Evaluation) (r : Route) : Option Float :=
  ((List.range (e.walked r)).mapM (e.hopStress? r)).map (·.foldl greater 0)

end Evaluation

end PoolArbitrage
