import PoolArbitrage.Cost
import PoolArbitrage.Decimal
import PoolArbitrage.Route.Guard
import PoolArbitrage.Table

/-!
# The configuration of a scan

A scan is told which routes to look at, what to trade, what it costs and when it pays. Fields
have defaults, and a configuration is checked before it is used: the first fault in the order of
`Constraints.fault?` is reported and the scan does not start.

**Amounts.** A start token trades its own amount if one above zero is set, else the default
amount; zero means that there is none. A scan may search the amount instead, in a given range.
-/

namespace PoolArbitrage

/-- Amounts set for tokens, one each. -/
abbrev TradeAmounts := Table Token Amount

/-- What a scan looks for, trades and pays. -/
structure Constraints where
  minProfitBps : Int64 := 50
  maxTokenRepeats : UInt32 := 1
  minHops : UInt32 := 2
  maxHops : UInt32 := 3
  costs : CostParameters := {}
  defaultAmount : Amount := 0
  amounts : TradeAmounts := []
  startTokens : List Token := []
  maxStress : Float := 0.33
  optimize : Bool := false
  searchMin : Amount := 0
  searchMax : Amount := 0
  matchLimit : UInt32 := 0
  limit : UInt32 := 0
  threads : UInt32 := 1

/-- Why a scan cannot be run with a configuration. -/
inductive ConstraintFault where
  | profitNotSet (bps : Int64)
  | noRepeats
  | hopRange (min max : UInt32)
  | negativeMargin (pct : Float)
  | negativeStress (limit : Float)
  | noThreads
  | searchRange (min max : Amount)
  | noAmount

def ConstraintFault.message : ConstraintFault → String
  | profitNotSet b => s!"min_profit_bps not set ({b})"
  | noRepeats => "max_same_token_repeats must be at least 1"
  | hopRange a b => s!"hop range [{a}, {b}] out of the allowed [{minHops}, {maxHops}]"
  | negativeMargin p =>
    let figure := Decimal.general p
    s!"safety_margin_pct can't be negative ({figure})"
  | negativeStress s =>
    let figure := Decimal.general s
    s!"max_lp_reserves_stress can't be negative ({figure})"
  | noThreads => "threads must be at least 1"
  | searchRange a b => s!"bad trade amount search range [{a}, {b}]"
  | noAmount => "no trade amount configured"

namespace Constraints

/-- The amount traded through routes that start from a token; zero if none is set. -/
def amountFor (c : Constraints) (t : Token) : Amount :=
  match c.amounts.get? t with
  | some a => if 0 < a then a else c.defaultAmount
  | none => c.defaultAmount

/-- The first fault of a configuration. A figure that is no number counts as negative. -/
def fault? (c : Constraints) : Option ConstraintFault :=
  if c.minProfitBps < 0 then some (.profitNotSet c.minProfitBps)
  else if c.maxTokenRepeats < 1 then some .noRepeats
  else if c.minHops.toNat < PoolArbitrage.minHops ∨ PoolArbitrage.maxHops < c.maxHops.toNat ∨
      c.maxHops < c.minHops then
    some (.hopRange c.minHops c.maxHops)
  else if ¬ 0 ≤ c.costs.safetyMarginPct then some (.negativeMargin c.costs.safetyMarginPct)
  else if ¬ 0 ≤ c.maxStress then some (.negativeStress c.maxStress)
  else if c.threads < 1 then some .noThreads
  else if c.optimize then
    if c.searchMin = 0 ∨ c.searchMax < c.searchMin then
      some (.searchRange c.searchMin c.searchMax)
    else none
  else if 0 < c.defaultAmount ∨ c.amounts.any (0 < ·.2) then none
  else some .noAmount

end Constraints

end PoolArbitrage
