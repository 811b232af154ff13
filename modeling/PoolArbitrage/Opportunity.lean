import PoolArbitrage.Cost
import PoolArbitrage.Decimal
import PoolArbitrage.Verdict

/-!
# Opportunities

An opportunity is a route that pays, with the amounts, costs and figures it was judged by. Whoever
executes it finds everything needed here.

**Account.** `Opportunity.describe?` tells hop by hop what is sold and bought. It needs an output
for each hop; an opportunity without them has no account.

**Ranking.** Opportunities are ranked by profit rate, then by profit, both falling, then by route
id, rising. Entries equal in all three keep their order (`rank`).
-/

namespace PoolArbitrage

/-- A route judged, with what it was judged by. Exchanges and prices are set for two hops only:
tokens obtained and paid between the hops per start token. -/
structure Opportunity where
  route : Route := []
  id : UInt64 := 0
  buyExchange : String := ""
  sellExchange : String := ""
  buyPrice : Float := 0
  sellPrice : Float := 0
  amountIn : Amount := 0
  grossOut : Amount := 0
  grossProfit : Amount := 0
  cost : CostBreakdown := {}
  netProfit : Amount := 0
  netBps : Amount := 0
  profitable : Bool := false
  verdict : Verdict := .notProfitable
  outputs : List Amount := []
  confidence : Float := 0

namespace Opportunity

/-- The same route traded with the same amount. -/
def same (a b : Opportunity) : Bool := a.id == b.id && a.amountIn == b.amountIn

def text (o : Opportunity) : String := s!"{o.route.text}: net {o.netProfit} ({o.netBps}bps)"

/-! ## The account -/

/-- The lines of the hops from the `i`-th on, the first of them selling `sent`. -/
def hopLines (i : Nat) (sent : Amount) : Route → List Amount → Option (List String)
  | [], _ => some []
  | _ :: _, [] => none
  | h :: rest, out :: outs => do
    let exchange := if h.exchange.isEmpty then "?" else h.exchange
    let line := s!"  \\_ hop {i}: {sent} {h.sells} -> {out} {h.buys} on {exchange}" ++
      s!" pool {h.address}, fee {h.pool.fee}bps"
    let lines ← hopLines (i + 1) out rest outs
    return line :: lines

/-- The line of the exchanges, for two hops only. -/
def exchangeLine (o : Opportunity) : List String :=
  if o.route.length = 2 then
    let buy := Decimal.general o.buyPrice
    let sell := Decimal.general o.sellPrice
    [s!"  \\_ buy on {o.buyExchange} at {buy}, sell on {o.sellExchange} at {sell}"]
  else []

/-- The account of an opportunity whose id and verdict are shown as given. -/
def describeAs? (o : Opportunity) (id verdict : String) : Option String := do
  let hops ← hopLines 0 o.amountIn o.route o.outputs
  let confidence := Decimal.fixed 3 o.confidence
  let lines := [s!"{o.route.length}-hop opportunity {o.route.symbols} (id {id})"] ++ hops ++
    o.exchangeLine ++
    [s!"  \\_ amount in is       {o.amountIn}",
     s!"  \\_ gross amount out is {o.grossOut}",
     s!"  \\_ costs are          {o.cost.text}",
     s!"  \\_ net profit is      {o.netProfit} ({o.netBps}bps), {verdict}",
     s!"  \\_ confidence is      {confidence}"]
  return String.join (lines.map (· ++ "\n"))

/-- The account of an opportunity. -/
def describe? (o : Opportunity) : Option String := o.describeAs? (toString o.id) o.verdict.name

end Opportunity

/-! ## Ranking -/

/-- What entries are ranked by. -/
structure RankKey where
  bps : Amount
  net : Amount
  id : UInt64
  deriving DecidableEq, Repr, Inhabited

namespace RankKey

/-- The first key may stand before the second. -/
def notAfter (a b : RankKey) : Bool :=
  if a.bps ≠ b.bps then b.bps < a.bps
  else if a.net ≠ b.net then b.net < a.net
  else a.id ≤ b.id

end RankKey

/-- Entries in the order of their keys; equal ones stay in the order they came. -/
def rank {α : Type} (key : α → RankKey) (entries : List α) : List α :=
  entries.mergeSort fun a b => (key a).notAfter (key b)

namespace Opportunity

def rankKey (o : Opportunity) : RankKey := ⟨o.netBps, o.netProfit, o.id⟩

end Opportunity

end PoolArbitrage
