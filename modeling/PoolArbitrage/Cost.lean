import PoolArbitrage.Decimal
import PoolArbitrage.Log
import PoolArbitrage.Pool.Quote
import PoolArbitrage.Route

/-!
# The cost of an arbitrage attempt

Executing a route costs a network fee, a priority fee, the fees of the pools crossed and a
surcharge over these for safety, all in base units of the traded input.

**Exchange fees** compound: each hop's fee is taken on what the hops before it left in play. They
depend on the fee rates alone.

**Surcharge.** The margin is a percentage turned into basis points to the nearest. The product of
subtotal and margin is a 128-bit word: what does not fit is cut off at the top. The quotient and
the total saturate.

**Curve figures.** Slippage and price impact are estimated along the way while the pools admit
the amount. They inform, and are no part of the total, since the curve already accounts for them.

Main results: `Cost.exchangeFees_add_remaining`, fees and what is left in play make up the amount,
and `Cost.total_breakdown`, the curve figures are no part of the total.
-/

namespace PoolArbitrage

/-- The fixed inputs of the cost model. -/
structure CostParameters where
  networkFee : Amount := 5000
  priorityFee : Amount := 1000000
  safetyMarginPct : Float := 20

/-- What a route costs. -/
structure CostBreakdown where
  networkFee : Amount := 0
  priorityFee : Amount := 0
  exchangeFees : Amount := 0
  slippageCost : Amount := 0
  impactCost : Amount := 0
  safetyMargin : Amount := 0
  total : Amount := 0
  deriving DecidableEq, Repr, Inhabited

def CostBreakdown.text (c : CostBreakdown) : String :=
  s!"network fee {c.networkFee}, priority fee {c.priorityFee}, dex fees {c.exchangeFees}" ++
    s!", safety margin {c.safetyMargin}, total {c.total}" ++
    s!" (slippage ~{c.slippageCost}, price impact ~{c.impactCost})"

namespace Cost

/-! ## Exchange fees -/

/-- The fee of a hop on the amount in play; a rate above the whole takes the whole. -/
def feeOn (h : Hop) (inPlay : Amount) : Amount :=
  UInt64.ofNat (inPlay.toNat * Nat.min h.pool.fee.toNat whole / whole)

/-- What the hops' fees leave in play. -/
def remaining (inPlay : Amount) : Route → Amount
  | [] => inPlay
  | h :: rest => remaining (inPlay - feeOn h inPlay) rest

/-- The fees of all hops. -/
def exchangeFees (inPlay : Amount) : Route → Nat
  | [] => 0
  | h :: rest => (feeOn h inPlay).toNat + exchangeFees (inPlay - feeOn h inPlay) rest

theorem toNat_feeOn (h : Hop) (a : Amount) :
    (feeOn h a).toNat = a.toNat * Nat.min h.pool.fee.toNat whole / whole := by
  have hle : a.toNat * Nat.min h.pool.fee.toNat whole / whole ≤ a.toNat :=
    Nat.div_le_of_le_mul
      (by rw [Nat.mul_comm whole]; exact Nat.mul_le_mul_left _ (Nat.min_le_right ..))
  exact UInt64.toNat_ofNat_of_lt' (Nat.lt_of_le_of_lt hle a.toNat_lt)

theorem feeOn_le (h : Hop) (a : Amount) : (feeOn h a).toNat ≤ a.toNat := by
  rw [toNat_feeOn]
  exact Nat.div_le_of_le_mul
    (by rw [Nat.mul_comm whole]; exact Nat.mul_le_mul_left _ (Nat.min_le_right ..))

/-- **Fees and what is left in play make up the amount.** -/
theorem exchangeFees_add_remaining (a : Amount) (r : Route) :
    exchangeFees a r + (remaining a r).toNat = a.toNat := by
  induction r generalizing a with
  | nil => simp [exchangeFees, remaining]
  | cons h rest ih =>
    have hle := feeOn_le h a
    have := ih (a - feeOn h a)
    rw [UInt64.toNat_sub_of_le _ _ hle] at this
    simp only [exchangeFees, remaining]
    omega

/-! ## Curve figures -/

/-- Estimates gathered along a route, and the hop at which estimating stopped. -/
structure CurveFigures where
  slippage : Float := 0
  impact : Float := 0
  stopped : Option (Nat × SwapError) := none

/-- The figures from hop `i` on, added to those gathered so far: `inPlay` is the value left after
the fees, `amount` what enters the hop in units of its own token. -/
def curveFrom (soFar : CurveFigures) (i : Nat) (inPlay amount : Amount) : Route → CurveFigures
  | [] => soFar
  | h :: rest =>
    match h.pool.slippage amount, h.pool.priceImpact amount, h.pool.output amount with
    | .ok s, .ok p, .ok out =>
      let slippage := soFar.slippage + inPlay.toFloat * s / 100
      let impact := soFar.impact + inPlay.toFloat * p / 100
      curveFrom { slippage, impact } (i + 1) (inPlay - feeOn h inPlay) out rest
    | .error e, _, _ | _, .error e, _ | _, _, .error e => { soFar with stopped := some (i, e) }

/-- The curve figures of a whole route. -/
def curve (amount : Amount) (r : Route) : CurveFigures := curveFrom {} 0 amount amount r

/-! ## The total -/

/-- The number of values of the 128-bit word that holds the product of subtotal and margin. -/
def wideWord : Nat := UInt64.size * UInt64.size

/-- The safety margin in basis points: a percentage that is not positive counts as none, and no
margin passes `2⁶³`. -/
def marginBps (pct : Float) : Nat :=
  let counted := if 0 < pct then pct else 0
  match Figure.ofFloat (counted * 100) with
  | .finite _ num den => Nat.min (divNearest num den) (UInt64.size / 2)
  | .infinite _ | .nan => UInt64.size / 2

theorem marginBps_le (pct : Float) : marginBps pct ≤ UInt64.size / 2 := by
  unfold marginBps
  simp only
  split
  · exact Nat.min_le_right ..
  · exact Nat.le_refl _
  · exact Nat.le_refl _

/-- The surcharge over a subtotal. -/
def surcharge (subtotal marginBps : Nat) : Nat := subtotal * marginBps % wideWord / whole

/-- The three fees of trading `amount` through a route. -/
def subtotal (params : CostParameters) (amount : Amount) (r : Route) : Nat :=
  params.networkFee.toNat + params.priorityFee.toNat + exchangeFees amount r

/-- The surcharge over the three fees. -/
def margin (params : CostParameters) (amount : Amount) (r : Route) : Nat :=
  surcharge (subtotal params amount r) (marginBps params.safetyMarginPct)

/-- The three fees and their surcharge. -/
def total (params : CostParameters) (amount : Amount) (r : Route) : Amount :=
  Amount.saturate (subtotal params amount r + margin params amount r)

/-- What trading `amount` through a route costs, given its curve figures. -/
def breakdownWith (params : CostParameters) (amount : Amount) (r : Route) (figures : CurveFigures) :
    CostBreakdown where
  networkFee := params.networkFee
  priorityFee := params.priorityFee
  exchangeFees := Amount.saturate (exchangeFees amount r)
  slippageCost := figures.slippage.toUInt64
  impactCost := figures.impact.toUInt64
  safetyMargin := Amount.saturate (margin params amount r)
  total := total params amount r

/-- What trading `amount` through a route costs. -/
def breakdown (params : CostParameters) (amount : Amount) (r : Route) : CostBreakdown :=
  breakdownWith params amount r (curve amount r)

/-- **The total does not depend on the curve figures.** -/
theorem total_breakdown (params : CostParameters) (amount : Amount) (r : Route) :
    (breakdown params amount r).total = total params amount r := rfl

/-- The statement where estimating a curve stopped. -/
def noteStop : Option (Nat × SwapError) → Logged Unit
  | none => pure ()
  | some (i, e) =>
    Logged.note .trace s!"cost model: curve estimation stopped at hop {i}: {e.message}"

/-- The breakdown, with a statement where estimating the curve stopped. -/
def breakdownLogged (params : CostParameters) (amount : Amount) (r : Route) :
    Logged CostBreakdown := do
  let figures := curve amount r
  noteStop figures.stopped
  return breakdownWith params amount r figures

theorem value_breakdownLogged (params : CostParameters) (amount : Amount) (r : Route) :
    (breakdownLogged params amount r).value = breakdown params amount r := rfl

end Cost

end PoolArbitrage
