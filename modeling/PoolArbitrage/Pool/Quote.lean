import PoolArbitrage.Pool

/-!
# Quotes of a swap in percent

Two figures tell how a swap fares against the price of the pool at rest. They are doubles and
serve display and risk only: no decision of the curve depends on them.

**Price impact** compares the rate obtained with the rate at rest, fee included.
**Slippage** is the shortfall of the amount bought against the rate at rest, after the fee.

A pool that refuses every swap refuses both quotes, for the same reason.
-/

namespace PoolArbitrage

namespace Pool

/-- Percent by which the rate obtained differs from the rate at rest; zero for a zero amount. -/
def priceImpact (p : Pool) (amountIn : Amount) : Except SwapError Float := do
  let out ← p.output amountIn
  if amountIn = 0 then return 0
  let atRest := p.reserveOut.toFloat / p.reserveIn.toFloat
  let obtained := out.toFloat / amountIn.toFloat
  return (atRest - obtained).abs / atRest * 100

/-- Percent missing against the rate at rest after the fee; never negative. -/
def slippage (p : Pool) (amountIn : Amount) : Except SwapError Float := do
  let out ← p.output amountIn
  if amountIn = 0 then return 0
  let net := amountIn.toFloat * (whole - p.fee.toNat).toUInt64.toFloat / whole.toUInt64.toFloat
  let expected := net * p.reserveOut.toFloat / p.reserveIn.toFloat
  if expected ≤ 0 then return 0
  let missing := (expected - out.toFloat) / expected * 100
  return if 0 < missing then missing else 0

end Pool

end PoolArbitrage
