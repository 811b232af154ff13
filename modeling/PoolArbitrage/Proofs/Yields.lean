import Mathlib
import PoolArbitrage.Route.Search

/-!
# Yields as numbers

A search compares yields as they come: a gain or a loss, and how large it is. The net yield of an
amount is one signed number, what comes out less the amount and its total cost. A loss counts up to
the largest amount, and a route that refuses the amount brings just that loss
(`Route.netYield`).

A gain is never zero, so there is one way to write each of these numbers as a yield, and yields
compare as the numbers do (`Route.less_yieldOf_iff`).
-/

namespace PoolArbitrage

/-- A part of an amount is an amount. -/
theorem Amount.toNat_ofNat_sub (out : Amount) (debit : Nat) :
    (UInt64.ofNat (out.toNat - debit)).toNat = out.toNat - debit :=
  UInt64.toNat_ofNat_of_lt' ((Nat.sub_le ..).trans_lt out.toNat_lt)

namespace Yield

variable {y z : Yield}

/-- **Yields compare as their numbers do**, where nothing gained is not called a gain. -/
theorem less_iff (hz : z ≠ .gain 0) : y.less z = true ↔ y.toInt < z.toInt := by
  cases y with
  | gain a =>
    cases z with
    | gain b =>
      simp only [less, toInt, decide_eq_true_eq, UInt64.lt_iff_toNat_lt]
      omega
    | loss b =>
      simp only [less, toInt, Bool.false_eq_true, false_iff, not_lt]
      omega
  | loss a =>
    cases z with
    | gain b =>
      have hpos : 0 < b.toNat := by
        rw [Nat.pos_iff_ne_zero]
        intro hzero
        exact hz (congrArg gain (UInt64.toNat_inj.1 hzero))
      simp only [less, toInt, true_iff]
      omega
    | loss b =>
      simp only [less, toInt, decide_eq_true_eq, UInt64.lt_iff_toNat_lt]
      omega

end Yield

namespace Route

variable {params : CostParameters} {r : Route} {a b : Amount}

/-- **The net yield of an amount**: what comes out, less the amount and its total cost. A loss
counts up to the largest amount, which is also the loss of an amount the route refuses. -/
def netYield (params : CostParameters) (r : Route) (amount : Amount) : ℤ :=
  let e := r.evaluate amount
  if e.failed then -(2 ^ 64 - 1)
  else
    max (-(2 ^ 64 - 1))
      ((e.finalOut.toNat : ℤ) - amount.toNat - (Cost.total params amount r).toNat)

theorem yieldOf_ne_gain_zero : r.yieldOf params a ≠ .gain 0 := by
  simp only [yieldOf]
  split_ifs with hfailed hgain
  · simp
  · intro hzero
    have hnat := congrArg Yield.toInt hzero
    simp only [Yield.toInt, Amount.toNat_ofNat_sub, UInt64.toNat_zero] at hnat
    omega
  · simp

/-- The net yield is the number of the yield. -/
theorem toInt_yieldOf (params : CostParameters) (r : Route) (a : Amount) :
    (r.yieldOf params a).toInt = r.netYield params a := by
  simp only [yieldOf, netYield]
  split_ifs with hfailed hgain
  · rfl
  · rw [Yield.toInt, Amount.toNat_ofNat_sub]
    omega
  · rw [Yield.toInt, Amount.toNat_saturate]
    have hsize : UInt64.size = 2 ^ 64 := rfl
    omega

/-- **A search compares net yields.** -/
theorem less_yieldOf_iff :
    (r.yieldOf params a).less (r.yieldOf params b) = true ↔
      r.netYield params a < r.netYield params b := by
  rw [Yield.less_iff yieldOf_ne_gain_zero, toInt_yieldOf, toInt_yieldOf]

end Route

end PoolArbitrage
