import Mathlib
import PoolArbitrage.Proofs.Ledger

/-!
# The total cost, exactly

Each hop charges its rate, at most the whole, on what the hops before it left. In exact integers the
value in play goes from `x` to `x - ⌊x · rate / whole⌋` (`Cost.leftBy`), hop after hop, and the fees
are what is missing at the end (`Cost.toNat_exchangeFees_breakdown`). No fee is more than what it is
taken from, so nothing is borrowed on the way.

The total is the sum of the three fees and of their surcharge, stopped at the largest amount. The
product of that sum and the margin need not fit the word it is computed in, and the total is right
all the same (`Cost.total_eq`).

**Theorem (`Cost.total_is_exact`).** Fees and total are these numbers for every route. Of the hops
they depend on the rates alone: not on the reserves, not on the tokens, and not on where the curve
figures stop.
-/

namespace PoolArbitrage

namespace Cost

variable {amount : Amount} {r r' : Route}

/-- The rates that the hops charge, none of them more than the whole. -/
def rates (r : Route) : List Nat := r.map fun h => min h.pool.fee.toNat whole

/-- What a rate leaves of a value, its fee rounded down. -/
def leftBy (value : ℤ) (rate : Nat) : ℤ := value - value * rate / whole

theorem toNat_sub_feeOn (h : Hop) (inPlay : Amount) :
    ((inPlay - feeOn h inPlay).toNat : ℤ) = leftBy inPlay.toNat (min h.pool.fee.toNat whole) := by
  have hfee := feeOn_le h inPlay
  rw [UInt64.toNat_sub_of_le _ _ hfee, Nat.cast_sub hfee, toNat_feeOn, leftBy]
  push_cast
  rfl

/-- **What the hops leave in play is what their rates leave**, one after the other. -/
theorem toNat_remaining (amount : Amount) (r : Route) :
    ((remaining amount r).toNat : ℤ) = (rates r).foldl leftBy amount.toNat := by
  induction r generalizing amount with
  | nil => rfl
  | cons h rest ih =>
    rw [remaining, ih, toNat_sub_feeOn]
    rfl

/-- The fees stay an amount, so they are reported as they are. -/
theorem toNat_exchangeFees_breakdown (params : CostParameters) (amount : Amount) (r : Route) :
    (breakdown params amount r).exchangeFees.toNat = exchangeFees amount r := by
  have hlt : exchangeFees amount r < UInt64.size :=
    (exchangeFees_le amount r).trans_lt amount.toNat_lt
  rw [breakdown, breakdownWith, Amount.toNat_saturate, min_eq_left (Nat.le_sub_one_of_lt hlt)]

theorem exchangeFees_eq_sub_left (amount : Amount) (r : Route) :
    (exchangeFees amount r : ℤ) = amount.toNat - (rates r).foldl leftBy amount.toNat := by
  rw [← toNat_remaining, ← exchangeFees_add_remaining amount r]
  push_cast
  ring

/-- Hops that charge alike cost alike. -/
theorem exchangeFees_congr (h : rates r' = rates r) :
    exchangeFees amount r' = exchangeFees amount r := by
  -- The fees are told by the rates alone, so equal rates leave no room for a difference.
  have hsame := exchangeFees_eq_sub_left amount r'
  rw [h, ← exchangeFees_eq_sub_left] at hsame
  exact Int.ofNat_inj.1 hsame

/-- **The total is exact.** The fees are what the rates of the hops take away, one after the other,
and the total is the three fees with their surcharge, in exact integers and stopped at the largest
amount. No fee is more than what it is taken from, the words compute the same, and nothing else
about the hops has any part in the fees or in the total. -/
theorem total_is_exact (params : CostParameters) (amount : Amount) (r : Route) :
    let costs := breakdown params amount r
    let left := (rates r).foldl leftBy amount.toNat
    let sum := params.networkFee.toNat + params.priorityFee.toNat + costs.exchangeFees.toNat
    let margin := marginBps params.safetyMarginPct
    (∀ h inPlay, feeOn h inPlay ≤ inPlay) ∧
      (costs.exchangeFees.toNat : ℤ) = amount.toNat - left ∧ costs.exchangeFees ≤ amount ∧
      margin ≤ 2 ^ 63 ∧ costs.total.toNat = min (2 ^ 64 - 1) (sum + sum * margin / whole) ∧
      costs = breakdownInWords params amount r ∧
      (∀ r', rates r' = rates r →
        (breakdown params amount r').exchangeFees = costs.exchangeFees ∧
          (breakdown params amount r').total = costs.total) ∧
      ∀ figures, (breakdownWith params amount r figures).exchangeFees = costs.exchangeFees ∧
        (breakdownWith params amount r figures).total = costs.total := by
  intro costs left sum margin
  have hfees : costs.exchangeFees.toNat = exchangeFees amount r :=
    toNat_exchangeFees_breakdown params amount r
  refine ⟨feeOn_le, ?_, ?_, marginBps_le _, ?_, breakdown_eq_breakdownInWords params amount r, ?_,
    fun figures => ⟨rfl, rfl⟩⟩
  · rw [hfees]
    exact exchangeFees_eq_sub_left amount r
  · rw [UInt64.le_iff_toNat_le, hfees]
    exact exchangeFees_le amount r
  · have hsum : sum = subtotal params amount r := by simp only [sum, hfees, subtotal]
    rw [total_breakdown, total_eq, Amount.toNat_saturate, charged, ← hsum, min_comm]
    rfl
  · intro r' hrates
    have hsame : exchangeFees amount r' = exchangeFees amount r := exchangeFees_congr hrates
    constructor
    · simp only [costs, breakdown, breakdownWith, hsame]
    · rw [total_breakdown, total_breakdown, total_eq, total_eq, subtotal, subtotal, hsame]

/-- The greatest fees at the greatest margin: subtotal times margin does not fit the wide word, and
the total is the largest amount all the same. A route of other tokens and reserves that charges the
whole too costs as much. -/
theorem total_of_full_words :
    let params : CostParameters := ⟨Amount.max, Amount.max, 1e18⟩
    let emptied : Route := [⟨"A", "B", ⟨0, 0, 20000, .constantProduct⟩, "first", "x"⟩]
    let traded : Route := [⟨"C", "D", ⟨1000, 2000, 10000, .constantProduct⟩, "second", "y"⟩]
    wideWord ≤ subtotal params Amount.max emptied * marginBps params.safetyMarginPct ∧
      rates traded = rates emptied ∧
      (breakdown params Amount.max emptied).total = Amount.max ∧
      (breakdown params Amount.max traded).total = Amount.max := by
  intro params emptied traded
  obtain ⟨-, -, -, -, htotal, -, hsame, -⟩ := total_is_exact params Amount.max emptied
  have hrates : rates traded = rates emptied := by decide
  have hfull : (breakdown params Amount.max emptied).total = Amount.max := by
    rw [← UInt64.toNat_inj, htotal]
    exact min_eq_left (by decide +kernel)
  exact ⟨by decide +kernel, hrates, hfull, (hsame traded hrates).2.trans hfull⟩

end Cost

end PoolArbitrage
