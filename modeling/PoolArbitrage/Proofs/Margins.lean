import Mathlib
import PoolArbitrage.Constraints
import PoolArbitrage.Proofs.Charges

/-!
# Where the reported margin is exact

The safety margin is reported beside the total: the surcharge alone, stopped at the largest amount.
The product of subtotal and margin is cut off at the top of its word first, and only then divided
and stopped. The total does not show the cut. The reported margin does.

A product that fits gives the exact surcharge. One that does not fit stands for a surcharge far
above the largest amount, and what the cut leaves of it may be next to nothing. So the reported
margin is exact just where the product fits or the cut happens to leave enough
(`Cost.saturate_surcharge_eq_iff`).

**Clear of the cut.** A product fits as long as the three fees together stay below `2⁶⁵`, whatever
the margin, and as long as the margin stays within a third of `2⁶⁴` basis points, whatever the fees.
An attempt whose product fits is reported with no less of a margin than any whose fees, amount and
margin are no higher, because what the cut leaves is never more than the exact surcharge.

**Theorem (`Cost.margin_is_exact_where_it_fits`).** All this holds for every configuration, amount
and route. Past the cut it does not (`Cost.margin_falls_past_the_word`).
-/

namespace PoolArbitrage

namespace Cost

variable {s s' m m' : Nat}

/-! ## The surcharge that is left -/

theorem surcharge_of_lt (hfits : s * m < wideWord) : surcharge s m = s * m / whole := by
  rw [surcharge, Nat.mod_eq_of_lt hfits]

/-- What the cut leaves is never more than the exact surcharge. -/
theorem surcharge_le (s m : Nat) : surcharge s m ≤ s * m / whole :=
  Nat.div_le_div_right (Nat.mod_le ..)

/-- A product that does not fit belongs to a surcharge that no amount holds. -/
theorem size_le_of_not_lt (hover : ¬ s * m < wideWord) : UInt64.size ≤ s * m / whole := by
  have hword : UInt64.size * whole ≤ wideWord := by decide
  exact (Nat.le_div_iff_mul_le (by decide)).2 (hword.trans (Nat.not_lt.1 hover))

/-- **The surcharge stopped at the largest amount is exact** just where the product fits or what the
cut leaves is stopped too. -/
theorem saturate_surcharge_eq_iff :
    Amount.saturate (surcharge s m) = Amount.saturate (s * m / whole) ↔
      s * m < wideWord ∨ UInt64.size - 1 ≤ surcharge s m := by
  by_cases hfits : s * m < wideWord
  · simp [surcharge_of_lt hfits, hfits]
  · rw [Amount.saturate_of_size_le (size_le_of_not_lt hfits), ← UInt64.toNat_inj,
      Amount.toNat_saturate, Amount.toNat_max]
    simp [hfits]

/-- Below a product that fits, no subtotal and no margin leaves a higher surcharge. -/
theorem surcharge_le_surcharge (hs : s ≤ s') (hm : m ≤ m') (hfits : s' * m' < wideWord) :
    surcharge s m ≤ surcharge s' m' := by
  rw [surcharge_of_lt hfits]
  exact (surcharge_le s m).trans (Nat.div_le_div_right (Nat.mul_le_mul hs hm))

/-! ## Clear of the cut -/

theorem lt_wideWord_of_subtotal_lt (hs : s < 2 * UInt64.size) (hm : m ≤ UInt64.size / 2) :
    s * m < wideWord := by
  calc s * m ≤ s * (UInt64.size / 2) := Nat.mul_le_mul_left s hm
    _ < 2 * UInt64.size * (UInt64.size / 2) := Nat.mul_lt_mul_of_pos_right hs (by decide)
    _ = wideWord := by decide

theorem lt_wideWord_of_margin_le (hs : s < 3 * UInt64.size) (hm : 3 * m ≤ UInt64.size) :
    s * m < wideWord := by
  have hthree : 3 * (s * m) < 3 * wideWord := by
    calc 3 * (s * m) = s * (3 * m) := Nat.mul_left_comm ..
      _ ≤ s * UInt64.size := Nat.mul_le_mul_left s hm
      _ < 3 * UInt64.size * UInt64.size := Nat.mul_lt_mul_of_pos_right hs (by decide)
      _ = 3 * wideWord := by decide
  exact Nat.lt_of_mul_lt_mul_left hthree

/-! ## The reported margin -/

theorem safetyMargin_breakdown (params : CostParameters) (amount : Amount) (r : Route) :
    (breakdown params amount r).safetyMargin =
      Amount.saturate (surcharge (subtotal params amount r) (marginBps params.safetyMarginPct)) :=
  rfl

/-- The subtotal is the sum of the three fees reported. -/
theorem subtotal_eq (params : CostParameters) (amount : Amount) (r : Route) :
    subtotal params amount r = params.networkFee.toNat + params.priorityFee.toNat +
      (breakdown params amount r).exchangeFees.toNat := by
  rw [subtotal, toNat_exchangeFees_breakdown]

/-- **The reported margin is exact where it fits.** It is what is left of the product of the three
fees and the margin in a word of 128 bits, divided and stopped at the largest amount. That is the
exact surcharge just where the product fits or enough of it is left. The product fits if the fees
stay below `2⁶⁵` or the margin within a third of `2⁶⁴`. And if it fits, no attempt whose fees,
amount and margin are no higher is reported with more. -/
theorem margin_is_exact_where_it_fits (params : CostParameters) (amount : Amount) (r : Route) :
    let costs := breakdown params amount r
    let sum := params.networkFee.toNat + params.priorityFee.toNat + costs.exchangeFees.toNat
    let margin := marginBps params.safetyMarginPct
    costs.safetyMargin.toNat = min (2 ^ 64 - 1) (sum * margin % 2 ^ 128 / whole) ∧
      (costs.safetyMargin.toNat = min (2 ^ 64 - 1) (sum * margin / whole) ↔
        sum * margin < 2 ^ 128 ∨ 2 ^ 64 - 1 ≤ sum * margin % 2 ^ 128 / whole) ∧
      (sum < 2 ^ 65 ∨ 3 * margin ≤ 2 ^ 64 → sum * margin < 2 ^ 128) ∧
      (sum * margin < 2 ^ 128 → ∀ (params' : CostParameters) (amount' : Amount) (r' : Route),
        params'.AtMost params → amount' ≤ amount → r'.Lighter r →
          (breakdown params' amount' r').safetyMargin ≤ costs.safetyMargin) := by
  intro costs sum margin
  have hword : wideWord = 2 ^ 128 := by decide
  have hsum : subtotal params amount r = sum := subtotal_eq params amount r
  have hreported : costs.safetyMargin = Amount.saturate (surcharge sum margin) := by
    rw [← hsum]
    exact safetyMargin_breakdown params amount r
  refine ⟨?_, ?_, ?_, ?_⟩
  · rw [hreported, Amount.toNat_saturate, min_comm, surcharge, hword]
    rfl
  · have hexact : (Amount.saturate (sum * margin / whole)).toNat =
        min (2 ^ 64 - 1) (sum * margin / whole) := by
      rw [Amount.toNat_saturate, min_comm]
      rfl
    rw [hreported, ← hexact, UInt64.toNat_inj, saturate_surcharge_eq_iff, surcharge, hword]
    rfl
  · rw [← hword]
    rintro (hlow | hlow)
    · exact lt_wideWord_of_subtotal_lt hlow (marginBps_le _)
    · exact lt_wideWord_of_margin_le (hsum ▸ subtotal_lt params amount r) hlow
  · intro hfits params' amount' r' hparams hamount hlight
    rw [hreported, safetyMargin_breakdown, ← hsum]
    rw [← hword, ← hsum] at hfits
    exact Amount.saturate_le_saturate
      (surcharge_le_surcharge (hlight.subtotal_le hparams hamount) hparams.marginBps hfits)

/-- The greatest fixed fees at a margin of `9 · 10¹⁸` basis points, and the greatest exchange fee
whose product still fits: the largest amount is reported, and no less than for a smaller amount. -/
theorem margin_up_to_the_word :
    let params : CostParameters := ⟨Amount.max, Amount.max, 9e16⟩
    let r : Route := [⟨"A", "B", ⟨1000000, 1000000, 10000, .constantProduct⟩, "first", "x"⟩]
    (breakdown params 915663732685170488 r).safetyMargin = Amount.max ∧
      (breakdown params 1 r).safetyMargin ≤
        (breakdown params 915663732685170488 r).safetyMargin := by
  intro params r
  obtain ⟨hreported, -, -, hgrows⟩ := margin_is_exact_where_it_fits params 915663732685170488 r
  have hfull : (breakdown params 915663732685170488 r).safetyMargin = Amount.max := by
    rw [← UInt64.toNat_inj, hreported]
    decide +kernel
  exact ⟨hfull, hgrows (by decide +kernel) params 1 r params.atMost_refl (by decide)
    (.of_sublist (.refl r))⟩

/-- **Past the word the reported margin falls.** The same in a configuration that is accepted, with
one unit more of the exchange fee: the product no longer fits, and the margin reported goes from the
largest amount down to what the cut leaves. -/
theorem margin_falls_past_the_word :
    let c : Constraints :=
      { costs := ⟨Amount.max, Amount.max, 9e16⟩, defaultAmount := 915663732685170489 }
    let r : Route := [⟨"A", "B", ⟨1000000, 1000000, 10000, .constantProduct⟩, "first", "x"⟩]
    let costs := breakdown c.costs c.defaultAmount r
    let sum := c.costs.networkFee.toNat + c.costs.priorityFee.toNat + costs.exchangeFees.toNat
    let margin := marginBps c.costs.safetyMarginPct
    c.fault? = none ∧ margin = 9 * 10 ^ 18 ∧ 2 ^ 128 ≤ sum * margin ∧
      costs.safetyMargin = 762539256823178 ∧
      costs.safetyMargin.toNat ≠ min (2 ^ 64 - 1) (sum * margin / whole) ∧
      (breakdown c.costs (c.defaultAmount - 1) r).safetyMargin = Amount.max := by
  intro c r costs sum margin
  exact ⟨by decide +kernel, by decide +kernel, by decide +kernel, by decide +kernel,
    by decide +kernel, by decide +kernel⟩

end Cost

end PoolArbitrage
