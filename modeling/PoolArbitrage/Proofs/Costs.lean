import Mathlib
import PoolArbitrage.Cost

/-!
# The total cost in exact integers

The product of subtotal and margin is cut off at the top of a 128-bit word, but the total does not
show it. The margin is at most `2⁶³`, so a product that does not fit comes from a subtotal above
`2⁶⁴`, and then the total is the largest amount, whatever the surcharge
(`Cost.saturate_add_surcharge`). So the total is the exact sum, saturated (`Cost.total_eq`), and no
dearer attempt comes out cheaper (`Cost.total_le_total`).
-/

namespace PoolArbitrage

theorem Amount.saturate_le_saturate {m n : Nat} (h : m ≤ n) : saturate m ≤ saturate n := by
  rw [UInt64.le_iff_toNat_le, toNat_saturate, toNat_saturate]
  exact min_le_min_right _ h

theorem Amount.saturate_of_size_le {n : Nat} (h : UInt64.size ≤ n) : saturate n = max := by
  rw [saturate, ofNat?_eq_none.2 h, Option.getD_none]

namespace Cost

variable {params params' : CostParameters} {amount amount' : Amount} {r r' : Route}

/-- A subtotal with its surcharge, nothing cut off. -/
def charged (subtotal marginBps : Nat) : Nat := subtotal + subtotal * marginBps / whole

theorem charged_le_charged {s s' m m' : Nat} (hs : s ≤ s') (hm : m ≤ m') :
    charged s m ≤ charged s' m' :=
  Nat.add_le_add hs (Nat.div_le_div_right (Nat.mul_le_mul hs hm))

/-- A product that does not fit the wide word comes from a subtotal that does not fit an amount. -/
theorem size_le_of_wideWord_le {s m : Nat} (hm : m ≤ UInt64.size / 2) (h : wideWord ≤ s * m) :
    UInt64.size ≤ s := by
  have hle : UInt64.size * UInt64.size ≤ s * UInt64.size :=
    h.trans (Nat.mul_le_mul_left s (hm.trans (Nat.div_le_self ..)))
  exact Nat.le_of_mul_le_mul_right hle (by decide)

/-- **What is cut off the surcharge does not show in the total.** -/
theorem saturate_add_surcharge {s m : Nat} (hm : m ≤ UInt64.size / 2) :
    Amount.saturate (s + surcharge s m) = Amount.saturate (charged s m) := by
  by_cases hfits : s * m < wideWord
  · rw [surcharge, Nat.mod_eq_of_lt hfits, charged]
  · have hsize : UInt64.size ≤ s := size_le_of_wideWord_le hm (Nat.not_lt.1 hfits)
    rw [charged, Amount.saturate_of_size_le (Nat.le_add_right_of_le hsize),
      Amount.saturate_of_size_le (Nat.le_add_right_of_le hsize)]

/-- **The total is the exact sum of the fees and their surcharge**, saturated. -/
theorem total_eq (params : CostParameters) (amount : Amount) (r : Route) :
    total params amount r =
      Amount.saturate (charged (subtotal params amount r) (marginBps params.safetyMarginPct)) :=
  saturate_add_surcharge (marginBps_le params.safetyMarginPct)

theorem subtotal_le_subtotal (hnetwork : params.networkFee ≤ params'.networkFee)
    (hpriority : params.priorityFee ≤ params'.priorityFee)
    (hexchange : exchangeFees amount r ≤ exchangeFees amount' r') :
    subtotal params amount r ≤ subtotal params' amount' r' :=
  Nat.add_le_add (Nat.add_le_add hnetwork hpriority) hexchange

/-- **The total grows with each fee and with the margin.** -/
theorem total_le_total (hsubtotal : subtotal params amount r ≤ subtotal params' amount' r')
    (hmargin : marginBps params.safetyMarginPct ≤ marginBps params'.safetyMarginPct) :
    total params amount r ≤ total params' amount' r' := by
  rw [total_eq, total_eq]
  exact Amount.saturate_le_saturate (charged_le_charged hsubtotal hmargin)

end Cost

end PoolArbitrage
