import Mathlib
import PoolArbitrage.Proofs.Totals

/-!
# What makes a route cost more

One more hop takes a fee of its own, and the hops after it find less to charge: their fees fall. So
the fees of two routes cannot be compared hop by hop. What the hops leave in play can.

A hop leaves no less of a greater value, because its fee grows no faster than the value it is taken
from (`Cost.feeOn_le_sub_add`), and it leaves no less at a lower rate. Leaving the hop out leaves
everything. So a route that is had from another by leaving out hops and lowering rates
(`Route.Lighter`) leaves no less of any amount, by induction over how it is had
(`Cost.remaining_le_remaining`).

The fees are what is missing at the end. They grow with the amount as well, and both together give
the order of the fees (`Route.Lighter.exchangeFees_le`), of the subtotals and of the totals.

**Theorem (`Cost.costs_grow_with_amount_and_hops`).** A greater amount through a route with more
hops, put in anywhere, costs no less.
-/

namespace PoolArbitrage

/-- **A lighter route** is had from the other by leaving out hops and lowering rates. -/
def Route.Lighter (r r' : Route) : Prop :=
  List.SublistForall₂ (fun h h' => h.pool.fee ≤ h'.pool.fee) r r'

/-- No fixed fee and no margin of the first parameters is above that of the second. -/
structure CostParameters.AtMost (params params' : CostParameters) : Prop where
  networkFee : params.networkFee ≤ params'.networkFee
  priorityFee : params.priorityFee ≤ params'.priorityFee
  marginBps : Cost.marginBps params.safetyMarginPct ≤ Cost.marginBps params'.safetyMarginPct

theorem CostParameters.atMost_refl (params : CostParameters) : params.AtMost params :=
  ⟨UInt64.le_refl _, UInt64.le_refl _, Nat.le_refl _⟩

namespace Cost

variable {params params' : CostParameters} {a b : Amount} {h h' : Hop} {r r' : Route}

/-! ## One hop -/

theorem feeOn_le_feeOn (hle : a ≤ b) (hrate : h.pool.fee ≤ h'.pool.fee) :
    (feeOn h a).toNat ≤ (feeOn h' b).toNat := by
  have hcap : min h.pool.fee.toNat whole ≤ min h'.pool.fee.toNat whole :=
    min_le_min_right whole hrate
  rw [toNat_feeOn, toNat_feeOn]
  exact Nat.div_le_div_right (Nat.mul_le_mul hle hcap)

/-- **A fee grows no faster than the value it is taken from**: what the greater value has more
covers what it is charged more, even at a lower rate. -/
theorem feeOn_le_sub_add (hle : a ≤ b) (hrate : h.pool.fee ≤ h'.pool.fee) :
    (feeOn h b).toNat ≤ b.toNat - a.toNat + (feeOn h' a).toNat := by
  have hcap : min h.pool.fee.toNat whole ≤ min h'.pool.fee.toNat whole :=
    min_le_min_right whole hrate
  have hsplit : b.toNat = b.toNat - a.toNat + a.toNat := (Nat.sub_add_cancel hle).symm
  rw [toNat_feeOn, toNat_feeOn]
  calc b.toNat * min h.pool.fee.toNat whole / whole
      = ((b.toNat - a.toNat) * min h.pool.fee.toNat whole +
          a.toNat * min h.pool.fee.toNat whole) / whole := by rw [← Nat.add_mul, ← hsplit]
    _ ≤ ((b.toNat - a.toNat) * whole + a.toNat * min h'.pool.fee.toNat whole) / whole :=
        Nat.div_le_div_right
          (Nat.add_le_add (Nat.mul_le_mul_left _ (min_le_right ..)) (Nat.mul_le_mul_left _ hcap))
    _ = b.toNat - a.toNat + a.toNat * min h'.pool.fee.toNat whole / whole := by
        rw [Nat.add_comm, Nat.add_mul_div_right _ _ (by decide), Nat.add_comm]

/-- **A hop leaves no less of a greater value**, and no less at a lower rate. -/
theorem left_le_left (hle : a ≤ b) (hrate : h.pool.fee ≤ h'.pool.fee) :
    a - feeOn h' a ≤ b - feeOn h b := by
  have hfee := feeOn_le h b
  have hfee' := feeOn_le h' a
  have hslow := feeOn_le_sub_add hle hrate
  rw [UInt64.le_iff_toNat_le] at hle ⊢
  rw [UInt64.toNat_sub_of_le _ _ hfee, UInt64.toNat_sub_of_le _ _ hfee']
  omega

theorem left_le (h : Hop) (a : Amount) : a - feeOn h a ≤ a :=
  UInt64.sub_le (feeOn_le h a)

/-! ## A route -/

theorem remaining_le (a : Amount) (r : Route) : remaining a r ≤ a :=
  Nat.le.intro ((Nat.add_comm ..).trans (exchangeFees_add_remaining a r))

/-- **A lighter route leaves no less**, and no less of a greater amount. -/
theorem remaining_le_remaining (hlight : r.Lighter r') (hle : a ≤ b) :
    remaining a r' ≤ remaining b r := by
  induction hlight generalizing a b with
  | nil => exact UInt64.le_trans (remaining_le a _) hle
  | cons hrate _ ih => exact ih (left_le_left hle hrate)
  | cons_right _ ih =>
    -- The hop that the lighter route does without takes its fee from the smaller value alone.
    exact ih (UInt64.le_trans (left_le _ a) hle)

/-- The fees grow with the amount, hop by hop. -/
theorem exchangeFees_le_exchangeFees (hle : a ≤ b) (r : Route) :
    exchangeFees a r ≤ exchangeFees b r := by
  induction r generalizing a b with
  | nil => exact Nat.le_refl _
  | cons h rest ih =>
    exact Nat.add_le_add (feeOn_le_feeOn hle (UInt32.le_refl _))
      (ih (left_le_left hle (UInt32.le_refl _)))

end Cost

namespace Route.Lighter

variable {params params' : CostParameters} {a b : Amount} {r r' : Route}

theorem of_sublist (h : r.Sublist r') : r.Lighter r' :=
  List.sublistForall₂_iff.2 ⟨r, List.forall₂_same.2 fun _ _ => UInt32.le_refl _, h⟩

theorem of_forall₂ (h : List.Forall₂ (fun h h' => h.pool.fee ≤ h'.pool.fee) r r') : r.Lighter r' :=
  List.sublistForall₂_iff.2 ⟨r', h, List.Sublist.refl r'⟩

/-- **The fees of a lighter route are no more**, and they grow with the amount. -/
theorem exchangeFees_le (h : r.Lighter r') (hle : a ≤ b) :
    Cost.exchangeFees a r ≤ Cost.exchangeFees b r' := by
  have hleft : Cost.remaining b r' ≤ Cost.remaining b r :=
    Cost.remaining_le_remaining h (UInt64.le_refl b)
  rw [UInt64.le_iff_toNat_le] at hleft
  have hsum := Cost.exchangeFees_add_remaining b r
  have hsum' := Cost.exchangeFees_add_remaining b r'
  calc Cost.exchangeFees a r
      ≤ Cost.exchangeFees b r := Cost.exchangeFees_le_exchangeFees hle r
    _ ≤ Cost.exchangeFees b r' := by omega

theorem subtotal_le (h : r.Lighter r') (hparams : params.AtMost params') (hle : a ≤ b) :
    Cost.subtotal params a r ≤ Cost.subtotal params' b r' :=
  Cost.subtotal_le_subtotal hparams.networkFee hparams.priorityFee (h.exchangeFees_le hle)

/-- **The total of a lighter route is no more.** -/
theorem total_le (h : r.Lighter r') (hparams : params.AtMost params') (hle : a ≤ b) :
    Cost.total params a r ≤ Cost.total params' b r' :=
  Cost.total_le_total (h.subtotal_le hparams hle) hparams.marginBps

end Route.Lighter

namespace Cost

/-- **Costs grow with the amount and with the hops.** The fees and the total of a route are no more
than those of a greater amount through a route that has the same hops and more between them. -/
theorem costs_grow_with_amount_and_hops (params : CostParameters) {a b : Amount} {r r' : Route}
    (hamount : a ≤ b) (hhops : r.Sublist r') :
    (breakdown params a r).exchangeFees ≤ (breakdown params b r').exchangeFees ∧
      (breakdown params a r).total ≤ (breakdown params b r').total := by
  have hlight : r.Lighter r' := .of_sublist hhops
  constructor
  · rw [UInt64.le_iff_toNat_le, toNat_exchangeFees_breakdown, toNat_exchangeFees_breakdown]
    exact hlight.exchangeFees_le hamount
  · rw [total_breakdown, total_breakdown]
    exact hlight.total_le params.atMost_refl hamount

/-- A hop that takes half is put between two that take little, and a little more is sent. The fee of
the last hop falls from 2492 to 1246, and the fees together grow all the same. -/
theorem costs_of_a_detour :
    let hop : Bps → Hop := fun fee => ⟨"A", "A", ⟨1000, 1000, fee, .constantProduct⟩, "x", "x"⟩
    let direct : Route := [hop 30, hop 25]
    let detour : Route := [hop 30, hop 5000, hop 25]
    direct.Sublist detour ∧
      feeOn (hop 25) (remaining 1000000 [hop 30]) = 2492 ∧
      feeOn (hop 25) (remaining 1000100 [hop 30, hop 5000]) = 1246 ∧
      exchangeFees 1000000 direct = 5492 ∧ exchangeFees 1000100 detour = 502796 ∧
      (breakdown {} 1000000 direct).exchangeFees ≤ (breakdown {} 1000100 detour).exchangeFees ∧
      (breakdown {} 1000000 direct).total ≤ (breakdown {} 1000100 detour).total := by
  intro hop direct detour
  have hhops : direct.Sublist detour := by decide
  have hamount : (1000000 : Amount) ≤ 1000100 := by decide
  obtain ⟨hfees, htotal⟩ := costs_grow_with_amount_and_hops {} hamount hhops
  exact ⟨hhops, by decide, by decide, by decide, by decide, hfees, htotal⟩

end Cost

end PoolArbitrage
