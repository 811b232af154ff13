import Mathlib
import PoolArbitrage.Proofs.Quotes

/-!
# Better pools buy no less

One pool dominates another that also trades when it holds no more of what is sold and no less of
what is bought, and charges no more. A greater amount sold into the better pool buys no less: the
amount, both reserves and the fee may differ at once (`Pool.output_le_output`).

The quotient that the curve takes has the reserves and the amount in its numerator and in its
denominator, so it is compared the other way round. The amount needed for a given output has each of
them on one side only, and the better pool needs no more (`Pool.netFor_le_netFor`).

**Theorem (`Route.better_pools_buy_no_less`).** A route that dominates another hop by hop gives no
less at any hop and at the end. The proof is an induction over the hops of both routes: what the
better hop gives is the greater amount for the next one.
-/

namespace PoolArbitrage

namespace Pool

variable {p q : Pool} {a b : Amount} {net net' out : Nat}

/-! ## One swap -/

/-- `p` is as good a pool as `q` to sell into, and both trade. -/
structure Dominates (p q : Pool) : Prop where
  reserveIn_pos : 0 < p.reserveIn.toNat
  reserveIn_le : p.reserveIn.toNat ≤ q.reserveIn.toNat
  reserveOut_pos : 0 < q.reserveOut.toNat
  reserveOut_le : q.reserveOut.toNat ≤ p.reserveOut.toNat
  fee_le : p.fee.toNat ≤ q.fee.toNat
  fee_le_whole : q.fee.toNat ≤ whole

namespace Dominates

theorem fault?_better (h : p.Dominates q) : p.fault? = none :=
  fault?_eq_none.2
    ⟨h.reserveIn_pos, h.reserveOut_pos.trans_le h.reserveOut_le, h.fee_le.trans h.fee_le_whole⟩

theorem fault?_worse (h : p.Dominates q) : q.fault? = none :=
  fault?_eq_none.2 ⟨h.reserveIn_pos.trans_le h.reserveIn_le, h.reserveOut_pos, h.fee_le_whole⟩

end Dominates

/-- A lower fee leaves no less of a greater amount. -/
theorem afterFee_le_afterFee (h : p.Dominates q) {amount amount' : Nat} (hle : amount' ≤ amount) :
    q.afterFee amount' ≤ p.afterFee amount :=
  Nat.div_le_div_right (Nat.mul_le_mul hle (Nat.sub_le_sub_left h.fee_le _))

/-- The better pool needs no more for an output. -/
theorem netFor_le_netFor (h : p.Dominates q) (hout : out < q.reserveOut.toNat) :
    p.netFor out ≤ q.netFor out := by
  have hworse : 0 < q.reserveOut.toNat - out := Nat.sub_pos_of_lt hout
  have hbetter : 0 < p.reserveOut.toNat - out := Nat.sub_pos_of_lt (hout.trans_le h.reserveOut_le)
  rw [netFor, divUp_le_iff hbetter]
  calc p.reserveIn.toNat * out
      ≤ q.reserveIn.toNat * out := Nat.mul_le_mul_right _ h.reserveIn_le
    _ ≤ q.netFor out * (q.reserveOut.toNat - out) := (divUp_le_iff hworse).1 le_rfl
    _ ≤ q.netFor out * (p.reserveOut.toNat - out) :=
        Nat.mul_le_mul_left _ (Nat.sub_le_sub_right h.reserveOut_le _)

theorem curve_le_curve (h : p.Dominates q) (hle : net' ≤ net) : q.curve net' ≤ p.curve net := by
  have hin : 0 < q.reserveIn.toNat := h.reserveIn_pos.trans_le h.reserveIn_le
  have hlt : q.curve net' < q.reserveOut.toNat := curve_lt hin h.reserveOut_pos net'
  have hneeded : q.netFor (q.curve net') ≤ net' := (le_curve_iff hin hlt).1 le_rfl
  rw [le_curve_iff h.reserveIn_pos (hlt.trans_le h.reserveOut_le)]
  exact (netFor_le_netFor h hlt).trans (hneeded.trans hle)

/-- **A greater amount sold into a better pool buys no less.** -/
theorem output_le_output (h : p.Dominates q) (hle : b ≤ a) :
    ∃ more less, p.output a = .ok more ∧ q.output b = .ok less ∧ less ≤ more := by
  obtain ⟨more, hmore, hcurve⟩ := output_eq h.fault?_better a
  obtain ⟨less, hless, hcurve'⟩ := output_eq h.fault?_worse b
  refine ⟨more, less, hmore, hless, UInt64.le_iff_toNat_le.2 ?_⟩
  rw [hcurve, hcurve']
  exact curve_le_curve h (afterFee_le_afterFee h (UInt64.le_iff_toNat_le.1 hle))

end Pool

namespace Route

variable {r r' : Route} {a b : Amount}

/-! ## Along two routes -/

/-- Hop by hop, the pools of the first route are as good as those of the second. -/
def Dominates (r r' : Route) : Prop := List.Forall₂ (fun h h' => h.pool.Dominates h'.pool) r r'

/-- **Both walks go to the end, and the better one gives no less at each hop.** -/
theorem Dominates.flow (hdom : r.Dominates r') (hle : b ≤ a) :
    ∃ outs outs', r.flow a = (outs, none) ∧ r'.flow b = (outs', none) ∧
      List.Forall₂ (· ≥ ·) outs outs' := by
  induction hdom generalizing a b with
  | nil => exact ⟨[], [], rfl, rfl, .nil⟩
  | cons hhop _ ih =>
    obtain ⟨more, less, hmore, hless, hout⟩ := Pool.output_le_output hhop hle
    -- What the hops gave is what the next ones are sent, so the amounts change with the induction.
    obtain ⟨outs, outs', hflow, hflow', houts⟩ := ih hout
    exact ⟨more :: outs, less :: outs', flow_cons_eq_ok.2 ⟨more, outs, hmore, hflow, rfl⟩,
      flow_cons_eq_ok.2 ⟨less, outs', hless, hflow', rfl⟩, .cons hout houts⟩

/-- Of two walks, the one that gave no less at each hop gave no less at the end. -/
theorem lastOut_le_lastOut {outs outs' : List Amount} (houts : List.Forall₂ (· ≥ ·) outs outs')
    (hle : b ≤ a) : outs'.getLast?.getD b ≤ outs.getLast?.getD a := by
  induction houts generalizing a b with
  | nil => exact hle
  | cons hout _ ih =>
    rw [lastOut_cons, lastOut_cons]
    exact ih hout

theorem evaluate_of_flow {outs : List Amount} (h : r.flow a = (outs, none)) :
    r.evaluate a = { amountIn := a, outputs := outs, finalOut := outs.getLast?.getD a } := by
  rw [evaluate, h]

/-- The better walk gives no less at the end. -/
theorem Dominates.finalOut_le (hdom : r.Dominates r') (hle : b ≤ a) :
    (r'.evaluate b).finalOut ≤ (r.evaluate a).finalOut := by
  obtain ⟨outs, outs', hflow, hflow', houts⟩ := hdom.flow hle
  rw [evaluate_of_flow hflow, evaluate_of_flow hflow']
  exact lastOut_le_lastOut houts hle

/-- **Better pools buy no less.** Where a route dominates another hop by hop, a greater amount goes
through it with no less at any hop and at the end. For one swap this says that the output grows with
the amount and with the reserve bought from, and falls with the fee and with the reserve sold
into. -/
theorem better_pools_buy_no_less :
    (∀ r r' : Route, r.Dominates r' → ∀ a b : Amount, b ≤ a →
      (r.evaluate a).failed = false ∧ (r'.evaluate b).failed = false ∧
        List.Forall₂ (· ≥ ·) (r.evaluate a).outputs (r'.evaluate b).outputs ∧
        (r'.evaluate b).finalOut ≤ (r.evaluate a).finalOut) ∧
    ∀ p q : Pool, p.Dominates q → ∀ a b : Amount, b ≤ a →
      ∃ more less, p.output a = .ok more ∧ q.output b = .ok less ∧ less ≤ more := by
  refine ⟨fun r r' hdom a b hle => ?_, fun p q hdom a b hle => Pool.output_le_output hdom hle⟩
  obtain ⟨outs, outs', hflow, hflow', houts⟩ := hdom.flow hle
  rw [evaluate_of_flow hflow, evaluate_of_flow hflow']
  exact ⟨rfl, rfl, houts, lastOut_le_lastOut houts hle⟩

/-- There and back through two pools, and through two that hold less of what is bought, more of what
is sold, and charge more. -/
theorem better_pools_there_and_back :
    let good : Route := [⟨"A", "B", ⟨1000, 2000, 0, .constantProduct⟩, "first", "x"⟩,
      ⟨"B", "A", ⟨2000, 3000, 30, .constantProduct⟩, "second", "y"⟩]
    let poor : Route := [⟨"A", "B", ⟨1001, 1999, 30, .constantProduct⟩, "first", "x"⟩,
      ⟨"B", "A", ⟨2000, 2500, 9000, .constantProduct⟩, "second", "y"⟩]
    good.Dominates poor ∧ (good.evaluate 100).outputs = [181, 247] ∧
      (poor.evaluate 99).outputs = [178, 21] ∧
      (poor.evaluate 99).finalOut ≤ (good.evaluate 100).finalOut := by
  intro good poor
  have hdom : good.Dominates poor :=
    .cons ⟨by decide, by decide, by decide, by decide, by decide, by decide⟩
      (.cons ⟨by decide, by decide, by decide, by decide, by decide, by decide⟩ .nil)
  obtain ⟨-, -, -, hfinal⟩ := better_pools_buy_no_less.1 good poor hdom 100 99 (by decide)
  exact ⟨hdom, by decide, by decide, hfinal⟩

end Route

end PoolArbitrage
