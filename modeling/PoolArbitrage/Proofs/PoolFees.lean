import Mathlib
import PoolArbitrage.Proofs.Charges
import PoolArbitrage.Proofs.Decision
import PoolArbitrage.Proofs.Dominance
import PoolArbitrage.Proofs.Failures

/-!
# Higher pool fees never help

The fee of a pool is charged twice on the way to a decision. The curve is walked with what it
leaves, so a higher fee gives no more at the end: a pool dominates itself at a higher fee. And the
cost model takes it from the amount that was sent, where the fees of the hops after it fall in turn:
the route is lighter than itself at higher fees. Neither of the two needs the other.

Whether an evaluation fails is not touched, since no fee is above the whole. One that fails gives
nothing before and after.

**Theorem (`Route.higher_pool_fees_never_help`).** Where some fees of a route are raised, no more
comes out, the total cost is no less, and the decision on both is no better.
-/

namespace PoolArbitrage

/-- **The second hop is the first at a higher fee**, at most the whole. -/
structure Hop.Dearer (h h' : Hop) : Prop where
  same : h' = { h with pool := { h.pool with fee := h'.pool.fee } }
  fee_le : h.pool.fee ≤ h'.pool.fee
  fee_le_whole : h'.pool.fee.toNat ≤ whole

namespace Hop.Dearer

variable {h h' : Hop}

theorem reserveIn_eq (hd : h.Dearer h') : h'.pool.reserveIn = h.pool.reserveIn :=
  congrArg (·.pool.reserveIn) hd.same

theorem reserveOut_eq (hd : h.Dearer h') : h'.pool.reserveOut = h.pool.reserveOut :=
  congrArg (·.pool.reserveOut) hd.same

/-- A fee that is raised brings no fault about. -/
theorem fault?_eq_none_iff (hd : h.Dearer h') :
    h'.pool.fault? = none ↔ h.pool.fault? = none := by
  have hfee : h.pool.fee.toNat ≤ whole := Nat.le_trans hd.fee_le hd.fee_le_whole
  rw [Pool.fault?_eq_none, Pool.fault?_eq_none, hd.reserveIn_eq, hd.reserveOut_eq]
  simp [hfee, hd.fee_le_whole]

theorem dominates (hd : h.Dearer h') (hok : h.pool.fault? = none) :
    h.pool.Dominates h'.pool := by
  obtain ⟨hin, hout, -⟩ := Pool.fault?_eq_none.1 hok
  exact
    { reserveIn_pos := hin
      reserveIn_le := by rw [hd.reserveIn_eq]
      reserveOut_pos := by rwa [hd.reserveOut_eq]
      reserveOut_le := by rw [hd.reserveOut_eq]
      fee_le := hd.fee_le
      fee_le_whole := hd.fee_le_whole }

end Hop.Dearer

/-- **The second route is the first at higher fees**, hop by hop. -/
def Route.Dearer (r r' : Route) : Prop := List.Forall₂ Hop.Dearer r r'

namespace Route

variable {r r' : Route}

namespace Dearer

theorem lighter (hd : r.Dearer r') : r.Lighter r' := .of_forall₂ (hd.imp fun _ _ h => h.fee_le)

theorem forall_fault?_eq_none_iff (hd : r.Dearer r') :
    (∀ h ∈ r', h.pool.fault? = none) ↔ ∀ h ∈ r, h.pool.fault? = none := by
  induction hd with
  | nil => rfl
  | cons hhop _ ih => rw [List.forall_mem_cons, List.forall_mem_cons, hhop.fault?_eq_none_iff, ih]

theorem dominates (hd : r.Dearer r') (hok : ∀ h ∈ r, h.pool.fault? = none) : r.Dominates r' := by
  induction hd with
  | nil => exact .nil
  | cons hhop _ ih =>
    rw [List.forall_mem_cons] at hok
    exact .cons (hhop.dominates hok.1) (ih hok.2)

/-- Raising fees makes no evaluation fail, and none succeed. -/
theorem failed_eq (hd : r.Dearer r') (amount : Amount) :
    (r'.evaluate amount).failed = (r.evaluate amount).failed := by
  have hfaults := not_congr hd.forall_fault?_eq_none_iff
  push Not at hfaults
  rw [Bool.eq_iff_iff, failed_evaluate_iff, failed_evaluate_iff]
  exact hfaults

/-- **At higher fees no more comes out.** -/
theorem finalOut_le (hd : r.Dearer r') (amount : Amount) :
    (r'.evaluate amount).finalOut ≤ (r.evaluate amount).finalOut := by
  by_cases hok : ∀ h ∈ r, h.pool.fault? = none
  · exact (hd.dominates hok).finalOut_le (UInt64.le_refl amount)
  · have hok' : ¬ ∀ h ∈ r', h.pool.fault? = none := mt hd.forall_fault?_eq_none_iff.1 hok
    push Not at hok'
    rw [(breaksOff_evaluate hok' amount).finalOut]
    exact UInt64.zero_le

end Dearer

/-- **Higher pool fees never help.** Where fees of a route are raised, an evaluation goes through
just as before and gives no more, the total cost is no less, and the decision on what came out at
that cost is no better: neither the net profit, nor its basis points, nor the verdict. -/
theorem higher_pool_fees_never_help (hdearer : r.Dearer r') {amount : Amount} (ha : 0 < amount)
    (params : CostParameters) (least : Amount) :
    let out := (r.evaluate amount).finalOut
    let out' := (r'.evaluate amount).finalOut
    let cost := (Cost.breakdown params amount r).total
    let cost' := (Cost.breakdown params amount r').total
    (r'.evaluate amount).failed = (r.evaluate amount).failed ∧ out' ≤ out ∧ cost ≤ cost' ∧
      ∃ v v', assess amount out cost least = .ok v ∧ assess amount out' cost' least = .ok v' ∧
        v'.NoBetter v := by
  intro out out' cost cost'
  have hout : out' ≤ out := hdearer.finalOut_le amount
  have hcost : cost ≤ cost' :=
    hdearer.lighter.total_le params.atMost_refl (UInt64.le_refl amount)
  exact ⟨hdearer.failed_eq amount, hout, hcost, _, _, Assessment.assess_eq_ok ha ..,
    Assessment.assess_eq_ok ha .., Assessment.noBetter_of hout hcost (UInt64.le_refl least)⟩

/-- There and back between pools that are far apart. The fee of the first hop is raised from 30 to
4900 basis points: still more comes out than went in, but the costs eat it. -/
theorem fees_of_there_and_back :
    let route : Bps → Route := fun fee =>
      [⟨"A", "B", ⟨1000000000000, 2000000000000, fee, .constantProduct⟩, "first", "x"⟩,
        ⟨"B", "A", ⟨1000000000000, 1000000000000, 25, .constantProduct⟩, "second", "y"⟩]
    let out := fun fee => ((route fee).evaluate 1000000000).finalOut
    let cost := fun fee => (Cost.breakdown {} 1000000000 (route fee)).total
    Dearer (route 30) (route 4900) ∧ ((route 4900).evaluate 1000000000).failed = false ∧
      1000000000 < out 4900 ∧ out 4900 ≤ out 30 ∧ cost 30 ≤ cost 4900 ∧
      ∃ v v', assess 1000000000 (out 30) (cost 30) 50 = .ok v ∧
        assess 1000000000 (out 4900) (cost 4900) 50 = .ok v' ∧ v'.NoBetter v ∧
        v.verdict = .profitable ∧ v'.verdict = .notProfitable := by
  intro route out cost
  have hdearer : Dearer (route 30) (route 4900) :=
    .cons ⟨rfl, by decide, by decide⟩ (.cons ⟨rfl, by decide, by decide⟩ .nil)
  obtain ⟨hfailed, hout, hcost, v, v', hv, hv', hnone⟩ :=
    higher_pool_fees_never_help hdearer (by decide : (0 : Amount) < 1000000000) {} 50
  refine ⟨hdearer, hfailed.trans (by decide), by decide, hout, hcost, v, v', hv, hv', hnone, ?_⟩
  cases hv
  cases hv'
  decide +kernel

end Route

end PoolArbitrage
