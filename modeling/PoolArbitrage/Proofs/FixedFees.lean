import Mathlib
import PoolArbitrage.Proofs.Candidates
import PoolArbitrage.Proofs.Comparison
import PoolArbitrage.Proofs.Costs

/-!
# Higher fees create no opportunity

The network and the priority fee enter the total cost, and the total cost enters the decision. The
amount is set, so the guard, the evaluation and the stress are the same whatever the fees, and a
candidate that pays at the higher fees pays at the lower ones, with no less of a profit
(`Candidate.CostsMore.dearer_judge`).

Between the outcomes at the lower and at the higher fees stands a relation entry by entry
(`Outcome.Dearer`). It survives counting and ranking, but not the order: profits shrink by what the
route costs more, and the ranks may change.

**Theorem (`Scan.higher_fees_create_no_opportunity`).** What is reported at the higher fees is
reported at the lower ones too, each entry with an entry of its own.
-/

namespace PoolArbitrage

/-- The configuration with other fees per attempt. -/
def Constraints.withFees (c : Constraints) (network priority : Amount) : Constraints :=
  { c with costs := { c.costs with networkFee := network, priorityFee := priority } }

/-- The context with other fees per attempt. -/
def ScanContext.withFees (ctx : ScanContext) (network priority : Amount) : ScanContext :=
  { ctx with constraints := ctx.constraints.withFees network priority }

/-! ## The same at higher fees -/

/-- **The second opportunity is the first at a higher cost**: the cost and the profits left by it
apart, all is the same. -/
structure Opportunity.Dearer (cheap dear : Opportunity) : Prop where
  same : dear =
    { cheap with cost := dear.cost, netProfit := dear.netProfit, netBps := dear.netBps }
  cost : cheap.cost.total ≤ dear.cost.total
  netProfit : dear.netProfit ≤ cheap.netProfit
  netBps : dear.netBps ≤ cheap.netBps

/-- **The second outcome is the first at a higher cost**: an opportunity stays one or is lost, and
all else stays. -/
inductive Outcome.Dearer : Outcome → Outcome → Prop
  | same {outcome : Outcome} : outcome.opportunity? = none → Dearer outcome outcome
  | lost {cheap : Opportunity} : Dearer (.profitable cheap) .unprofitable
  | kept {cheap dear : Opportunity} : cheap.Dearer dear →
      Dearer (.profitable cheap) (.profitable dear)

/-- **The second report is the first at a higher cost**: each of its opportunities is one of the
first at a higher cost, no two of them the same one, and what is lost is unprofitable. -/
structure Report.Dearer (cheap dear : Report) : Prop where
  opportunities : ∃ kept, kept.Subperm cheap.opportunities ∧
    List.Forall₂ Opportunity.Dearer kept dear.opportunities
  candidates : dear.candidates = cheap.candidates
  evaluated : dear.evaluated = cheap.evaluated
  rejectedByGuard : dear.rejectedByGuard = cheap.rejectedByGuard
  noAmount : dear.noAmount = cheap.noAmount
  failed : dear.failed = cheap.failed
  rejectedByStress : dear.rejectedByStress = cheap.rejectedByStress
  unprofitable : dear.opportunities.length + dear.unprofitable =
    cheap.opportunities.length + cheap.unprofitable
  deadlineHit : dear.deadlineHit = cheap.deadlineHit
  configError : dear.configError = cheap.configError
  diagnostics : dear.diagnostics = cheap.diagnostics

namespace Outcome

variable {cheap dear : List Outcome}

/-- What is read of an outcome other than whether it pays is the same. -/
theorem Dearer.test_eq {outcome outcome' : Outcome} (h : outcome.Dearer outcome')
    {test : Outcome → Bool} (htest : ∀ o, test (.profitable o) = test .unprofitable) :
    test outcome' = test outcome := by
  cases h with
  | same _ => rfl
  | lost => exact (htest _).symm
  | kept _ => rw [htest, htest]

/-- Of the opportunities found some are left, each at a higher cost. -/
theorem exists_kept (h : List.Forall₂ Dearer cheap dear) :
    ∃ kept, kept.Sublist (cheap.filterMap (·.opportunity?)) ∧
      List.Forall₂ Opportunity.Dearer kept (dear.filterMap (·.opportunity?)) := by
  induction h with
  | nil => exact ⟨[], List.Sublist.refl _, .nil⟩
  | cons hab _ ih =>
    obtain ⟨kept, hsub, hkept⟩ := ih
    cases hab with
    | same hnone =>
      rw [List.filterMap_cons_none hnone, List.filterMap_cons_none hnone]
      exact ⟨kept, hsub, hkept⟩
    | lost => exact ⟨kept, hsub.cons _, hkept⟩
    | kept hdearer => exact ⟨_ :: kept, hsub.cons_cons _, .cons hdearer hkept⟩

/-- What is read of outcomes other than whether they pay comes to the same count. -/
theorem countP_eq_of_dearer (h : List.Forall₂ Dearer cheap dear) {test : Outcome → Bool}
    (htest : ∀ o, test (.profitable o) = test .unprofitable) :
    dear.countP test = cheap.countP test := by
  induction h with
  | nil => rfl
  | cons hab _ ih => rw [List.countP_cons, List.countP_cons, ih, hab.test_eq htest]

theorem any_isAbandoned_of_dearer (h : List.Forall₂ Dearer cheap dear) :
    dear.any (·.isAbandoned) = cheap.any (·.isAbandoned) := by
  rw [Bool.eq_iff_iff, ← countP_isAbandoned_pos, ← countP_isAbandoned_pos,
    countP_eq_of_dearer h fun _ => rfl]

/-- An opportunity that is lost is counted as unprofitable. -/
theorem length_add_countP_of_dearer (h : List.Forall₂ Dearer cheap dear) :
    (dear.filterMap (·.opportunity?)).length + dear.countP (·.isUnprofitable) =
      (cheap.filterMap (·.opportunity?)).length + cheap.countP (·.isUnprofitable) := by
  have hevaluated : dear.countP (·.isEvaluated) = cheap.countP (·.isEvaluated) :=
    countP_eq_of_dearer h fun _ => rfl
  have hfailed : dear.countP (·.isFailed) = cheap.countP (·.isFailed) :=
    countP_eq_of_dearer h fun _ => rfl
  have hstress : dear.countP (·.isRejectedByStress) = cheap.countP (·.isRejectedByStress) :=
    countP_eq_of_dearer h fun _ => rfl
  rw [countP_isEvaluated, countP_isEvaluated] at hevaluated
  omega

end Outcome

/-- **Outcomes at a higher cost come to a report at a higher cost**, if nothing is cut off. -/
theorem Report.dearer_ofOutcomes {cheap dear : List Outcome}
    (h : List.Forall₂ Outcome.Dearer cheap dear) (diagnostics : List String) :
    Report.Dearer { (ofOutcomes cheap).ranked 0 with diagnostics }
      { (ofOutcomes dear).ranked 0 with diagnostics } where
  opportunities := by
    obtain ⟨found, hsub, hfound⟩ := Outcome.exists_kept h
    -- The entries left are put in the order that the dearer ones are ranked in.
    obtain ⟨kept, hkept, hperm⟩ := List.perm_comp_forall₂
      (perm_rank Opportunity.rankKey (dear.filterMap (·.opportunity?))) hfound.flip
    refine ⟨kept, ?_, hkept.flip⟩
    exact hperm.subperm.trans (hsub.subperm.trans (perm_rank ..).symm.subperm)
  candidates := h.length_eq.symm
  evaluated := Outcome.countP_eq_of_dearer h fun _ => rfl
  rejectedByGuard := Outcome.countP_eq_of_dearer h fun _ => rfl
  noAmount := Outcome.countP_eq_of_dearer h fun _ => rfl
  failed := Outcome.countP_eq_of_dearer h fun _ => rfl
  rejectedByStress := Outcome.countP_eq_of_dearer h fun _ => rfl
  unprofitable := by
    simp only [ranked, if_true, length_rank]
    exact Outcome.length_add_countP_of_dearer h
  deadlineHit := Outcome.any_isAbandoned_of_dearer h
  configError := rfl
  diagnostics := rfl

theorem Report.dearer_notStarted (diagnostic : String) :
    (notStarted diagnostic).Dearer (notStarted diagnostic) where
  opportunities := ⟨[], List.Subperm.refl _, .nil⟩
  candidates := rfl
  evaluated := rfl
  rejectedByGuard := rfl
  noAmount := rfl
  failed := rfl
  rejectedByStress := rfl
  unprofitable := rfl
  deadlineHit := rfl
  configError := rfl
  diagnostics := rfl

/-! ## One candidate -/

namespace Candidate

variable {mix : Mixing} {c c' : Constraints} {r : Route} {cheap dear : Opportunity}

/-- The cost and the profits left by it are shown as they are given. -/
theorem withPrices_with {o : Opportunity} {amount : Amount} {e : Evaluation} (cost : CostBreakdown)
    (netProfit netBps : Amount) :
    withPrices { o with cost, netProfit, netBps } r amount e =
      (withPrices o r amount e).map fun o => { o with cost, netProfit, netBps } := by
  unfold withPrices
  split
  · split <;> rfl
  · rfl

/-- **The configurations treat a route alike at a cost that is higher under the second.** -/
structure CostsMore (c c' : Constraints) (r : Route) : Prop extends Alike c c' r where
  total : (tradeCost c r).total ≤ (tradeCost c' r).total
  threshold : c.minProfitBps = c'.minProfitBps

namespace CostsMore

theorem assessment_eq (h : CostsMore c c' r) :
    assessment c' r = .of (tradedAmount c r) (evaluation c r).finalOut (tradeCost c' r).total
      c.minProfitBps.toUInt64 := by
  rw [assessment, ← h.amount, ← h.evaluation, ← h.threshold]

theorem netProfit_le (h : CostsMore c c' r) :
    (assessment c' r).netProfit ≤ (assessment c r).netProfit := by
  rw [h.assessment_eq]
  exact Assessment.netProfit_of_le_netProfit_of (UInt64.le_refl _) h.total

theorem netBps_le (h : CostsMore c c' r) : (assessment c' r).netBps ≤ (assessment c r).netBps := by
  have hnet := h.netProfit_le
  rw [h.assessment_eq] at hnet ⊢
  exact Assessment.netBps_of_le_netBps_of hnet

/-- What pays at the higher cost pays at the lower one. -/
theorem profitable (h : CostsMore c c' r) (hpays' : (assessment c' r).profitable = true) :
    (assessment c r).profitable = true := by
  rw [h.assessment_eq] at hpays'
  exact Assessment.profitable_of_le (UInt64.le_refl _) h.total hpays'

theorem grossProfit_eq (h : CostsMore c c' r) :
    (assessment c' r).grossProfit = (assessment c r).grossProfit := by
  rw [h.assessment_eq, assessment, Assessment.grossProfit_of, Assessment.grossProfit_of]

theorem verdict_eq (h : CostsMore c c' r) (hpays' : (assessment c' r).profitable = true) :
    (assessment c' r).verdict = (assessment c r).verdict :=
  (of_decide_eq_true hpays').trans (of_decide_eq_true (h.profitable hpays')).symm

/-- What is found at the higher cost is what is found at the lower one, but for the cost and what it
leaves. -/
theorem found?_eq (h : CostsMore c c' r) (hpays' : (assessment c' r).profitable = true) :
    found? mix c' r = (found? mix c r).map fun o =>
      { o with
        cost := tradeCost c' r
        netProfit := (assessment c' r).netProfit
        netBps := (assessment c' r).netBps } := by
  unfold found? opportunity?
  rw [← h.amount, ← h.evaluation, ← h.stress]
  cases (evaluation c r).confidence? r c.maxStress with
  | none => rfl
  | some confidence =>
    simp only [Option.bind_eq_bind, Option.bind_some]
    rw [← withPrices_with, h.grossProfit_eq, h.verdict_eq hpays', hpays', h.profitable hpays']

theorem dearer_of_found? (h : CostsMore c c' r) (hpays' : (assessment c' r).profitable = true)
    (hcheap : found? mix c r = some cheap) (hdear : found? mix c' r = some dear) :
    cheap.Dearer dear := by
  rw [h.found?_eq hpays', hcheap, Option.map_some, Option.some_inj] at hdear
  obtain ⟨_, _, _, _, _, hfields⟩ := found?_eq_some hcheap
  subst hdear hfields
  exact ⟨rfl, h.total, h.netProfit_le, h.netBps_le⟩

/-- **A higher cost makes the outcome of a candidate dearer**, and does nothing else to it. -/
theorem dearer_judge (h : CostsMore c c' r) (mix : Mixing) :
    (judge mix c r).value.Dearer (judge mix c' r).value := by
  rcases h.value_judge_eq mix with ⟨hbear, hbear'⟩ | ⟨hsame, hnone⟩
  · rw [value_judge_of_bearable hbear, value_judge_of_bearable hbear']
    by_cases hpays' : (assessment c' r).profitable = true
    · obtain ⟨cheap, hcheap, hdecided⟩ := decided_of_profitable hbear (h.profitable hpays')
      obtain ⟨dear, hdear, hdecided'⟩ := decided_of_profitable hbear' hpays'
      rw [hdecided, hdecided']
      exact .kept (h.dearer_of_found? hpays' hcheap hdear)
    · rw [decided_of_not_profitable (Bool.eq_false_iff.2 hpays')]
      by_cases hpays : (assessment c r).profitable = true
      · obtain ⟨cheap, -, hdecided⟩ := decided_of_profitable hbear hpays
        rw [hdecided]
        exact .lost
      · rw [decided_of_not_profitable (Bool.eq_false_iff.2 hpays)]
        exact .same rfl
  · rw [← hsame]
    exact .same hnone

end CostsMore

/-- A set amount costs more at higher fees. -/
theorem costsMore_withFees {network network' priority priority' : Amount}
    (hfixed : c.optimize = false) (hnetwork : network ≤ network')
    (hpriority : priority ≤ priority') :
    CostsMore (c.withFees network priority) (c.withFees network' priority') r := by
  have hset : ∀ network priority, tradedAmount (c.withFees network priority) r =
      (r.start?.map c.amountFor).getD 0 := by
    intro network priority
    rw [tradedAmount, show (c.withFees network priority).optimize = false from hfixed]
    rfl
  refine ⟨⟨rfl, (hset ..).trans (hset ..).symm, rfl⟩, ?_, rfl⟩
  rw [tradeCost, tradeCost, hset, hset]
  exact Cost.total_le_total (Cost.subtotal_le_subtotal hnetwork hpriority le_rfl) le_rfl

end Candidate

namespace Scan

variable {mix : Mixing} {schedule schedule' : Schedule} {ctx : ScanContext} {past : Bool}
variable {network network' priority priority' : Amount}

/-- The candidates do not depend on the fees. -/
theorem sameCandidates_withFees (ctx : ScanContext) (network network' priority priority' : Amount) :
    SameCandidates (ctx.withFees network priority) (ctx.withFees network' priority') where
  fault := rfl
  snapshot := rfl
  routes := rfl
  candidates := fun _ => rfl
  limit := rfl
  deadline := rfl

/-- **Higher fees create no opportunity.** With set amounts and nothing cut off, each opportunity
reported at the higher fees is reported at the lower ones, with the same amounts and no less of a
profit. The candidates get equally far, and those that no longer pay are unprofitable. -/
theorem higher_fees_create_no_opportunity (mix : Mixing) (ctx : ScanContext)
    (h : schedule.Complete) (h' : schedule'.Complete) (hd : schedule.Finds ctx.deadline past)
    (hd' : schedule'.Finds ctx.deadline past) (hfixed : ctx.constraints.optimize = false)
    (hmatch : ctx.constraints.matchLimit = 0) (hnetwork : network ≤ network')
    (hpriority : priority ≤ priority') :
    (withSchedule mix schedule (ctx.withFees network priority)).value.Dearer
      (withSchedule mix schedule' (ctx.withFees network' priority')).value := by
  have hsame := sameCandidates_withFees ctx network network' priority priority'
  by_cases hstarts : Starts (ctx.withFees network priority)
  · have hresults : List.Forall₂ Outcome.Dearer
        (results mix schedule (ctx.withFees network priority))
        (results mix schedule' (ctx.withFees network' priority')) :=
      hsame.forall₂_results h h' hd hd' (.same rfl) fun r =>
        (Candidate.costsMore_withFees hfixed hnetwork hpriority).dearer_judge mix
    have hlate : late (results mix schedule' (ctx.withFees network' priority')) =
        late (results mix schedule (ctx.withFees network priority)) := by
      rw [late, late, Outcome.any_isAbandoned_of_dearer hresults]
    rw [value_withSchedule_uncut mix schedule hstarts hmatch,
      value_withSchedule_uncut mix schedule' (hsame.starts hstarts) hmatch, hlate,
      ← hsame.allCandidates]
    exact Report.dearer_ofOutcomes hresults _
  · obtain ⟨diagnostic, hcheap, hdear⟩ := hsame.refused mix schedule schedule' hstarts
    rw [hcheap, hdear]
    exact Report.dearer_notStarted diagnostic

/-- Between either side of the gap there is enough to pay high fees with the larger amount alone: of
two opportunities one is left, and the other is unprofitable. -/
theorem fees_of_five_billion :
    let cheap := (withSchedule rolling .still (eitherSide.withFees 5000 1000000)).value
    let dear := (withSchedule rolling .still (eitherSide.withFees 5000000000 1000000)).value
    cheap.Dearer dear ∧ cheap.opportunities.length = 2 ∧ dear.opportunities.length = 1 ∧
      dear.unprofitable = cheap.unprofitable + 1 := by
  intro cheap dear
  have hdearer : cheap.Dearer dear :=
    higher_fees_create_no_opportunity rolling eitherSide Schedule.complete_still
      Schedule.complete_still (Schedule.finds_none _) (Schedule.finds_none _) rfl rfl
      (by decide : (5000 : Amount) ≤ 5000000000) (by decide : (1000000 : Amount) ≤ 1000000)
  have hstarts : Starts (eitherSide.withFees 5000 1000000) := ⟨by decide +kernel, .inl rfl⟩
  have hstarts' : Starts (eitherSide.withFees 5000000000 1000000) := ⟨by decide +kernel, .inl rfl⟩
  have hcheap : cheap.opportunities.length = 2 := by
    rw [opportunities_eq_rank hstarts rfl, length_rank]
    decide +kernel
  have hdear : dear.opportunities.length = 1 := by
    rw [opportunities_eq_rank hstarts' rfl, length_rank]
    decide +kernel
  have hlost := hdearer.unprofitable
  exact ⟨hdearer, hcheap, hdear, by omega⟩

end Scan

end PoolArbitrage
