import Mathlib
import PoolArbitrage.Proofs.Candidates
import PoolArbitrage.Proofs.Comparison

/-!
# The threshold is a filter

The threshold is looked at once, by the decision, when all figures of a candidate are settled. A
candidate that pays under the lower of two thresholds has the same figures under the higher one, and
pays there exactly when its rate of profit reaches it; one that does not pay under the lower
threshold does not pay under the higher one either (`Candidate.value_judge_withThreshold`).

So raising the threshold turns some opportunities into losses and leaves all other outcomes as they
are (`Outcome.raised`). Ranking commutes with leaving entries out, and the report follows.

**Theorem (`Scan.threshold_is_a_filter`).** The report under the higher threshold is that under the
lower one without the opportunities that do not reach it; these are counted as unprofitable instead.
-/

namespace PoolArbitrage

/-- The configuration with another threshold. -/
def Constraints.withThreshold (c : Constraints) (least : Int64) : Constraints :=
  { c with minProfitBps := least }

/-- The context with another threshold. -/
def ScanContext.withThreshold (ctx : ScanContext) (least : Int64) : ScanContext :=
  { ctx with constraints := ctx.constraints.withThreshold least }

namespace Outcome

variable {least : Amount}

/-- The outcome under a higher threshold: opportunities that do not reach it are losses. -/
def raised (least : Amount) : Outcome → Outcome
  | profitable o => if least ≤ o.netBps then profitable o else unprofitable
  | outcome => outcome

theorem raised_of_opportunity?_eq_none {outcome : Outcome} (h : outcome.opportunity? = none) :
    outcome.raised least = outcome := by
  cases outcome with
  | profitable o => cases h
  | _ => rfl

theorem opportunity?_raised (outcome : Outcome) :
    (outcome.raised least).opportunity? =
      outcome.opportunity?.filter fun o => least ≤ o.netBps := by
  cases outcome with
  | profitable o =>
    rw [raised]
    split <;> simp [opportunity?, Option.filter, *]
  | _ => rfl

/-- What is read of an outcome other than whether it pays is not touched. -/
theorem comp_raised {test : Outcome → Bool}
    (h : ∀ o, test (.profitable o) = test .unprofitable) : test ∘ raised least = test := by
  funext outcome
  cases outcome with
  | profitable o =>
    simp only [Function.comp_apply, raised]
    split
    · rfl
    · exact (h o).symm
  | _ => rfl

theorem countP_isUnprofitable_raised (outcomes : List Outcome) :
    (outcomes.map (raised least)).countP (·.isUnprofitable) =
      outcomes.countP (·.isUnprofitable) +
        ((outcomes.filterMap (·.opportunity?)).filter fun o => o.netBps < least).length := by
  induction outcomes with
  | nil => rfl
  | cons outcome outcomes ih =>
    rw [List.map_cons, List.countP_cons, ih, List.countP_cons, List.filterMap_cons]
    cases outcome with
    | profitable o =>
      by_cases hreach : least ≤ o.netBps
      · simp [raised, isUnprofitable, opportunity?, hreach, UInt64.not_lt.2 hreach]
      · simp only [raised, if_neg hreach, isUnprofitable, opportunity?, List.filter_cons,
          decide_eq_true (UInt64.not_le.1 hreach), if_true, List.length_cons, Bool.false_eq_true,
          if_false]
        omega
    | unprofitable =>
      simp only [raised, isUnprofitable, opportunity?, if_true]
      omega
    | _ => rfl

end Outcome

/-- The report of outcomes under a higher threshold. -/
theorem Report.ofOutcomes_raised (outcomes : List Outcome) (least : Amount) :
    ofOutcomes (outcomes.map (Outcome.raised least)) =
      { ofOutcomes outcomes with
        opportunities := (ofOutcomes outcomes).opportunities.filter fun o => least ≤ o.netBps
        unprofitable := (ofOutcomes outcomes).unprofitable +
          ((ofOutcomes outcomes).opportunities.filter fun o => o.netBps < least).length } := by
  have hfound : (outcomes.map (Outcome.raised least)).filterMap (·.opportunity?) =
      (outcomes.filterMap (·.opportunity?)).filter fun o => least ≤ o.netBps := by
    rw [List.filterMap_map, List.filter_filterMap]
    exact congrArg (List.filterMap · outcomes) (funext Outcome.opportunity?_raised)
  have hcount : ∀ test : Outcome → Bool, (∀ o, test (.profitable o) = test .unprofitable) →
      (outcomes.map (Outcome.raised least)).countP test = outcomes.countP test := by
    intro test htest
    rw [List.countP_map, Outcome.comp_raised htest]
  unfold ofOutcomes
  rw [hfound, Outcome.countP_isUnprofitable_raised, hcount _ fun _ => rfl, hcount _ fun _ => rfl,
    hcount _ fun _ => rfl, hcount _ fun _ => rfl, hcount _ fun _ => rfl, List.length_map,
    List.any_map, Outcome.comp_raised fun _ => rfl]

/-- Entries are ranked the same whether those that do not reach the threshold are left out before or
after. -/
theorem Report.ranked_raised (outcomes : List Outcome) (least : Amount) :
    (ofOutcomes (outcomes.map (Outcome.raised least))).ranked 0 =
      { (ofOutcomes outcomes).ranked 0 with
        opportunities :=
          ((ofOutcomes outcomes).ranked 0).opportunities.filter fun o => least ≤ o.netBps
        unprofitable := ((ofOutcomes outcomes).ranked 0).unprofitable +
          (((ofOutcomes outcomes).ranked 0).opportunities.filter fun o =>
            o.netBps < least).length } := by
  have hcount : ∀ entries : List Opportunity,
      ((rank Opportunity.rankKey entries).filter fun o => o.netBps < least).length =
        (entries.filter fun o => o.netBps < least).length :=
    fun entries => ((perm_rank _ entries).filter _).length_eq
  rw [ofOutcomes_raised]
  simp only [ranked, if_true, rank_filter, hcount]

theorem Scan.late_raised (outcomes : List Outcome) (least : Amount) :
    late (outcomes.map (Outcome.raised least)) = late outcomes := by
  rw [late, late, List.any_map, Outcome.comp_raised fun _ => rfl]

namespace Candidate

variable {mix : Mixing} {c : Constraints} {r : Route} {low high : Int64}

/-- The decision under the higher of two thresholds. -/
theorem decided_withThreshold (h : low.toUInt64 ≤ high.toUInt64)
    (hbear : Bearable (c.withThreshold low) r) :
    decided mix (c.withThreshold high) r =
      (decided mix (c.withThreshold low) r).raised high.toUInt64 := by
  -- The figures are those of the lower threshold; only the verdict may be another.
  have hhigh : (assessment (c.withThreshold high) r).profitable = true ↔
      (assessment (c.withThreshold low) r).netProfit ≠ 0 ∧
        high.toUInt64 ≤ (assessment (c.withThreshold low) r).netBps := Assessment.profitable_iff
  by_cases hpays : (assessment (c.withThreshold low) r).profitable = true
  · obtain ⟨o, ho, hdecided⟩ := decided_of_profitable hbear hpays
    have hbps : o.netBps = (assessment (c.withThreshold low) r).netBps := by
      obtain ⟨_, _, _, _, _, rfl⟩ := found?_eq_some ho
      rfl
    rw [hdecided, Outcome.raised, hbps]
    by_cases hreach : high.toUInt64 ≤ (assessment (c.withThreshold low) r).netBps
    · have hpays' := hhigh.2 ⟨(Assessment.profitable_iff.1 hpays).1, hreach⟩
      have hsame : assessment (c.withThreshold high) r = assessment (c.withThreshold low) r :=
        Assessment.of_eq_of_profitable hpays' hpays
      have hfound : found? mix (c.withThreshold high) r = found? mix (c.withThreshold low) r := by
        unfold found?
        rw [hsame]
        rfl
      rw [if_pos hreach, decided, if_pos hpays', hfound, ho]
    · rw [if_neg hreach, decided_of_not_profitable]
      exact Bool.eq_false_iff.2 fun hpays' => hreach (hhigh.1 hpays').2
  · have hnot : ¬ (assessment (c.withThreshold high) r).profitable = true := by
      intro hpays'
      obtain ⟨hgain, hreach⟩ := hhigh.1 hpays'
      exact hpays (Assessment.profitable_iff.2 ⟨hgain, UInt64.le_trans h hreach⟩)
    rw [decided_of_not_profitable (Bool.eq_false_iff.2 hpays),
      decided_of_not_profitable (Bool.eq_false_iff.2 hnot)]
    rfl

/-- **A higher threshold raises the outcome of a candidate**, and does nothing else to it. -/
theorem value_judge_withThreshold (mix : Mixing) (c : Constraints) (r : Route)
    (h : low.toUInt64 ≤ high.toUInt64) :
    (judge mix (c.withThreshold high) r).value =
      (judge mix (c.withThreshold low) r).value.raised high.toUInt64 := by
  have halike : Alike (c.withThreshold low) (c.withThreshold high) r := ⟨rfl, rfl, rfl⟩
  rcases halike.value_judge_eq mix with ⟨hlow, hhigh⟩ | ⟨hsame, hnone⟩
  · rw [value_judge_of_bearable hlow, value_judge_of_bearable hhigh]
    exact decided_withThreshold h hlow
  · rw [← hsame, Outcome.raised_of_opportunity?_eq_none hnone]

end Candidate

/-- Thresholds that are set make no difference to the check of a configuration. -/
theorem Constraints.fault?_withThreshold (c : Constraints) {low high : Int64} (hlow : 0 ≤ low)
    (hhigh : 0 ≤ high) : (c.withThreshold low).fault? = (c.withThreshold high).fault? := by
  have hset : ∀ least : Int64, 0 ≤ least → ¬ (c.withThreshold least).minProfitBps < 0 :=
    fun _ h => Int64.not_lt.2 h
  unfold fault?
  rw [if_neg (hset low hlow), if_neg (hset high hhigh)]
  rfl

namespace Scan

variable {mix : Mixing} {schedule schedule' : Schedule} {ctx : ScanContext} {past : Bool}
variable {low high : Int64}

/-- The candidates do not depend on the threshold. -/
theorem sameCandidates_withThreshold (ctx : ScanContext) (hlow : 0 ≤ low) (hhigh : 0 ≤ high) :
    SameCandidates (ctx.withThreshold low) (ctx.withThreshold high) where
  fault := ctx.constraints.fault?_withThreshold hlow hhigh
  snapshot := rfl
  routes := rfl
  candidates := fun _ => rfl
  limit := rfl
  deadline := rfl

theorem results_withThreshold (h : schedule.Complete) (h' : schedule'.Complete)
    (hd : schedule.Finds ctx.deadline past) (hd' : schedule'.Finds ctx.deadline past)
    (hlow : 0 ≤ low) (hhigh : 0 ≤ high) (hle : low.toUInt64 ≤ high.toUInt64) :
    (results mix schedule (ctx.withThreshold low)).map (Outcome.raised high.toUInt64) =
      results mix schedule' (ctx.withThreshold high) := by
  rw [← List.forall₂_eq_eq_eq, List.forall₂_map_left_iff]
  refine (sameCandidates_withThreshold ctx hlow hhigh).forall₂_results h h' hd hd' ?_ fun r => ?_
  · rfl
  · exact (Candidate.value_judge_withThreshold mix ctx.constraints r hle).symm

/-- **The threshold is a filter.** Under the higher of two thresholds a scan reports those of the
opportunities found under the lower one whose rate of profit reaches it, with the same figures and
in the same order. The others are counted as unprofitable, and nothing else changes. -/
theorem threshold_is_a_filter (mix : Mixing) (ctx : ScanContext) (h : schedule.Complete)
    (h' : schedule'.Complete) (hd : schedule.Finds ctx.deadline past)
    (hd' : schedule'.Finds ctx.deadline past)
    (hmatch : ctx.constraints.matchLimit = 0) (hlow : 0 ≤ low) (hle : low ≤ high) :
    let before := (withSchedule mix schedule (ctx.withThreshold low)).value
    let after := (withSchedule mix schedule' (ctx.withThreshold high)).value
    after =
      { before with
        opportunities := before.opportunities.filter fun o => high.toInt ≤ o.netBps.toNat
        unprofitable := before.unprofitable +
          (before.opportunities.filter fun o => o.netBps.toNat < high.toInt).length } := by
  intro before after
  have hhigh : 0 ≤ high := Int64.le_trans hlow hle
  have hsame := sameCandidates_withThreshold ctx hlow hhigh
  by_cases hstarts : Starts (ctx.withThreshold low)
  · have hword : (high.toUInt64.toNat : Int) = high.toInt := Candidate.toNat_toUInt64 hhigh
    have hreach : ∀ o : Opportunity, high.toUInt64 ≤ o.netBps ↔ high.toInt ≤ o.netBps.toNat := by
      intro o
      rw [← hword, UInt64.le_iff_toNat_le, Int.ofNat_le]
    have hmiss : ∀ o : Opportunity, o.netBps < high.toUInt64 ↔ o.netBps.toNat < high.toInt := by
      intro o
      rw [← hword, UInt64.lt_iff_toNat_lt, Int.ofNat_lt]
    have hwords : low.toUInt64 ≤ high.toUInt64 := by
      rw [UInt64.le_iff_toNat_le, ← Int.ofNat_le, hword, Candidate.toNat_toUInt64 hlow]
      exact Int64.le_iff_toInt_le.1 hle
    simp only [before, after, value_withSchedule_uncut mix schedule hstarts hmatch,
      value_withSchedule_uncut mix schedule' (hsame.starts hstarts) hmatch, ← hsame.allCandidates,
      ← results_withThreshold h h' hd hd' hlow hhigh hwords, Report.ranked_raised, late_raised,
      hreach, hmiss]
  · obtain ⟨diagnostic, hbefore, hafter⟩ := hsame.refused mix schedule schedule' hstarts
    simp only [before, after, hbefore, hafter]
    rfl

/-- Both tokens give an opportunity; trading more of the second brings a lower rate, which a
threshold between the two leaves out. -/
theorem threshold_between_sides :
    let high : Int64 := 25000
    let before := (withSchedule rolling .still (eitherSide.withThreshold 50)).value
    let after := (withSchedule rolling .still (eitherSide.withThreshold high)).value
    before.opportunities.length = 2 ∧
      after.opportunities = before.opportunities.filter (fun o => high.toInt ≤ o.netBps.toNat) ∧
      after.opportunities.length = 1 ∧ after.unprofitable = before.unprofitable + 1 ∧
      after.evaluated = before.evaluated := by
  intro high before after
  have hfilter : after = _ := threshold_is_a_filter rolling eitherSide Schedule.complete_still
    Schedule.complete_still (Schedule.finds_none _) (Schedule.finds_none _) rfl
    (by decide : (0 : Int64) ≤ 50) (by decide : (50 : Int64) ≤ high)
  have hstarts : Starts (eitherSide.withThreshold 50) := ⟨by decide +kernel, .inl rfl⟩
  have hranked : before.opportunities = rank Opportunity.rankKey
      (foundIn rolling (eitherSide.withThreshold 50).constraints
        (judged .still (eitherSide.withThreshold 50))) :=
    opportunities_eq_rank hstarts rfl
  have htwo : before.opportunities.length = 2 := by
    rw [hranked, length_rank]
    decide +kernel
  have hkept : (before.opportunities.filter fun o => high.toInt ≤ o.netBps.toNat).length = 1 := by
    rw [hranked, ← rank_filter, length_rank]
    decide +kernel
  have hdropped :
      (before.opportunities.filter fun o => o.netBps.toNat < high.toInt).length = 1 := by
    rw [hranked, ← rank_filter, length_rank]
    decide +kernel
  rw [hfilter]
  exact ⟨htwo, rfl, hkept, congrArg (before.unprofitable + ·) hdropped, rfl⟩

end Scan

end PoolArbitrage
