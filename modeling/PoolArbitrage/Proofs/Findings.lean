import Mathlib
import PoolArbitrage.Proofs.Judgement
import PoolArbitrage.Proofs.Ranking
import PoolArbitrage.Proofs.Slots

/-!
# What a scan reports

A scan that starts examines its candidates (`Scan.examined`), ranks the opportunities among their
outcomes and counts the rest (`Scan.value_withSchedule_eq`). What was shown of one candidate's
judgement and of the slots is put together here.

**Theorem (`Scan.no_money_from_nothing`).** A reported opportunity buys from reserves whose product
exceeds that of the reserves it sells into, however the scan was configured.

**Theorem (`Scan.opportunities_are_those_that_qualify`).** Under a complete schedule whose clock
never finds the deadline reached there is one entry for each candidate that qualifies, and no other.

**Theorem (`Scan.books_balance`).** Each candidate is counted once. This needs no assumption on the
schedule or on the clock: a candidate whose task never ran, or ran too late, is one of those
abandoned.
-/

namespace PoolArbitrage

/-! ## Counting outcomes -/

namespace Outcome

/-- Each outcome is counted once. -/
theorem length_eq_counts (outcomes : List Outcome) :
    outcomes.length = outcomes.countP (·.isRejectedByGuard) + outcomes.countP (·.isNoAmount) +
      outcomes.countP (·.isEvaluated) + outcomes.countP (·.isAbandoned) := by
  induction outcomes with
  | nil => rfl
  | cons o outcomes ih =>
    simp only [List.length_cons, List.countP_cons, ih]
    cases o <;> grind [isRejectedByGuard, isNoAmount, isEvaluated, isAbandoned]

/-- Each evaluated candidate is counted once more, by what its evaluation came to. -/
theorem countP_isEvaluated (outcomes : List Outcome) :
    outcomes.countP (·.isEvaluated) = outcomes.countP (·.isUnprofitable) +
      outcomes.countP (·.isFailed) + outcomes.countP (·.isRejectedByStress) +
      (outcomes.filterMap (·.opportunity?)).length := by
  induction outcomes with
  | nil => rfl
  | cons o outcomes ih =>
    simp only [List.countP_cons, List.filterMap_cons, ih]
    cases o <;> grind [isEvaluated, isUnprofitable, isFailed, isRejectedByStress, opportunity?]

theorem countP_isAbandoned_pos (outcomes : List Outcome) :
    0 < outcomes.countP (·.isAbandoned) ↔ outcomes.any (·.isAbandoned) = true := by
  rw [List.countP_pos_iff, List.any_eq_true]

end Outcome

namespace Report

/-- Nothing was found and nothing was counted. -/
structure Blank (report : Report) : Prop where
  opportunities : report.opportunities = []
  candidates : report.candidates = 0
  rejectedByGuard : report.rejectedByGuard = 0
  noAmount : report.noAmount = 0
  failed : report.failed = 0
  rejectedByStress : report.rejectedByStress = 0
  unprofitable : report.unprofitable = 0
  evaluated : report.evaluated = 0
  deadlineHit : report.deadlineHit = false

/-- Each candidate is counted once, when so many were abandoned and so many were found to pay. -/
structure Balanced (report : Report) (abandoned found matchLimit : Nat) : Prop where
  candidates : report.candidates =
    report.rejectedByGuard + report.noAmount + report.evaluated + abandoned
  deadline : 0 < abandoned ↔ report.deadlineHit = true
  evaluated : report.evaluated =
    report.unprofitable + report.failed + report.rejectedByStress + found
  opportunities : report.opportunities.length =
    if matchLimit = 0 then found else min found matchLimit

theorem blank_notStarted (diagnostic : String) : (notStarted diagnostic).Blank := by
  constructor <;> rfl

/-- The report of some outcomes, ranked and cut. -/
theorem balanced_ranked (outcomes : List Outcome) (matchLimit : Nat) :
    ((ofOutcomes outcomes).ranked matchLimit).Balanced (outcomes.countP (·.isAbandoned))
      (outcomes.filterMap (·.opportunity?)).length matchLimit where
  candidates := Outcome.length_eq_counts outcomes
  deadline := Outcome.countP_isAbandoned_pos outcomes
  evaluated := Outcome.countP_isEvaluated outcomes
  opportunities := by
    simp only [ranked, ofOutcomes]
    split
    · rw [length_rank]
    · rw [List.length_take, length_rank, Nat.min_comm]

end Report

namespace Scan

variable {mix : Mixing} {schedule : Schedule} {ctx : ScanContext} {o : Opportunity}
variable {past : Bool}

/-! ## From the context to the report -/

/-- The candidates built from the snapshot, if there is one. -/
def built (ctx : ScanContext) : List Route :=
  match ctx.snapshot with
  | .none => []
  | .some s => (candidates s ctx.constraints).value.1

/-- The candidates a scan examines: those built, then those given, cut by the limit. -/
def examined (ctx : ScanContext) : List Route :=
  let all := built ctx ++ ctx.routes
  if 0 < ctx.constraints.limit.toNat then all.take ctx.constraints.limit.toNat else all

/-- Without a limit all candidates are examined. -/
theorem examined_unlimited (hlimit : ctx.constraints.limit = 0) :
    examined ctx = built ctx ++ ctx.routes := by
  unfold examined
  rw [hlimit]
  rfl

/-- There is something to scan and the configuration is sound. -/
structure Starts (ctx : ScanContext) : Prop where
  sound : ctx.constraints.fault? = none
  supplied : ctx.snapshot.isSome ∨ ctx.routes ≠ []

theorem value_allCandidates (ctx : ScanContext) :
    (allCandidates ctx).value.1 = built ctx ++ ctx.routes := by
  unfold allCandidates built
  cases ctx.snapshot <;> rfl

/-- The outcomes of the candidates a scan examines. -/
def results (mix : Mixing) (schedule : Schedule) (ctx : ScanContext) : List Outcome :=
  (outcomes mix schedule ctx (examined ctx)).value

/-- The candidates a scan judges, in their order. -/
def judged (schedule : Schedule) (ctx : ScanContext) : List Route :=
  judgedOf schedule ctx (examined ctx)

theorem judged_sublist : (judged schedule ctx).Sublist (examined ctx) := judgedOf_sublist

/-- Outcomes of a kind that abandoned candidates are not of are counted among those judged. -/
theorem countP_results {p : Outcome → Bool} (hp : p .abandoned = false) :
    (results mix schedule ctx).countP p =
      (judged schedule ctx).countP fun r => p (Candidate.judge mix ctx.constraints r).value :=
  countP_outcomes hp

/-- What is said of a scan whose deadline has passed. -/
def late (outcomes : List Outcome) : List String :=
  if outcomes.any (·.isAbandoned) then ["deadline reached before all candidates were evaluated"]
  else []

/-- A scan that starts is run. -/
theorem withSchedule_of_starts (mix : Mixing) (schedule : Schedule) (h : Starts ctx) :
    withSchedule mix schedule ctx = run mix schedule ctx := by
  have hsupplied : ¬ (ctx.snapshot.isNone && ctx.routes.isEmpty) = true := by
    rcases h.supplied with hs | hr
    · simp [Option.isSome_iff_ne_none.1 hs]
    · simp [hr]
  rw [withSchedule, h.sound]
  simp only [if_neg hsupplied]

/-- **The report of a scan that starts**: what the outcomes of its candidates come to, and what
there is to say of the snapshot and of the deadline. -/
theorem value_withSchedule_eq (mix : Mixing) (schedule : Schedule) (h : Starts ctx) :
    (withSchedule mix schedule ctx).value =
      { (Report.ofOutcomes (results mix schedule ctx)).ranked ctx.constraints.matchLimit.toNat with
        diagnostics := (allCandidates ctx).value.2 ++ late (results mix schedule ctx) } := by
  have hlimited :
      limited ctx.constraints.limit.toNat (allCandidates ctx).value.1 = examined ctx := by
    rw [value_allCandidates]
    rfl
  rw [withSchedule_of_starts mix schedule h]
  simp only [run, Logged.value_bind, Logged.value_pure, hlimited]
  rfl

/-- Without a match limit all opportunities are ranked and none is cut off. -/
theorem value_withSchedule_uncut (mix : Mixing) (schedule : Schedule) (h : Starts ctx)
    (hmatch : ctx.constraints.matchLimit = 0) :
    (withSchedule mix schedule ctx).value =
      { (Report.ofOutcomes (results mix schedule ctx)).ranked 0 with
        diagnostics := (allCandidates ctx).value.2 ++ late (results mix schedule ctx) } := by
  rw [value_withSchedule_eq mix schedule h, hmatch]
  rfl

/-- The diagnostics apart, a scan that starts reports what the outcomes come to. -/
theorem value_withSchedule (mix : Mixing) (schedule : Schedule) (h : Starts ctx) :
    ∃ diagnostics, (withSchedule mix schedule ctx).value =
      { (Report.ofOutcomes (results mix schedule ctx)).ranked ctx.constraints.matchLimit.toNat with
        diagnostics } :=
  ⟨_, value_withSchedule_eq mix schedule h⟩

/-- A scan of a sound configuration that does not start was given nothing. -/
theorem nothing_of_not_starts (hfault : ctx.constraints.fault? = none) (h : ¬ Starts ctx) :
    (ctx.snapshot.isNone && ctx.routes.isEmpty) = true := by
  by_contra hsome
  refine h ⟨hfault, ?_⟩
  cases hs : ctx.snapshot <;> simp_all

theorem value_withSchedule_of_not (mix : Mixing) (schedule : Schedule) (h : ¬ Starts ctx) :
    ∃ diagnostic, (withSchedule mix schedule ctx).value = .notStarted diagnostic := by
  unfold withSchedule
  cases hfault : ctx.constraints.fault? with
  | some f => exact ⟨_, rfl⟩
  | none =>
    simp only [if_pos (nothing_of_not_starts hfault h)]
    exact ⟨_, rfl⟩

/-- The books of a scan that starts. -/
theorem balanced_of_starts (mix : Mixing) (schedule : Schedule) (h : Starts ctx) :
    (withSchedule mix schedule ctx).value.Balanced
      ((results mix schedule ctx).countP (·.isAbandoned))
      ((results mix schedule ctx).filterMap (·.opportunity?)).length
      ctx.constraints.matchLimit.toNat := by
  obtain ⟨diagnostics, hvalue⟩ := value_withSchedule mix schedule h
  have hbalanced :=
    Report.balanced_ranked (results mix schedule ctx) ctx.constraints.matchLimit.toNat
  rw [hvalue]
  exact ⟨hbalanced.candidates, hbalanced.deadline, hbalanced.evaluated, hbalanced.opportunities⟩

/-! ## Two exchanges that disagree -/

/-- A pair of tokens on two exchanges that disagree on which is worth two of the other. -/
def gap : Snapshot :=
  ({} : Snapshot).add ⟨"x", "A", "B", 1000000000000, 2000000000000, 30, "first", .constantProduct⟩
    |>.add ⟨"y", "B", "A", 1000000000000, 2000000000000, 30, "second", .constantProduct⟩

/-- A scan for cycles through one of the tokens. There are two, and one of them pays. -/
def gapContext : ScanContext :=
  { snapshot := some gap
    constraints := { defaultAmount := 1000000000, startTokens := ["A"] } }

/-- A mixing that reads the characters of a name as digits. -/
def rolling : Mixing := fun number name =>
  name.toList.foldl (fun n c => 31 * n + c.toNat.toUInt64) number

theorem starts_gapContext : Starts gapContext where
  sound := by decide +kernel
  supplied := .inl rfl

/-! ## The books -/

/-- **Each candidate is counted once.** A report says that the scan did not start and holds nothing
else, or its counts add up to the candidates. -/
theorem books_balance (mix : Mixing) (schedule : Schedule) (ctx : ScanContext) :
    let report := (withSchedule mix schedule ctx).value
    let abandoned := (results mix schedule ctx).countP (·.isAbandoned)
    let found := (results mix schedule ctx).filterMap (·.opportunity?)
    (report.configError = true → report.Blank) ∧
      (report.configError = false →
        report.candidates = (examined ctx).length ∧
          report.Balanced abandoned found.length ctx.constraints.matchLimit.toNat) := by
  intro report abandoned found
  by_cases hstarts : Starts ctx
  · have hbalanced := balanced_of_starts mix schedule hstarts
    obtain ⟨diagnostics, hvalue⟩ := value_withSchedule mix schedule hstarts
    refine ⟨fun herror => ?_, fun _ => ⟨?_, hbalanced⟩⟩
    · simp only [report, hvalue] at herror
      cases herror
    · simp only [report, hvalue]
      exact length_outcomes
  · obtain ⟨diagnostic, hvalue⟩ := value_withSchedule_of_not mix schedule hstarts
    simp only [report, hvalue]
    refine ⟨fun _ => Report.blank_notStarted diagnostic, fun hstarted => ?_⟩
    cases hstarted

/-- With nothing configured the scan does not start; over the gap two candidates are counted. -/
theorem books_balance_gapContext :
    (withSchedule rolling .still {}).value.Blank ∧
      (withSchedule rolling .still gapContext).value.candidates = 2 ∧
      (withSchedule rolling .still gapContext).value.Balanced 0 1 0 := by
  have hblank := (books_balance rolling .still {}).1 (by decide +kernel)
  obtain ⟨hcount, hbalanced⟩ := (books_balance rolling .still gapContext).2 (by decide +kernel)
  have hexamined : (examined gapContext).length = 2 := by decide +kernel
  have habandoned : (results rolling .still gapContext).countP (·.isAbandoned) = 0 := by
    decide +kernel
  have hfound : ((results rolling .still gapContext).filterMap (·.opportunity?)).length = 1 := by
    decide +kernel
  rw [habandoned, hfound] at hbalanced
  exact ⟨hblank, hcount.trans hexamined, hbalanced⟩

/-! ## The opportunities -/

/-- A scan reports only opportunities found among its outcomes. -/
theorem mem_results_of_mem_opportunities
    (h : o ∈ (withSchedule mix schedule ctx).value.opportunities) :
    .profitable o ∈ results mix schedule ctx := by
  by_cases hstarts : Starts ctx
  · obtain ⟨diagnostics, hvalue⟩ := value_withSchedule mix schedule hstarts
    rw [hvalue] at h
    simp only [Report.ranked, Report.ofOutcomes] at h
    have hranked : o ∈ rank Opportunity.rankKey
        ((results mix schedule ctx).filterMap (·.opportunity?)) := by
      split at h
      · exact h
      · exact List.mem_of_mem_take h
    rw [(perm_rank ..).mem_iff, List.mem_filterMap] at hranked
    obtain ⟨outcome, hmem, ho⟩ := hranked
    cases outcome <;> simp_all [Outcome.opportunity?]
  · obtain ⟨diagnostic, hvalue⟩ := value_withSchedule_of_not mix schedule hstarts
    rw [hvalue] at h
    cases h

/-- An opportunity found among the outcomes is a candidate that was judged to pay. -/
theorem judged_of_mem_results (h : .profitable o ∈ results mix schedule ctx) :
    Candidate.Judged mix ctx.constraints o.route (.profitable o) := by
  rcases mem_outcomes h with habandoned | ⟨r, -, hvalue⟩
  · cases habandoned
  · have hroute : o.route = r := Candidate.route_of_judge (by rw [← hvalue]; rfl)
    rw [hroute, hvalue]
    exact Candidate.judged_judge mix ctx.constraints r

/-- **A reported opportunity buys from more than it sells into.** -/
theorem reservesIn_lt_reservesOut_of_mem
    (h : o ∈ (withSchedule mix schedule ctx).value.opportunities) :
    o.route.reservesIn < o.route.reservesOut := by
  cases judged_of_mem_results (mem_results_of_mem_opportunities h) with
  | profitable hbear hpays ho =>
    have hpos := Candidate.amount_pos hbear.toSized
    have hgain := ((Assessment.profitable_of_iff hpos).1 hpays).1
    refine Route.reservesIn_lt_reservesOut (Route.ne_nil_of_check_eq_ok hbear.guarded) hpos
      hbear.goesThrough ?_
    rw [UInt64.lt_iff_toNat_lt]
    exact Nat.lt_of_le_of_lt (Nat.le_add_right ..) hgain

/-- **No money out of nothing.** What comes out of a route, valued at the rates at rest, is less
than what went in; so a reported opportunity lives on rates that differ, and swapping back through
the same pool loses. -/
theorem no_money_from_nothing :
    (∀ (r : Route) (amount : Amount), r ≠ [] → 0 < amount → (r.evaluate amount).failed = false →
      (r.evaluate amount).finalOut.toNat * r.reservesIn < amount.toNat * r.reservesOut) ∧
    (∀ (mix : Mixing) (schedule : Schedule) (ctx : ScanContext),
      ∀ o ∈ (withSchedule mix schedule ctx).value.opportunities,
        o.route.reservesIn < o.route.reservesOut) ∧
    ∀ (p : Pool) (amount out : Amount), 0 < amount → p.output amount = .ok out →
      ∃ back, p.reversed.output out = .ok back ∧ back < amount := by
  refine ⟨fun r amount hr ha h => ?_, fun mix schedule ctx o ho => ?_,
    fun p amount out ha h => ?_⟩
  · exact Route.finalOut_mul_reservesIn_lt hr ha h
  · exact reservesIn_lt_reservesOut_of_mem ho
  · exact Pool.output_reversed_lt ha h

/-- Over the gap an opportunity is reported; both candidates go through, and lose at rest. -/
theorem no_money_in_gap :
    (∃ o ∈ (withSchedule rolling .still gapContext).value.opportunities,
      o.route.reservesIn < o.route.reservesOut) ∧
    (∀ r ∈ examined gapContext,
      (r.evaluate 1000).finalOut.toNat * r.reservesIn < 1000 * r.reservesOut) ∧
    ∃ back,
      (Pool.mk 1000 2000 30 .constantProduct).reversed.output 180 = .ok back ∧ back < 100 := by
  obtain ⟨hroutes, hscans, hpools⟩ := no_money_from_nothing
  refine ⟨?_, fun r hr => ?_, ?_⟩
  · have hlen := (balanced_of_starts rolling .still starts_gapContext).opportunities
    have hfound : ((results rolling .still gapContext).filterMap (·.opportunity?)).length = 1 := by
      decide +kernel
    rw [hfound] at hlen
    obtain ⟨o, ho⟩ := List.length_eq_one_iff.1 hlen
    have hmem : o ∈ (withSchedule rolling .still gapContext).value.opportunities := by
      rw [ho]
      exact List.mem_singleton_self o
    exact ⟨o, hmem, hscans rolling .still gapContext o hmem⟩
  · have hthrough : ∀ r ∈ examined gapContext, r ≠ [] ∧ (r.evaluate 1000).failed = false := by
      decide +kernel
    exact hroutes r 1000 (hthrough r hr).1 (by decide) (hthrough r hr).2
  · exact hpools _ 100 180 (by decide) (by decide +kernel)

/-! ## One entry for each candidate that qualifies -/

/-- What a partial function gives of a list, when it gives something exactly where `p` holds. -/
theorem forall₂_filterMap {α β : Type} {R : α → β → Prop} {p : α → Prop} [DecidablePred p]
    {f : α → Option β} (hyes : ∀ a, p a → ∃ b, f a = some b ∧ R a b)
    (hno : ∀ a, ¬ p a → f a = none) (as : List α) :
    List.Forall₂ R (as.filter fun a => p a) (as.filterMap f) := by
  induction as with
  | nil => exact .nil
  | cons a as ih =>
    by_cases ha : p a
    · obtain ⟨b, hb, hab⟩ := hyes a ha
      rw [List.filter_cons, if_pos (decide_eq_true ha), List.filterMap_cons_some hb]
      exact .cons hab ih
    · have ha' : ¬ decide (p a) = true := by simpa using ha
      rw [List.filter_cons, if_neg ha', List.filterMap_cons_none (hno a ha)]
      exact ih

/-- **Under a complete schedule each candidate is judged, or all are abandoned**, if the deadline
has come at no check or at every one. -/
theorem results_of_finds (h : schedule.Complete) (hd : schedule.Finds ctx.deadline past) :
    results mix schedule ctx = (examined ctx).map fun r =>
      if past then .abandoned else (Candidate.judge mix ctx.constraints r).value :=
  value_outcomes_of_finds h hd

theorem results_eq_map_judge (h : schedule.Complete) (hd : schedule.Finds ctx.deadline false) :
    results mix schedule ctx =
      (examined ctx).map fun r => (Candidate.judge mix ctx.constraints r).value :=
  results_of_finds h hd

theorem minProfitBps_nonneg (h : ctx.constraints.fault? = none) :
    0 ≤ ctx.constraints.minProfitBps := by
  by_contra hneg
  have hlt : ctx.constraints.minProfitBps < 0 := Int64.not_le.1 hneg
  simp [Constraints.fault?, hlt] at h

/-- The opportunities found, in the order of the candidates, are entries of those that qualify. -/
theorem forall₂_entry_results (h : schedule.Complete) (hc : ctx.constraints.fault? = none)
    (hd : schedule.Finds ctx.deadline false) :
    List.Forall₂ (Candidate.Entry mix ctx.constraints)
      ((examined ctx).filter fun r => Candidate.Qualifies ctx.constraints r)
      ((results mix schedule ctx).filterMap (·.opportunity?)) := by
  have hmin := minProfitBps_nonneg hc
  rw [results_eq_map_judge h hd, List.filterMap_map]
  refine forall₂_filterMap (fun r hr => ?_) (fun r hr => ?_) (examined ctx)
  · exact Candidate.opportunity?_judge_of_qualifies hmin hr
  · exact Candidate.opportunity?_judge_of_not_qualifies hmin hr

/-- **The scan reports exactly what it should.** The report lists one entry for each examined
candidate that qualifies and no other, ranked, and cut to the best where a limit is set. -/
theorem opportunities_are_those_that_qualify (h : schedule.Complete)
    (hc : ctx.constraints.fault? = none) (hs : ctx.snapshot.isSome ∨ ctx.routes ≠ [])
    (hd : schedule.Finds ctx.deadline false) :
    ∃ entries ranked,
      List.Forall₂ (Candidate.Entry mix ctx.constraints)
        ((examined ctx).filter fun r => Candidate.Qualifies ctx.constraints r) entries ∧
      ranked = rank Opportunity.rankKey entries ∧ ranked.Perm entries ∧
      ranked.Pairwise (fun a b => a.rankKey.notAfter b.rankKey = true) ∧
      (withSchedule mix schedule ctx).value.opportunities =
        if ctx.constraints.matchLimit.toNat = 0 then ranked
        else ranked.take ctx.constraints.matchLimit.toNat := by
  obtain ⟨diagnostics, hvalue⟩ := value_withSchedule mix schedule ⟨hc, hs⟩
  refine ⟨_, _, forall₂_entry_results h hc hd, rfl, perm_rank .., pairwise_rank .., ?_⟩
  rw [hvalue]
  rfl

/-- Over the gap one of the two candidates qualifies, and it is the one reported. -/
theorem opportunities_of_gap :
    ((examined gapContext).filter fun r =>
      Candidate.Qualifies gapContext.constraints r).length = 1 ∧
    ∃ entries,
      List.Forall₂ (Candidate.Entry rolling gapContext.constraints)
        ((examined gapContext).filter fun r => Candidate.Qualifies gapContext.constraints r)
        entries ∧
      (withSchedule rolling .still gapContext).value.opportunities =
        rank Opportunity.rankKey entries := by
  have hone : ((examined gapContext).filter fun r =>
      Candidate.Qualifies gapContext.constraints r).length = 1 := by decide +kernel
  obtain ⟨entries, ranked, hentries, hranked, -, -, hreport⟩ :=
    opportunities_are_those_that_qualify Schedule.complete_still starts_gapContext.sound
      starts_gapContext.supplied (Schedule.finds_none _)
  exact ⟨hone, entries, hentries, hranked ▸ hreport⟩

end Scan

end PoolArbitrage
