import Mathlib
import PoolArbitrage.Proofs.Candidates

/-!
# Candidates do not influence each other

A candidate's outcome depends on the configuration and the candidate alone, and a report is put
together from outcomes by counting and ranking. Counts of a list are the sums of those of its parts,
and its parts may as well be ranked first; so the report of two lists of candidates is what the
reports of each come to (`Report.ranked_append`). Order matters to neither counts nor ranks, but for
entries of one key.

**Theorem (`Scan.candidates_are_independent`).** A scan of two lists of candidates reports what the
scans of each report together. A scan of the candidates in another order reports the same, entries
that are ranked the same perhaps the other way round.
-/

namespace PoolArbitrage

/-- The context with the candidates of the caller alone. -/
def ScanContext.given (ctx : ScanContext) (routes : List Route) : ScanContext :=
  { ctx with snapshot := none, routes }

namespace Report

/-- **What two reports come to together**: their counts are added, and their opportunities ranked
anew. -/
def join (a b : Report) : Report where
  opportunities := rank Opportunity.rankKey (a.opportunities ++ b.opportunities)
  candidates := a.candidates + b.candidates
  rejectedByGuard := a.rejectedByGuard + b.rejectedByGuard
  noAmount := a.noAmount + b.noAmount
  failed := a.failed + b.failed
  rejectedByStress := a.rejectedByStress + b.rejectedByStress
  unprofitable := a.unprofitable + b.unprofitable
  evaluated := a.evaluated + b.evaluated
  deadlineHit := a.deadlineHit || b.deadlineHit
  configError := a.configError || b.configError
  diagnostics := a.diagnostics ++ b.diagnostics

/-- **The report of two lists of outcomes is what those of each come to.** -/
theorem ranked_append (as bs : List Outcome) :
    (ofOutcomes (as ++ bs)).ranked 0 =
      ((ofOutcomes as).ranked 0).join ((ofOutcomes bs).ranked 0) := by
  simp only [ofOutcomes, ranked, join, if_true, List.filterMap_append, List.length_append,
    List.countP_append, List.any_append, List.append_nil, Bool.or_self, rank_append_rank]

end Report

namespace Scan

variable {mix : Mixing} {schedule : Schedule} {ctx : ScanContext} {routes : List Route}

/-! ## Scans of given candidates -/

theorem starts_given (hsound : ctx.constraints.fault? = none) (h : routes ≠ []) :
    Starts (ctx.given routes) :=
  ⟨hsound, .inr h⟩

theorem examined_given (hlimit : ctx.constraints.limit = 0) :
    examined (ctx.given routes) = routes :=
  examined_unlimited hlimit

/-- A judgement comes to some outcome. -/
theorem not_isAbandoned_judge (mix : Mixing) (c : Constraints) (r : Route) :
    (Candidate.judge mix c r).value.isAbandoned = false := by
  have hjudged := Candidate.judged_judge mix c r
  generalize (Candidate.judge mix c r).value = outcome at hjudged
  cases hjudged <;> rfl

/-- **The report of given candidates** is what their judgements come to. -/
theorem value_given (h : schedule.Complete) (hsound : ctx.constraints.fault? = none)
    (hlimit : ctx.constraints.limit = 0) (hmatch : ctx.constraints.matchLimit = 0)
    (hd : schedule.Finds ctx.deadline false) (hroutes : routes ≠ []) :
    (withSchedule mix schedule (ctx.given routes)).value =
      (Report.ofOutcomes
        (routes.map fun r => (Candidate.judge mix ctx.constraints r).value)).ranked 0 := by
  have hresults : results mix schedule (ctx.given routes) =
      routes.map fun r => (Candidate.judge mix ctx.constraints r).value := by
    have hd' : schedule.Finds (ctx.given routes).deadline false := hd
    have hjudged : results mix schedule (ctx.given routes) = _ := results_eq_map_judge h hd'
    rwa [examined_given hlimit] at hjudged
  have hlate : late (results mix schedule (ctx.given routes)) = [] := by
    rw [late, if_neg]
    simp [hresults, not_isAbandoned_judge]
  rw [value_withSchedule_uncut mix schedule (starts_given hsound hroutes) hmatch, hlate, hresults]
  rfl

/-- Without candidates a scan does not start. -/
theorem value_given_nil (mix : Mixing) (schedule : Schedule)
    (hsound : ctx.constraints.fault? = none) :
    (withSchedule mix schedule (ctx.given [])).value =
      .notStarted "configuration error: no snapshot and no candidate routes" := by
  unfold withSchedule
  rw [show (ctx.given []).constraints.fault? = none from hsound]
  rfl

/-- **Candidates do not influence each other.** Where nothing is cut off, a scan of two lists of
candidates reports what the scans of each come to together; and a scan of them in another order
reports the same, with the same keys at the same ranks. -/
theorem candidates_are_independent (mix : Mixing) (ctx : ScanContext)
    (hsound : ctx.constraints.fault? = none) (hlimit : ctx.constraints.limit = 0)
    (hmatch : ctx.constraints.matchLimit = 0) :
    let settles := fun schedule : Schedule =>
      schedule.Complete ∧ schedule.Finds ctx.deadline false
    let report := fun schedule routes => (withSchedule mix schedule (ctx.given routes)).value
    (∀ (schedule schedule₁ schedule₂ : Schedule) (routes more : List Route), settles schedule →
      settles schedule₁ → settles schedule₂ → routes ≠ [] → more ≠ [] →
      report schedule (routes ++ more) = (report schedule₁ routes).join (report schedule₂ more)) ∧
    ∀ (schedule schedule' : Schedule) (routes routes' : List Route), settles schedule →
      settles schedule' → routes.Perm routes' →
      (report schedule routes).Agrees (report schedule' routes') ∧
        (report schedule routes).opportunities.map Opportunity.rankKey =
          (report schedule' routes').opportunities.map Opportunity.rankKey := by
  intro settles report
  have hvalue : ∀ (schedule : Schedule) (routes : List Route), settles schedule → routes ≠ [] →
      report schedule routes = (Report.ofOutcomes
        (routes.map fun r => (Candidate.judge mix ctx.constraints r).value)).ranked 0 :=
    fun schedule routes h => value_given h.1 hsound hlimit hmatch h.2
  refine ⟨fun schedule schedule₁ schedule₂ routes more h h₁ h₂ hroutes hmore => ?_,
    fun schedule schedule' routes routes' h h' hperm => ?_⟩
  · rw [hvalue _ _ h (List.append_ne_nil_of_left_ne_nil hroutes more), hvalue _ _ h₁ hroutes,
      hvalue _ _ h₂ hmore, List.map_append, Report.ranked_append]
  · cases routes with
    | nil =>
      have hsame : report schedule [] = report schedule' [] :=
        (value_given_nil mix schedule hsound).trans (value_given_nil mix schedule' hsound).symm
      rw [List.nil_perm.1 hperm, hsame]
      exact ⟨Report.Agrees.refl _, rfl⟩
    | cons r routes =>
      have houtcomes := hperm.map fun r => (Candidate.judge mix ctx.constraints r).value
      have hroutes' : routes' ≠ [] := fun hnil => by simp [hnil] at hperm
      rw [hvalue _ _ h (List.cons_ne_nil r routes), hvalue _ _ h' hroutes']
      exact ⟨Report.agrees_ofOutcomes houtcomes [], map_rank_of_perm (houtcomes.filterMap _)⟩

/-- The candidates of the gap beside a route without hops: the guard rejects the one, one of the
others pays, and it makes no difference which are given first. -/
theorem gap_beside_empty_route :
    let report := fun routes => (withSchedule rolling .still (gapContext.given routes)).value
    let both := examined gapContext
    report (both ++ [[]]) = (report both).join (report [[]]) ∧
      (report (both ++ [[]])).Agrees (report ([] :: both)) ∧
      (report both).opportunities.length = 1 ∧ (report [[]]).rejectedByGuard = 1 := by
  intro report both
  obtain ⟨hjoin, hperm⟩ :=
    candidates_are_independent rolling gapContext starts_gapContext.sound rfl rfl
  have hstill : Schedule.still.Complete ∧ Schedule.still.Finds gapContext.deadline false :=
    ⟨Schedule.complete_still, Schedule.finds_none _⟩
  have hboth : both ≠ [] := by decide +kernel
  have hpays : (report both).opportunities.length = 1 := by
    have hstarts : Starts (gapContext.given both) := starts_given starts_gapContext.sound hboth
    simp only [report]
    rw [opportunities_eq_rank hstarts rfl, length_rank]
    decide +kernel
  refine ⟨?_, ?_, hpays, by decide +kernel⟩
  · exact hjoin _ _ _ _ _ hstill hstill hstill hboth (by simp)
  · exact (hperm _ _ _ _ hstill hstill (List.perm_append_singleton _ _)).1

end Scan

end PoolArbitrage
