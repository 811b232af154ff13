import Mathlib
import PoolArbitrage.Proofs.Findings

/-!
# Comparing two scans of the same candidates

What is said of two scans that differ in one setting is said candidate by candidate. This module
holds what such comparisons share, and what none of them is about.

**One candidate.** The judgement can be read off as one equation: the first step that speaks
against a candidate settles its outcome, and one that none speaks against is decided on
(`Candidate.value_judge_eq`). So configurations that agree on the allowance, the amount and the
limit of stress judge a candidate alike up to the decision (`Candidate.Alike.value_judge_eq`).

**The whole scan.** Contexts that agree in all that candidates are built from start alike, and the
scans examine the same candidates and say the same of the snapshot (`Scan.SameCandidates`). So what
is shown of each candidate holds of the outcomes, entry by entry
(`Scan.SameCandidates.forall₂_results`).
-/

namespace PoolArbitrage

namespace Candidate

variable {mix : Mixing} {c c' : Constraints} {r : Route}

/-! ## The outcome in one equation -/

/-- The pools cannot bear the amount. -/
def strained (c : Constraints) (r : Route) : Bool :=
  ((evaluation c r).stress? r).any (overstressed c)

/-- What the decision makes of a candidate that came so far. -/
def decided (mix : Mixing) (c : Constraints) (r : Route) : Outcome :=
  if (assessment c r).profitable then
    match found? mix c r with
    | some o => .profitable o
    | none => .failed
  else .unprofitable

theorem Bearable.not_strained (h : Bearable c r) : strained c r = false := by
  obtain ⟨stress, hstress, hunder⟩ := h.unstressed
  rw [strained, hstress, Option.any_some, hunder]

/-- An amount that goes through the pools and does not strain them can be borne. -/
theorem Evaluated.bearable (h : Evaluated c r) (hunder : strained c r = false) : Bearable c r := by
  obtain ⟨stress, hstress⟩ := Option.isSome_iff_exists.1
    (Evaluation.isSome_stress? r (tradedAmount c r))
  have hstress' : (evaluation c r).stress? r = some stress := hstress
  rw [strained, hstress', Option.any_some] at hunder
  exact ⟨h, stress, hstress', hunder⟩

/-- **The first step that speaks against a candidate settles its outcome**, and the decision if none
does. -/
theorem value_judge_eq (mix : Mixing) (c : Constraints) (r : Route) :
    (judge mix c r).value =
      if r.check c.maxTokenRepeats ≠ .ok then .rejectedByGuard
      else if tradedAmount c r = 0 then .noAmount
      else if (evaluation c r).failed = true then .failed
      else if strained c r = true then .rejectedByStress
      else decided mix c r := by
  have hjudged := judged_judge mix c r
  generalize (judge mix c r).value = outcome at hjudged
  cases hjudged with
  | rejectedByGuard hguard => rw [if_pos hguard]
  | noAmount hok hzero => rw [if_neg (not_not_intro hok), if_pos hzero]
  | failed hsized hfail =>
    rw [if_neg (not_not_intro hsized.guarded), if_neg hsized.amount, if_pos hfail]
  | rejectedByStress heval hstress hover =>
    have hstrained : strained c r = true := by rw [strained, hstress, Option.any_some, hover]
    rw [if_neg (not_not_intro heval.guarded), if_neg heval.amount,
      if_neg (Bool.eq_false_iff.1 heval.goesThrough), if_pos hstrained]
  | unprofitable hbear hnot =>
    rw [if_neg (not_not_intro hbear.guarded), if_neg hbear.amount,
      if_neg (Bool.eq_false_iff.1 hbear.goesThrough),
      if_neg (Bool.eq_false_iff.1 hbear.not_strained), decided, hnot]
    rfl
  | profitable hbear hpays hfound =>
    rw [if_neg (not_not_intro hbear.guarded), if_neg hbear.amount,
      if_neg (Bool.eq_false_iff.1 hbear.goesThrough),
      if_neg (Bool.eq_false_iff.1 hbear.not_strained), decided, if_pos hpays, hfound]

/-- A candidate that nothing speaks against is decided on. -/
theorem value_judge_of_bearable (h : Bearable c r) : (judge mix c r).value = decided mix c r := by
  rw [value_judge_eq, if_neg (not_not_intro h.guarded), if_neg h.amount,
    if_neg (Bool.eq_false_iff.1 h.goesThrough), if_neg (Bool.eq_false_iff.1 h.not_strained)]

theorem decided_of_not_profitable (h : (assessment c r).profitable = false) :
    decided mix c r = .unprofitable := by
  rw [decided, h]
  rfl

/-- A candidate decided to pay is an opportunity, with all that it was judged by. -/
theorem decided_of_profitable (h : Bearable c r) (hpays : (assessment c r).profitable = true) :
    ∃ o, found? mix c r = some o ∧ decided mix c r = .profitable o := by
  obtain ⟨o, ho⟩ := Option.isSome_iff_exists.1 (isSome_found? h.toEvaluated)
  refine ⟨o, ho, ?_⟩
  rw [decided, if_pos hpays, ho]

/-! ## Alike up to the decision -/

/-- **The configurations treat a route alike up to the decision**: they allow as many repeats, trade
the same amount and set the same limit to the stress. -/
structure Alike (c c' : Constraints) (r : Route) : Prop where
  repeats : c.maxTokenRepeats = c'.maxTokenRepeats
  amount : tradedAmount c r = tradedAmount c' r
  stress : c.maxStress = c'.maxStress

namespace Alike

theorem evaluation (h : Alike c c' r) : evaluation c r = evaluation c' r :=
  congrArg r.evaluate h.amount

theorem overstressed (h : Alike c c' r) : overstressed c = overstressed c' := by
  funext stress
  rw [Candidate.overstressed, Candidate.overstressed, h.stress]

theorem strained (h : Alike c c' r) : strained c r = strained c' r := by
  rw [Candidate.strained, Candidate.strained, h.evaluation, h.overstressed]

theorem bearable (h : Alike c c' r) (hbear : Bearable c r) : Bearable c' r where
  guarded := h.repeats ▸ hbear.guarded
  amount := h.amount ▸ hbear.amount
  goesThrough := h.evaluation ▸ hbear.goesThrough
  unstressed := by
    rw [← h.evaluation, ← h.overstressed]
    exact hbear.unstressed

/-- **A candidate is judged alike up to the decision**: either it gets there under both
configurations, or it is no opportunity and its outcome is the same under both. -/
theorem value_judge_eq (h : Alike c c' r) (mix : Mixing) :
    Bearable c r ∧ Bearable c' r ∨
      (judge mix c r).value = (judge mix c' r).value ∧
        (judge mix c r).value.opportunity? = none := by
  by_cases hbear : Bearable c r
  · exact .inl ⟨hbear, h.bearable hbear⟩
  right
  rw [Candidate.value_judge_eq mix c r, Candidate.value_judge_eq mix c' r, ← h.repeats, ← h.amount,
    ← h.evaluation, ← h.strained]
  split_ifs with hguard hzero hfail hstrained
  · exact ⟨rfl, rfl⟩
  · exact ⟨rfl, rfl⟩
  · exact ⟨rfl, rfl⟩
  · exact ⟨rfl, rfl⟩
  · have heval : Evaluated c r :=
      ⟨⟨not_not.1 hguard, hzero⟩, Bool.eq_false_iff.2 hfail⟩
    exact absurd (heval.bearable (Bool.eq_false_iff.2 hstrained)) hbear

end Alike

end Candidate

namespace Scan

variable {mix : Mixing} {ctx ctx' : ScanContext} {schedule schedule' : Schedule} {past : Bool}

/-! ## The same candidates -/

/-- **The contexts give the same candidates**, and scans of them start alike and are cut alike. -/
structure SameCandidates (ctx ctx' : ScanContext) : Prop where
  fault : ctx.constraints.fault? = ctx'.constraints.fault?
  snapshot : ctx.snapshot = ctx'.snapshot
  routes : ctx.routes = ctx'.routes
  candidates : ∀ s, (candidates s ctx.constraints).value = (candidates s ctx'.constraints).value
  limit : ctx.constraints.limit = ctx'.constraints.limit
  deadline : ctx.deadline = ctx'.deadline

namespace SameCandidates

theorem starts (h : SameCandidates ctx ctx') (hstarts : Starts ctx) : Starts ctx' where
  sound := h.fault ▸ hstarts.sound
  supplied := h.snapshot ▸ h.routes ▸ hstarts.supplied

theorem allCandidates (h : SameCandidates ctx ctx') :
    (allCandidates ctx).value = (allCandidates ctx').value := by
  unfold Scan.allCandidates
  rw [h.snapshot, h.routes]
  cases ctx'.snapshot with
  | none => rfl
  | some s => simp only [Logged.value_bind, Logged.value_pure, h.candidates s]

theorem examined (h : SameCandidates ctx ctx') : examined ctx = examined ctx' := by
  have hall := congrArg Prod.fst h.allCandidates
  rw [value_allCandidates, value_allCandidates] at hall
  simp only [Scan.examined, hall, h.limit]

/-- Scans that cannot start say the same. -/
theorem refused (h : SameCandidates ctx ctx') (mix : Mixing) (schedule schedule' : Schedule)
    (hnot : ¬ Starts ctx) :
    ∃ diagnostic, (withSchedule mix schedule ctx).value = .notStarted diagnostic ∧
      (withSchedule mix schedule' ctx').value = .notStarted diagnostic := by
  unfold withSchedule
  rw [← h.fault, ← h.snapshot, ← h.routes]
  cases hfault : ctx.constraints.fault? with
  | some f => exact ⟨_, rfl, rfl⟩
  | none =>
    simp only [if_pos (nothing_of_not_starts hfault hnot)]
    exact ⟨_, rfl, rfl⟩

/-- **What holds of the judgements of each candidate holds of the outcomes**, entry by entry. -/
theorem forall₂_results (h : SameCandidates ctx ctx') (hc : schedule.Complete)
    (hc' : schedule'.Complete) (hd : schedule.Finds ctx.deadline past)
    (hd' : schedule'.Finds ctx.deadline past) {R : Outcome → Outcome → Prop}
    (habandoned : R .abandoned .abandoned)
    (hjudge : ∀ r, R (Candidate.judge mix ctx.constraints r).value
      (Candidate.judge mix ctx'.constraints r).value) :
    List.Forall₂ R (results mix schedule ctx) (results mix schedule' ctx') := by
  rw [h.deadline] at hd'
  rw [results_of_finds hc hd, results_of_finds hc' hd', h.examined, List.forall₂_map_left_iff,
    List.forall₂_map_right_iff, List.forall₂_same]
  intro r _
  cases past with
  | true => exact habandoned
  | false => exact hjudge r

end SameCandidates

/-- A scan of the gap from either token, with more of the second. -/
def eitherSide : ScanContext :=
  { snapshot := some gap
    constraints :=
      { defaultAmount := 1000000000, startTokens := ["A", "B"], amounts := [("B", 100000000000)] } }

end Scan

end PoolArbitrage
