import Mathlib
import PoolArbitrage.Proofs.Findings
import PoolArbitrage.Proofs.Logging

/-!
# No candidate meets a defect

Some steps of the judgement look at what need not be there: the first token of a route, the hop
after a hop, the output of a hop, the decision on an amount that may be zero. A step that does not
find what it looks at is a defect, and its candidate would be counted as one that failed. It never
happens, on routes of any length and content.

**Walks.** An evaluation accounts for each hop it came to (`Evaluation.Accounts`): the pool of the
hop answered the amount before it by the output kept for it, and the first pool that refuses
answered by the refusal. This is an induction over the hops, the amount sent changing with each. So
the outputs end where the refusal is, and what looks at an output before that finds it.

**Estimates.** The curve figures stop at the hop that refuses and for its reason
(`Cost.stopped_curve`): they ask the same pools for the same amounts. So the search, which asks for
the costs only of amounts that go through, stops no estimate.

**Obligations.** `Candidate.Supplied` has one field for each step that could miss something. It
holds of every configuration and route (`Candidate.supplied`): a step is reached only with what the
steps before it have established.

**The log.** A defect is stated as an error, and no judgement states one
(`Candidate.errorless_judge`). So a scan that starts states no error at all.

**Theorem (`Scan.no_candidate_meets_a_defect`).** Each judgement comes to an outcome of its own, the
candidates counted as failed are those judged that a pool refuses, wherever the deadline came, and
each opportunity reported has an account.
-/

namespace PoolArbitrage

/-! ## What an evaluation accounts for -/

namespace Route

variable {r rest : Route} {hop : Hop} {amount out : Amount} {outs : List Amount} {i : Nat}
  {answer : Except SwapError Amount}

/-- The hop at a position, given the amount before it, was answered so by its pool: the amounts on
the way are what was sent and what each hop gave. -/
def Answers (r : Route) (amount : Amount) (outs : List Amount) (i : Nat)
    (answer : Except SwapError Amount) : Prop :=
  ∃ hop before, r[i]? = some hop ∧ (amount :: outs)[i]? = some before ∧
    hop.pool.output before = answer

theorem answers_zero (h : hop.pool.output amount = answer) :
    Answers (hop :: rest) amount outs 0 answer :=
  ⟨hop, amount, rfl, rfl, h⟩

/-- The rest of a route is sent what its first hop gave. -/
theorem Answers.succ (h : Answers rest out outs i answer) :
    Answers (hop :: rest) amount (out :: outs) (i + 1) answer := by
  obtain ⟨hop', before, hhop, hbefore, hanswer⟩ := h
  exact ⟨hop', before, hhop, hbefore, hanswer⟩

theorem flow_cons_of_ok (h : hop.pool.output amount = .ok out) (rest : Route) :
    flow amount (hop :: rest) = (out :: (flow out rest).1, (flow out rest).2) := by
  simp only [flow, h]

theorem flow_cons_of_error {e : SwapError} (h : hop.pool.output amount = .error e)
    (rest : Route) : flow amount (hop :: rest) = ([], some e) := by
  simp only [flow, h]

/-- Each output of a walk is what the pool of its hop answered. -/
theorem answers_of_mem_flow (h : (flow amount r).1[i]? = some out) :
    Answers r amount (flow amount r).1 i (.ok out) := by
  induction r generalizing amount i with
  | nil => cases h
  | cons hop rest ih =>
    cases hout : hop.pool.output amount with
    | error e =>
      rw [flow_cons_of_error hout] at h
      cases h
    | ok first =>
      rw [flow_cons_of_ok hout] at h ⊢
      -- The first output is the first pool's; the others are of a walk that was sent it.
      cases i with
      | zero =>
        cases h
        exact answers_zero hout
      | succ i => exact (ih h).succ

/-- A walk is broken off by what the pool of the hop after the last output answered. -/
theorem answers_of_flow_error {e : SwapError} (h : (flow amount r).2 = some e) :
    Answers r amount (flow amount r).1 (flow amount r).1.length (.error e) := by
  induction r generalizing amount with
  | nil => cases h
  | cons hop rest ih =>
    cases hout : hop.pool.output amount with
    | error e' =>
      rw [flow_cons_of_error hout] at h ⊢
      cases h
      exact answers_zero hout
    | ok first =>
      rw [flow_cons_of_ok hout] at h ⊢
      exact (ih h).succ

/-- A hop the guard finds broken has a hop after it, and they do not fit. -/
theorem exists_of_brokenAfter? (h : r.brokenAfter? = some i) :
    ∃ a b, r[i]? = some a ∧ r[i + 1]? = some b ∧ a.buys ≠ b.sells := by
  induction r generalizing i with
  | nil => cases h
  | cons a rest ih =>
    cases rest with
    | nil => cases h
    | cons b rest =>
      rw [brokenAfter?] at h
      split at h
      · obtain ⟨j, hj, rfl⟩ := Option.map_eq_some_iff.1 h
        exact ih hj
      · next hbroken =>
        cases h
        exact ⟨a, b, rfl, rfl, hbroken⟩

end Route

/-- **An evaluation accounts for each hop of the route it came to.** -/
structure Evaluation.Accounts (e : Evaluation) (r : Route) : Prop where
  bought : ∀ i out, e.outputs[i]? = some out → r.Answers e.amountIn e.outputs i (.ok out)
  refused : ∀ f, e.refusal = some f → r.Answers e.amountIn e.outputs f.hop (.error f.cause)
  walked : e.outputs.length = e.walked r
  within : e.walked r ≤ r.length

theorem Route.accounts_evaluate (r : Route) (amount : Amount) : (r.evaluate amount).Accounts r where
  bought i out h := by
    rw [outputs_evaluate] at h
    rw [amountIn_evaluate, outputs_evaluate]
    exact answers_of_mem_flow h
  refused f h := by
    rw [refusal_evaluate] at h
    obtain ⟨e, he, rfl⟩ := Option.map_eq_some_iff.1 h
    rw [amountIn_evaluate, outputs_evaluate]
    exact answers_of_flow_error he
  walked := Evaluation.length_outputs_eq_walked r amount
  within := Evaluation.walked_le r amount

/-! ## Where estimating stops -/

namespace Pool

variable {p : Pool} {amount out : Amount} {e : SwapError}

/-- A refused swap has no quotes, for the same reason. -/
theorem quotes_of_error (h : p.output amount = .error e) :
    p.slippage amount = .error e ∧ p.priceImpact amount = .error e := by
  rw [slippage, priceImpact, h]
  exact ⟨rfl, rfl⟩

/-- A swap that goes through has both quotes. -/
theorem exists_quotes (h : p.output amount = .ok out) :
    ∃ slippage impact, p.slippage amount = .ok slippage ∧ p.priceImpact amount = .ok impact := by
  have hslippage : ∃ figure, p.slippage amount = .ok figure := by
    simp only [slippage, h, bind, Except.bind]
    split_ifs <;> exact ⟨_, rfl⟩
  have himpact : ∃ figure, p.priceImpact amount = .ok figure := by
    simp only [priceImpact, h, bind, Except.bind]
    split_ifs <;> exact ⟨_, rfl⟩
  obtain ⟨slippage, hslippage⟩ := hslippage
  obtain ⟨impact, himpact⟩ := himpact
  exact ⟨slippage, impact, hslippage, himpact⟩

end Pool

namespace Cost

variable {soFar : CurveFigures} {inPlay amount : Amount} {i : Nat}

/-- The figures gathered so far have no part in where estimating stops. -/
theorem stopped_curveFrom (r : Route) (h : soFar.stopped = none) :
    (curveFrom soFar i inPlay amount r).stopped =
      (r.flow amount).2.map fun e => (i + (r.flow amount).1.length, e) := by
  induction r generalizing soFar i inPlay amount with
  | nil => exact h
  | cons hop rest ih =>
    cases hout : hop.pool.output amount with
    | error e =>
      obtain ⟨hslippage, himpact⟩ := Pool.quotes_of_error hout
      rw [Route.flow_cons_of_error hout]
      simp only [curveFrom, hslippage, himpact, hout]
      rfl
    | ok out =>
      -- The figures change with the hop, and with them what the induction is applied to.
      obtain ⟨slippage, impact, hslippage, himpact⟩ := Pool.exists_quotes hout
      rw [Route.flow_cons_of_ok hout]
      simp only [curveFrom, hslippage, himpact, hout, ih, List.length_cons]
      exact Option.map_congr fun e _ => by rw [Nat.add_right_comm, Nat.add_assoc]

/-- **Estimating stops at the hop that refuses, for its reason**, and nowhere else. -/
theorem stopped_curve (amount : Amount) (r : Route) :
    (curve amount r).stopped = (r.evaluate amount).refusal.map fun f => (f.hop, f.cause) := by
  rw [curve, stopped_curveFrom r rfl, Route.refusal_evaluate, Option.map_map]
  exact Option.map_congr fun e _ => congrArg (·, e) (Nat.zero_add _)

end Cost

/-! ## What the judgement looks at -/

namespace Candidate

variable {mix : Mixing} {c : Constraints} {r : Route}

/-- The route passes the guard and a pool on the way refuses its amount. -/
def Refused (c : Constraints) (r : Route) : Prop := Sized c r ∧ (evaluation c r).failed = true

instance (c : Constraints) (r : Route) : Decidable (Refused c r) :=
  decidable_of_iff
    ((r.check c.maxTokenRepeats = .ok ∧ tradedAmount c r ≠ 0) ∧ (evaluation c r).failed = true)
    (and_congr_left' ⟨fun h => ⟨h.1, h.2⟩, fun h => ⟨h.guarded, h.amount⟩⟩)

/-- **Each step finds what it looks at**: the guard and the steps after it, on the amount traded and
on any other the search may try. -/
structure Supplied (mix : Mixing) (c : Constraints) (r : Route) : Prop where
  hops : ∀ i, r.brokenAfter? = some i →
    ∃ a b, r[i]? = some a ∧ r[i + 1]? = some b ∧ a.buys ≠ b.sells
  start : r.check c.maxTokenRepeats = .ok → ∃ token, r.start? = some token
  walk : ∀ amount, (r.evaluate amount).Accounts r
  stress : ∀ amount, ∃ stress, (r.evaluate amount).stress? r = some stress
  curve : ∀ amount, (Cost.curve amount r).stopped =
    (r.evaluate amount).refusal.map fun f => (f.hop, f.cause)
  decision : Sized c r → assess (tradedAmount c r) (evaluation c r).finalOut (tradeCost c r).total
    c.minProfitBps.toUInt64 = .ok (assessment c r)
  opportunity : Evaluated c r → ∃ o, found? mix c r = some o

theorem supplied (mix : Mixing) (c : Constraints) (r : Route) : Supplied mix c r where
  hops _ h := Route.exists_of_brokenAfter? h
  start h := by
    cases r with
    | nil => exact absurd rfl (Route.ne_nil_of_check_eq_ok h)
    | cons hop rest => exact ⟨hop.sells, rfl⟩
  walk := r.accounts_evaluate
  stress amount := Option.isSome_iff_exists.1 (Evaluation.isSome_stress? r amount)
  curve amount := Cost.stopped_curve amount r
  decision h := if_neg h.amount
  opportunity h := Option.isSome_iff_exists.1 (isSome_found? h)

/-- The examination comes to the outcome the judgement reports. -/
theorem value_examine (mix : Mixing) (c : Constraints) (r : Route) :
    (examine mix c r).value = .ok (judge mix c r).value := by
  obtain ⟨outcome, hvalue, -⟩ := judged_examine mix c r
  rw [judge, Logged.value_bind, hvalue]
  rfl

end Candidate

namespace Opportunity

theorem isSome_hopLines {r : Route} {i : Nat} {sent : Amount} {outs : List Amount}
    (h : r.length ≤ outs.length) : (hopLines i sent r outs).isSome := by
  induction r generalizing i sent outs with
  | nil => rfl
  | cons hop rest ih =>
    cases outs with
    | nil => cases h
    | cons out outs =>
      have hrest : (hopLines (i + 1) out rest outs).isSome := ih (Nat.le_of_succ_le_succ h)
      obtain ⟨lines, hlines⟩ := Option.isSome_iff_exists.1 hrest
      simp [hopLines, hlines]

/-- An opportunity with an output for each hop has an account. -/
theorem isSome_describe? {o : Opportunity} (h : o.route.length ≤ o.outputs.length) :
    o.describe?.isSome := by
  have hlines : (hopLines 0 o.amountIn o.route o.outputs).isSome := isSome_hopLines h
  obtain ⟨hops, hhops⟩ := Option.isSome_iff_exists.1 hlines
  simp [describe?, describeAs?, hhops]

end Opportunity

/-! ## The scan -/

namespace Scan

variable {mix : Mixing} {schedule : Schedule} {ctx : ScanContext} {o : Opportunity}

/-- A reported opportunity holds an output for each hop. -/
theorem length_outputs_of_mem (h : o ∈ (withSchedule mix schedule ctx).value.opportunities) :
    o.outputs.length = o.route.length := by
  cases judged_of_mem_results (mem_results_of_mem_opportunities h) with
  | profitable hbear _ hfound =>
    have hlength := Evaluation.length_outputs hbear.goesThrough
    have houtputs : o.outputs = (Candidate.evaluation ctx.constraints o.route).outputs := by
      obtain ⟨_, _, _, _, _, ho⟩ := Candidate.found?_eq_some hfound
      rw [ho]
    rwa [houtputs]

/-- A scan that starts states no error. -/
theorem errorless_withSchedule (mix : Mixing) (schedule : Schedule) (h : Starts ctx) :
    (withSchedule mix schedule ctx).Errorless := by
  rw [withSchedule_of_starts mix schedule h]
  exact errorless_run mix schedule ctx

/-- The candidates counted as failed are those judged that a pool refuses. -/
theorem failed_eq_countP (mix : Mixing) (schedule : Schedule) (h : Starts ctx) :
    (withSchedule mix schedule ctx).value.failed =
      (judged schedule ctx).countP fun r => Candidate.Refused ctx.constraints r := by
  have hcounted : (withSchedule mix schedule ctx).value.failed =
      (results mix schedule ctx).countP (·.isFailed) := by
    rw [value_withSchedule_eq mix schedule h]
    rfl
  rw [hcounted, countP_results rfl]
  refine List.countP_congr fun r _ => ?_
  rw [decide_eq_true_iff]
  exact (Candidate.judged_judge mix ctx.constraints r).isFailed_iff

/-- **No candidate meets a defect.** Whatever the configuration and the route, each step finds what
it looks at, so each judgement comes to an outcome of its own. The candidates counted as failed are
those judged whose evaluation failed, whatever runs and wherever the deadline comes; under a
complete schedule that is in time they are those examined. No error is stated, and each opportunity
reported has an account. -/
theorem no_candidate_meets_a_defect (mix : Mixing) (schedule : Schedule) (ctx : ScanContext) :
    (∀ r, Candidate.Supplied mix ctx.constraints r ∧
      (Candidate.examine mix ctx.constraints r).value =
        .ok (Candidate.judge mix ctx.constraints r).value) ∧
    (∀ o ∈ (withSchedule mix schedule ctx).value.opportunities, o.describe?.isSome) ∧
    (Starts ctx →
      (∀ limit, ∀ m ∈ (withSchedule mix schedule ctx).messages limit, m.level ≠ .error) ∧
      (withSchedule mix schedule ctx).value.failed =
        (judged schedule ctx).countP fun r => Candidate.Refused ctx.constraints r) ∧
    ∀ past, schedule.Complete → schedule.Finds ctx.deadline past →
      judged schedule ctx = if past then [] else examined ctx := by
  refine ⟨fun r => ⟨Candidate.supplied mix ctx.constraints r, ?_⟩, fun o ho => ?_,
    fun hstarts => ⟨?_, failed_eq_countP mix schedule hstarts⟩, fun _ => judgedOf_of_finds⟩
  · exact Candidate.value_examine mix ctx.constraints r
  · exact Opportunity.isSome_describe? (length_outputs_of_mem ho).ge
  · exact (errorless_withSchedule mix schedule hstarts).messages

/-- The gap, and two candidates given besides: one sells into an empty pool, one has no hops. -/
def gapAndHole : ScanContext :=
  { gapContext with
    routes :=
      [[⟨"A", "B", ⟨0, 1000, 30, .constantProduct⟩, "first", "e"⟩,
        ⟨"B", "A", ⟨1000, 1000, 30, .constantProduct⟩, "second", "f"⟩], []] }

/-- Of the four candidates one is counted as failed, the one a pool refuses, and one is reported and
has an account. -/
theorem defects_of_gapAndHole :
    let report := (withSchedule rolling .still gapAndHole).value
    (examined gapAndHole).length = 4 ∧ report.failed = 1 ∧
      (∃ o ∈ report.opportunities, o.describe?.isSome) ∧
      ∀ m ∈ (withSchedule rolling .still gapAndHole).messages .trace, m.level ≠ .error := by
  intro report
  have hstarts : Starts gapAndHole := ⟨by decide +kernel, .inl rfl⟩
  obtain ⟨-, hdescribed, hbooks, hall⟩ := no_candidate_meets_a_defect rolling .still gapAndHole
  obtain ⟨hsilent, hfailed⟩ := hbooks hstarts
  rw [hall false Schedule.complete_still (Schedule.finds_none _)] at hfailed
  have hrefused : ((examined gapAndHole).countP fun r =>
      Candidate.Refused gapAndHole.constraints r) = 1 := by decide +kernel
  have hopportunities := (balanced_of_starts rolling .still hstarts).opportunities
  have hfound : ((results rolling .still gapAndHole).filterMap (·.opportunity?)).length = 1 := by
    decide +kernel
  rw [hfound] at hopportunities
  obtain ⟨o, ho⟩ := List.length_eq_one_iff.1 hopportunities
  have hmem : o ∈ report.opportunities := by
    rw [ho]
    exact List.mem_singleton_self o
  exact ⟨by decide +kernel, hfailed.trans hrefused, ⟨o, hmem, hdescribed o hmem⟩, hsilent .trace⟩

end Scan

end PoolArbitrage
