import Mathlib
import PoolArbitrage.Proofs.Decision
import PoolArbitrage.Proofs.Flow
import PoolArbitrage.Scan.Report

/-!
# What the judgement of a candidate comes to

A candidate passes the guard, gets an amount, is evaluated, checked for stress and decided on; the
first step that speaks against it settles its outcome. `Candidate.Judged` lists the ways this can
go, each with all that was found on the way. **Theorem (`Candidate.judged_judge`).** The judgement
goes one of these ways. In particular no defect is ever met: every output, stress and confidence
that is looked at is there.

A candidate that pays can be told without the judgement. `Candidate.Qualifies` says it in exact
integers, and `Candidate.Entry` says what is then reported.
**Theorems (`Candidate.opportunity?_judge_of_qualifies` and `…_of_not_qualifies`).** The judgement
finds an opportunity exactly for the candidates that qualify, and reports what it should.

An outcome tells which way the judgement went, so what is counted by outcome is counted by what
was found on the way (`Candidate.Judged.isFailed_iff` and its neighbours).
-/

namespace PoolArbitrage

/-! ## Nothing that is looked at is missing -/

theorem isSome_mapM {α β : Type} {f : α → Option β} {as : List α}
    (h : ∀ a ∈ as, (f a).isSome) : (as.mapM f).isSome := by
  induction as with
  | nil => rfl
  | cons a as ih =>
    obtain ⟨b, hb⟩ := Option.isSome_iff_exists.1 (h a List.mem_cons_self)
    obtain ⟨bs, hbs⟩ := Option.isSome_iff_exists.1 (ih fun x hx => h x (List.mem_cons_of_mem _ hx))
    simp [List.mapM_cons, hb, hbs]

namespace Evaluation

variable {r : Route} {amount : Amount}

/-- There is an output for each hop walked, whether or not a pool refuses on the way. -/
theorem length_outputs_eq_walked (r : Route) (amount : Amount) :
    (r.evaluate amount).outputs.length = (r.evaluate amount).walked r := by
  rw [walked, Route.outputs_evaluate, Route.refusal_evaluate]
  cases hend : (r.flow amount).2 with
  | none => exact Route.length_outputs_of_ok hend
  | some e => rfl

theorem walked_le (r : Route) (amount : Amount) : (r.evaluate amount).walked r ≤ r.length := by
  rw [← length_outputs_eq_walked, Route.outputs_evaluate]
  exact r.outputs_length_le amount

/-- An evaluation to the end has an output for each hop. -/
theorem length_outputs (h : (r.evaluate amount).failed = false) :
    (r.evaluate amount).outputs.length = r.length := by
  rw [length_outputs_eq_walked, walked, refusal_eq_none h]
  rfl

theorem isSome_hopStress? {i : Nat} (hi : i < (r.evaluate amount).walked r) :
    ((r.evaluate amount).hopStress? r i).isSome := by
  have hroute : i < r.length := Nat.lt_of_lt_of_le hi (walked_le r amount)
  rw [hopStress?, List.getElem?_eq_getElem hroute]
  by_cases hzero : r[i].pool.reserveIn = 0
  · simp [hzero]
  · cases i with
    | zero => simp [hzero, amountBefore?]
    | succ i =>
      rw [← length_outputs_eq_walked] at hi
      have hbefore : i < (r.evaluate amount).outputs.length := Nat.lt_of_succ_lt hi
      simp [hzero, amountBefore?, List.getElem?_eq_getElem hbefore]

/-- Every evaluation has a stress, that of the hops walked. -/
theorem isSome_stress? (r : Route) (amount : Amount) :
    ((r.evaluate amount).stress? r).isSome := by
  rw [stress?, Option.isSome_map]
  exact isSome_mapM fun i hi => isSome_hopStress? (List.mem_range.1 hi)

theorem isSome_confidence? (r : Route) (amount : Amount) (reference : Float) :
    ((r.evaluate amount).confidence? r reference).isSome := by
  obtain ⟨worst, hworst⟩ := Option.isSome_iff_exists.1 (isSome_stress? r amount)
  by_cases hfail : (r.evaluate amount).failed = true <;> simp [confidence?, hfail, hworst]

end Evaluation

namespace Route

variable {r : Route} {repeats : UInt32}

theorem check_eq_ok : r.check repeats = .ok ↔ r.fault? repeats = none := by
  rw [check]
  cases r.fault? repeats with
  | none => simp
  | some f => cases f <;> simp [RouteFault.kind]

theorem ne_nil_of_check_eq_ok (h : r.check repeats = .ok) : r ≠ [] := by
  rintro rfl
  simp [check, fault?, minHops, RouteFault.kind] at h

end Route

namespace Candidate

variable {mix : Mixing} {c : Constraints} {r : Route} {o : Opportunity}

/-! ## The figures a candidate is judged by -/

/-- The amount a route is traded with: searched, or the one of its start token. -/
def tradedAmount (c : Constraints) (r : Route) : Amount :=
  if c.optimize then Search.best c.costs r c.searchMin c.searchMax Search.defaultLevels
  else (r.start?.map c.amountFor).getD 0

/-- The evaluation of a route at the amount it is traded with. -/
def evaluation (c : Constraints) (r : Route) : Evaluation := r.evaluate (tradedAmount c r)

/-- What trading a route costs. -/
def tradeCost (c : Constraints) (r : Route) : CostBreakdown :=
  Cost.breakdown c.costs (tradedAmount c r) r

/-- The decision on a route. -/
def assessment (c : Constraints) (r : Route) : Assessment :=
  .of (tradedAmount c r) (evaluation c r).finalOut (tradeCost c r).total c.minProfitBps.toUInt64

/-- The opportunity a route is, taken to be one that pays. -/
def found? (mix : Mixing) (c : Constraints) (r : Route) : Option Opportunity :=
  opportunity? mix c r (tradedAmount c r) (evaluation c r) (tradeCost c r) (assessment c r)

/-- The route passes the guard and has an amount. -/
structure Sized (c : Constraints) (r : Route) : Prop where
  guarded : r.check c.maxTokenRepeats = .ok
  amount : tradedAmount c r ≠ 0

/-- The amount goes through all pools. -/
structure Evaluated (c : Constraints) (r : Route) : Prop extends Sized c r where
  goesThrough : (evaluation c r).failed = false

/-- The pools can bear the amount. -/
structure Bearable (c : Constraints) (r : Route) : Prop extends Evaluated c r where
  unstressed : ∃ stress, (evaluation c r).stress? r = some stress ∧ overstressed c stress = false

/-- **The ways a judgement can go.** -/
inductive Judged (mix : Mixing) (c : Constraints) (r : Route) : Outcome → Prop
  | rejectedByGuard : r.check c.maxTokenRepeats ≠ .ok → Judged mix c r .rejectedByGuard
  | noAmount : r.check c.maxTokenRepeats = .ok → tradedAmount c r = 0 → Judged mix c r .noAmount
  | failed : Sized c r → (evaluation c r).failed = true → Judged mix c r .failed
  | rejectedByStress {stress : Float} : Evaluated c r →
      (evaluation c r).stress? r = some stress → overstressed c stress = true →
      Judged mix c r .rejectedByStress
  | unprofitable : Bearable c r → (assessment c r).profitable = false → Judged mix c r .unprofitable
  | profitable {o : Opportunity} : Bearable c r → (assessment c r).profitable = true →
      found? mix c r = some o → Judged mix c r (.profitable o)

/-! ## The judgement -/

theorem value_amount {start : Token} (h : r.start? = some start) :
    (amount c r start).value = tradedAmount c r := by
  rw [amount, tradedAmount, h]
  split
  · exact Search.value_bestLogged ..
  · rfl

theorem isSome_withPrices {amount : Amount} {e : Evaluation} (h : e.outputs.length = r.length) :
    (withPrices o r amount e).isSome := by
  unfold withPrices
  split
  · -- Two hops have two outputs, so the one between them is there.
    cases hout : e.outputs with
    | nil => simp [hout] at h
    | cons between outs => rfl
  · rfl

theorem isSome_found? (h : Evaluated c r) : (found? mix c r).isSome := by
  obtain ⟨confidence, hconf⟩ := Option.isSome_iff_exists.1
    (Evaluation.isSome_confidence? r (tradedAmount c r) c.maxStress)
  have hconf' : (evaluation c r).confidence? r c.maxStress = some confidence := hconf
  simp only [found?, opportunity?, hconf', Option.bind_eq_bind, Option.bind_some]
  exact isSome_withPrices (Evaluation.length_outputs h.goesThrough)

theorem judged_decide {start : Token} (h : Bearable c r) :
    ∃ outcome, (decide mix c r start (tradedAmount c r) (evaluation c r)).value = .ok outcome ∧
      Judged mix c r outcome := by
  have hassess : assess (tradedAmount c r) (evaluation c r).finalOut (tradeCost c r).total
      c.minProfitBps.toUInt64 = .ok (assessment c r) := if_neg h.amount
  simp only [decide, Logged.value_bind, Cost.value_breakdownLogged, assessLogged,
    Logged.value_pure]
  rw [show Cost.breakdown c.costs (tradedAmount c r) r = tradeCost c r from rfl, hassess]
  by_cases hpays : (assessment c r).profitable = true
  · obtain ⟨o, ho⟩ := Option.isSome_iff_exists.1 (isSome_found? h.toEvaluated)
    have ho' : opportunity? mix c r (tradedAmount c r) (evaluation c r) (tradeCost c r)
        (assessment c r) = some o := ho
    simp only [if_pos hpays, ho']
    exact ⟨_, rfl, .profitable h hpays ho⟩
  · simp only [if_neg hpays]
    exact ⟨_, rfl, .unprofitable h (Bool.eq_false_iff.2 hpays)⟩

theorem judged_trade {start : Token} (h : Sized c r) :
    ∃ outcome, (trade mix c r start (tradedAmount c r)).value = .ok outcome ∧
      Judged mix c r outcome := by
  rw [trade, show r.evaluate (tradedAmount c r) = evaluation c r from rfl]
  by_cases hfail : (evaluation c r).failed = true
  · simp only [if_pos hfail]
    exact ⟨_, rfl, .failed h hfail⟩
  · have heval : Evaluated c r := ⟨h, Bool.eq_false_iff.2 hfail⟩
    obtain ⟨stress, hstress⟩ := Option.isSome_iff_exists.1
      (Evaluation.isSome_stress? r (tradedAmount c r))
    rw [show (r.evaluate (tradedAmount c r)) = evaluation c r from rfl] at hstress
    simp only [if_neg hfail, hstress]
    by_cases hover : overstressed c stress = true
    · simp only [if_pos hover]
      exact ⟨_, rfl, .rejectedByStress heval hstress hover⟩
    · simp only [if_neg hover]
      exact judged_decide ⟨heval, stress, hstress, Bool.eq_false_iff.2 hover⟩

theorem judged_examine (mix : Mixing) (c : Constraints) (r : Route) :
    ∃ outcome, (examine mix c r).value = .ok outcome ∧ Judged mix c r outcome := by
  rw [examine]
  cases hfault : r.fault? c.maxTokenRepeats with
  | some f =>
    refine ⟨_, rfl, .rejectedByGuard fun h => ?_⟩
    rw [Route.check_eq_ok, hfault] at h
    cases h
  | none =>
    have hok : r.check c.maxTokenRepeats = .ok := Route.check_eq_ok.2 hfault
    cases r with
    | nil => exact absurd rfl (Route.ne_nil_of_check_eq_ok hok)
    | cons hop rest =>
      simp only [Route.start?, List.head?_cons, Option.map_some, Logged.value_bind]
      rw [value_amount (show Route.start? (hop :: rest) = some hop.sells from rfl)]
      by_cases hzero : tradedAmount c (hop :: rest) = 0
      · simp only [if_pos hzero]
        exact ⟨_, rfl, .noAmount hok hzero⟩
      · simp only [if_neg hzero]
        exact judged_trade ⟨hok, hzero⟩

/-- **The judgement of a candidate goes one of the ways it can go.** -/
theorem judged_judge (mix : Mixing) (c : Constraints) (r : Route) :
    Judged mix c r (judge mix c r).value := by
  obtain ⟨outcome, hvalue, hjudged⟩ := judged_examine mix c r
  rw [judge, Logged.value_bind, hvalue]
  exact hjudged

/-! ## Which way it goes -/

namespace Judged

variable {outcome : Outcome}

theorem isRejectedByGuard_iff (h : Judged mix c r outcome) :
    outcome.isRejectedByGuard = true ↔ r.check c.maxTokenRepeats ≠ .ok := by
  cases h with
  | rejectedByGuard hguard => exact iff_of_true rfl hguard
  | noAmount hok _ => exact iff_of_false Bool.false_ne_true (not_not_intro hok)
  | failed hsized _ => exact iff_of_false Bool.false_ne_true (not_not_intro hsized.guarded)
  | rejectedByStress heval _ _ =>
    exact iff_of_false Bool.false_ne_true (not_not_intro heval.guarded)
  | unprofitable hbear _ => exact iff_of_false Bool.false_ne_true (not_not_intro hbear.guarded)
  | profitable hbear _ _ => exact iff_of_false Bool.false_ne_true (not_not_intro hbear.guarded)

theorem isNoAmount_iff (h : Judged mix c r outcome) :
    outcome.isNoAmount = true ↔ r.check c.maxTokenRepeats = .ok ∧ tradedAmount c r = 0 := by
  cases h with
  | rejectedByGuard hguard => exact iff_of_false Bool.false_ne_true fun h => hguard h.1
  | noAmount hok hzero => exact iff_of_true rfl ⟨hok, hzero⟩
  | failed hsized _ => exact iff_of_false Bool.false_ne_true fun h => hsized.amount h.2
  | rejectedByStress heval _ _ => exact iff_of_false Bool.false_ne_true fun h => heval.amount h.2
  | unprofitable hbear _ => exact iff_of_false Bool.false_ne_true fun h => hbear.amount h.2
  | profitable hbear _ _ => exact iff_of_false Bool.false_ne_true fun h => hbear.amount h.2

theorem isFailed_iff (h : Judged mix c r outcome) :
    outcome.isFailed = true ↔ Sized c r ∧ (evaluation c r).failed = true := by
  have hthrough : Evaluated c r → ¬ (Sized c r ∧ (evaluation c r).failed = true) := by
    intro heval hfail
    rw [heval.goesThrough] at hfail
    exact Bool.false_ne_true hfail.2
  cases h with
  | rejectedByGuard hguard => exact iff_of_false Bool.false_ne_true fun h => hguard h.1.guarded
  | noAmount _ hzero => exact iff_of_false Bool.false_ne_true fun h => h.1.amount hzero
  | failed hsized hfail => exact iff_of_true rfl ⟨hsized, hfail⟩
  | rejectedByStress heval _ _ => exact iff_of_false Bool.false_ne_true (hthrough heval)
  | unprofitable hbear _ => exact iff_of_false Bool.false_ne_true (hthrough hbear.toEvaluated)
  | profitable hbear _ _ => exact iff_of_false Bool.false_ne_true (hthrough hbear.toEvaluated)

end Judged

/-! ## Candidates that pay -/

/-- **A candidate that pays**, in exact integers: it is judged to the end, brings more than it took
and cost, and what it brings reaches the threshold as a part of what it took. -/
structure Qualifies (c : Constraints) (r : Route) : Prop extends Bearable c r where
  gains : (tradedAmount c r).toNat + (tradeCost c r).total.toNat < (evaluation c r).finalOut.toNat
  reaches : c.minProfitBps.toInt * (tradedAmount c r).toNat ≤
    ((evaluation c r).finalOut.toNat - (tradedAmount c r).toNat - (tradeCost c r).total.toNat) *
      (whole : Int)

instance (c : Constraints) (r : Route) : Decidable (Qualifies c r) :=
  decidable_of_iff
    (r.check c.maxTokenRepeats = .ok ∧ tradedAmount c r ≠ 0 ∧ (evaluation c r).failed = false ∧
      ((evaluation c r).stress? r).any (fun stress => !overstressed c stress) = true ∧
      (tradedAmount c r).toNat + (tradeCost c r).total.toNat < (evaluation c r).finalOut.toNat ∧
      c.minProfitBps.toInt * (tradedAmount c r).toNat ≤
        ((evaluation c r).finalOut.toNat - (tradedAmount c r).toNat - (tradeCost c r).total.toNat) *
          (whole : Int)) <| by
    have hstress : ((evaluation c r).stress? r).any (fun stress => !overstressed c stress) = true ↔
        ∃ stress, (evaluation c r).stress? r = some stress ∧ overstressed c stress = false := by
      cases (evaluation c r).stress? r <;> simp
    rw [hstress]
    constructor
    · intro h
      obtain ⟨hguard, hamount, hthrough, hunstressed, hgains, hreaches⟩ := h
      exact ⟨⟨⟨⟨hguard, hamount⟩, hthrough⟩, hunstressed⟩, hgains, hreaches⟩
    · intro h
      obtain ⟨⟨⟨⟨hguard, hamount⟩, hthrough⟩, hunstressed⟩, hgains, hreaches⟩ := h
      exact ⟨hguard, hamount, hthrough, hunstressed, hgains, hreaches⟩

/-- **What is reported of a candidate that pays**: its amounts and costs, and its profits as exact
differences. -/
structure Entry (mix : Mixing) (c : Constraints) (r : Route) (o : Opportunity) : Prop where
  route : o.route = r
  id : o.id = r.id mix
  amountIn : o.amountIn = tradedAmount c r
  outputs : o.outputs = (evaluation c r).outputs
  grossOut : o.grossOut = (evaluation c r).finalOut
  cost : o.cost = tradeCost c r
  grossProfit : (o.grossProfit.toNat : Int) =
    (evaluation c r).finalOut.toNat - (tradedAmount c r).toNat
  netProfit : (o.netProfit.toNat : Int) =
    (evaluation c r).finalOut.toNat - (tradedAmount c r).toNat - (tradeCost c r).total.toNat
  netBps : o.netBps.toNat =
    min (o.netProfit.toNat * whole / (tradedAmount c r).toNat) (UInt64.size - 1)
  verdict : o.verdict = .profitable
  profitable : o.profitable = true

theorem amount_pos (h : Sized c r) : 0 < tradedAmount c r := UInt64.pos_iff_ne_zero.2 h.amount

theorem toNat_toUInt64 {x : Int64} (h : 0 ≤ x) : (x.toUInt64.toNat : Int) = x.toInt := by
  have hle : (0 : Int) ≤ x.toInt := by simpa using Int64.le_iff_toInt_le.1 h
  rw [Int64.toNat_toUInt64_of_le h, ← Int64.toNat_toInt, Int.toNat_of_nonneg hle]

/-- Where something is gained, no difference stops at zero: the threshold is reached in `Nat`
exactly when it is reached in exact integers. -/
theorem reaches_iff {least : Int64} {amount cost out : Nat} (hmin : 0 ≤ least)
    (hgains : amount + cost < out) :
    least.toUInt64.toNat * amount ≤ (out - amount - cost) * whole ↔
      least.toInt * amount ≤ ((out : Int) - amount - cost) * whole := by
  have hamount : amount ≤ out := by omega
  have hcost : cost ≤ out - amount := by omega
  rw [← toNat_toUInt64 hmin]
  zify [hamount, hcost]

theorem profitable_assessment_iff (hmin : 0 ≤ c.minProfitBps) (h : Bearable c r) :
    (assessment c r).profitable = true ↔ Qualifies c r := by
  rw [assessment, Assessment.profitable_of_iff (amount_pos h.toSized)]
  constructor
  · intro hpays
    obtain ⟨hgains, hreaches⟩ := hpays
    exact ⟨h, hgains, (reaches_iff hmin hgains).1 hreaches⟩
  · intro hq
    exact ⟨hq.gains, (reaches_iff hmin hq.gains).2 hq.reaches⟩

/-- Prices and exchanges apart, an opportunity is what the judgement has found. -/
theorem withPrices_eq_some {amount : Amount} {e : Evaluation} {o' : Opportunity}
    (h : withPrices o r amount e = some o') :
    ∃ buyExchange sellExchange buyPrice sellPrice,
      o' = { o with buyExchange, sellExchange, buyPrice, sellPrice } := by
  unfold withPrices at h
  split at h
  · split at h
    · cases h
    · cases h
      exact ⟨_, _, _, _, rfl⟩
  · cases h
    exact ⟨_, _, _, _, rfl⟩

theorem found?_eq_some (h : found? mix c r = some o) :
    ∃ buyExchange sellExchange buyPrice sellPrice confidence,
      o = { route := r, id := r.id mix, buyExchange, sellExchange, buyPrice, sellPrice,
            amountIn := tradedAmount c r, grossOut := (evaluation c r).finalOut,
            grossProfit := (assessment c r).grossProfit, cost := tradeCost c r,
            netProfit := (assessment c r).netProfit, netBps := (assessment c r).netBps,
            profitable := (assessment c r).profitable, verdict := (assessment c r).verdict,
            outputs := (evaluation c r).outputs, confidence } := by
  obtain ⟨confidence, -, hprices⟩ := Option.bind_eq_some_iff.1 h
  obtain ⟨buyExchange, sellExchange, buyPrice, sellPrice, ho⟩ := withPrices_eq_some hprices
  exact ⟨buyExchange, sellExchange, buyPrice, sellPrice, confidence, ho⟩

theorem route_of_found? (h : found? mix c r = some o) : o.route = r := by
  obtain ⟨_, _, _, _, _, rfl⟩ := found?_eq_some h
  rfl

/-- The opportunity found in a candidate is of its route. -/
theorem route_of_judge (h : (judge mix c r).value.opportunity? = some o) : o.route = r := by
  have hjudged := judged_judge mix c r
  generalize (judge mix c r).value = outcome at h hjudged
  cases hjudged with
  | profitable _ _ ho =>
    cases h
    exact route_of_found? ho
  | _ => cases h

theorem toNat_grossProfit_assessment (h : Qualifies c r) :
    ((assessment c r).grossProfit.toNat : Int) =
      (evaluation c r).finalOut.toNat - (tradedAmount c r).toNat := by
  have hgains := h.gains
  rw [assessment, Assessment.toNat_grossProfit_of]
  omega

theorem toNat_netProfit_assessment (h : Qualifies c r) :
    ((assessment c r).netProfit.toNat : Int) =
      (evaluation c r).finalOut.toNat - (tradedAmount c r).toNat - (tradeCost c r).total.toNat := by
  have hgains := h.gains
  rw [assessment, Assessment.of_netProfit]
  omega

theorem entry_of_found? (hq : Qualifies c r) (hpays : (assessment c r).profitable = true)
    (h : found? mix c r = some o) : Entry mix c r o := by
  obtain ⟨_, _, _, _, _, rfl⟩ := found?_eq_some h
  exact {
    route := rfl
    id := rfl
    amountIn := rfl
    outputs := rfl
    grossOut := rfl
    cost := rfl
    grossProfit := toNat_grossProfit_assessment hq
    netProfit := toNat_netProfit_assessment hq
    netBps := Assessment.toNat_netBps_of _ _ _ c.minProfitBps.toUInt64
    verdict := of_decide_eq_true hpays
    profitable := hpays }

/-- **The judgement finds an opportunity in every candidate that pays**, and reports it right. -/
theorem opportunity?_judge_of_qualifies (hmin : 0 ≤ c.minProfitBps) (h : Qualifies c r) :
    ∃ o, (judge mix c r).value.opportunity? = some o ∧ Entry mix c r o := by
  have hpays := (profitable_assessment_iff hmin h.toBearable).2 h
  generalize hvalue : (judge mix c r).value = outcome
  have hjudged : Judged mix c r outcome := hvalue ▸ judged_judge mix c r
  cases hjudged with
  | rejectedByGuard hguard => exact absurd h.guarded hguard
  | noAmount _ hzero => exact absurd hzero h.amount
  | failed _ hfail => simp [h.goesThrough] at hfail
  | rejectedByStress _ hstress hover =>
    obtain ⟨stress, hstress', hunder⟩ := h.unstressed
    rw [hstress] at hstress'
    cases hstress'
    simp [hunder] at hover
  | unprofitable _ hnot => simp [hpays] at hnot
  | profitable _ _ ho => exact ⟨_, rfl, entry_of_found? h hpays ho⟩

/-- **The judgement finds no other opportunities.** -/
theorem opportunity?_judge_of_not_qualifies (hmin : 0 ≤ c.minProfitBps) (h : ¬ Qualifies c r) :
    (judge mix c r).value.opportunity? = none := by
  generalize hvalue : (judge mix c r).value = outcome
  have hjudged : Judged mix c r outcome := hvalue ▸ judged_judge mix c r
  cases hjudged with
  | profitable hbear hpays _ => exact absurd ((profitable_assessment_iff hmin hbear).1 hpays) h
  | _ => rfl

end Candidate

end PoolArbitrage
