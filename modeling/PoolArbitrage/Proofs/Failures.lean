import Mathlib
import PoolArbitrage.Proofs.Defects

/-!
# Where an evaluation breaks off

A swap is refused just where its pool has a fault, and for that fault (`Pool.output_eq_error`). The
fault is of the pool alone: no amount brings it about and none avoids it. A swap that would drain
its pool is refused too, but the curve stays below the reserve, so there is none.

So a walk breaks off at the first hop with a fault, wherever the amount has gone by then. What it
gave before is what the hops before it give (`Route.flow_of_fault`, by induction over these hops),
and the whole evaluation follows in one equation (`Route.evaluate_of_fault`).

**Theorem (`Route.failures_are_of_the_route`).** Whether an evaluation fails, where and why, depends
on the route alone. One that fails keeps the outputs of the hops before the first fault; one that
does not has an output for each hop.
-/

namespace PoolArbitrage

namespace Pool

variable {p : Pool} {a : Amount} {e : SwapError}

/-- A swap is refused just where the pool has a fault, and for that fault. -/
theorem output_eq_error : p.output a = .error e ↔ p.fault? = some e := by
  cases hf : p.fault? with
  | some fault => simp [output, hf]
  | none =>
    obtain ⟨out, hout, -⟩ := output_eq hf a
    simp [hout]

/-- A fault is never a lack of liquidity. -/
theorem kind_of_fault? (h : p.fault? = some e) : e.kind = .invalidReserves := by
  unfold fault? at h
  split_ifs at h with hempty hfee
  · cases h; rfl
  · cases h; rfl

end Pool

/-- The pool of the hop trades nothing: a reserve is empty, or the fee is more than the whole. -/
def Hop.Faulty (h : Hop) : Prop :=
  h.pool.reserveIn = 0 ∨ h.pool.reserveOut = 0 ∨ whole < h.pool.fee.toNat

theorem Hop.faulty_iff {h : Hop} : h.Faulty ↔ h.pool.fault? ≠ none :=
  Pool.fault?_ne_none_iff.symm

theorem Hop.not_faulty_iff {h : Hop} : ¬ h.Faulty ↔ h.pool.fault? = none := by
  rw [faulty_iff, not_not]

/-- The amount before a hop is what was sent or what the hop before gave. -/
theorem Evaluation.amountBefore?_eq (e : Evaluation) (i : Nat) :
    e.amountBefore? i = (e.amountIn :: e.outputs)[i]? := by
  cases i with
  | zero => rfl
  | succ i => rfl

namespace Route

variable {r before rest : Route} {hop : Hop} {amount : Amount} {e : SwapError}

/-! ## The first fault -/

/-- A route with a fault splits at the first one. -/
theorem exists_first_fault (h : ∃ hop ∈ r, hop.pool.fault? ≠ none) :
    ∃ before hop rest e, r = before ++ hop :: rest ∧ hop.pool.fault? = some e ∧
      ∀ h ∈ before, h.pool.fault? = none := by
  cases hfound : r.findSome? (·.pool.fault?) with
  | none =>
    obtain ⟨hop, hmem, hfault⟩ := h
    exact absurd (List.findSome?_eq_none_iff.1 hfound hop hmem) hfault
  | some e =>
    obtain ⟨before, hop, rest, hsplit, hfault, hbefore⟩ := List.findSome?_eq_some_iff.1 hfound
    exact ⟨before, hop, rest, e, hsplit, hfault, hbefore⟩

/-- **A walk gives what the hops before the first fault give, and breaks off there.** -/
theorem flow_of_fault (hbefore : ∀ h ∈ before, h.pool.fault? = none)
    (hfault : hop.pool.fault? = some e) (rest : Route) (amount : Amount) :
    flow amount (before ++ hop :: rest) = ((flow amount before).1, some e) := by
  induction before generalizing amount with
  | nil => exact flow_cons_of_error (Pool.output_eq_error.2 hfault) rest
  | cons first before ih =>
    rw [List.forall_mem_cons] at hbefore
    obtain ⟨out, hout, -⟩ := Pool.output_eq hbefore.1 amount
    rw [List.cons_append, flow_cons_of_ok hout, flow_cons_of_ok hout, ih hbefore.2]

theorem not_failed_of_no_fault (h : ∀ hop ∈ r, hop.pool.fault? = none) (amount : Amount) :
    (r.evaluate amount).failed = false := by
  rw [Bool.eq_false_iff, Ne, failed_evaluate_iff]
  push Not
  exact h

theorem evaluate_of_fault (hbefore : ∀ h ∈ before, h.pool.fault? = none)
    (hfault : hop.pool.fault? = some e) (rest : Route) (amount : Amount) :
    (before ++ hop :: rest).evaluate amount =
      { amountIn := amount
        outputs := (before.evaluate amount).outputs
        refusal := some ⟨before.length, e⟩ } := by
  have hlength := Evaluation.length_outputs (not_failed_of_no_fault hbefore amount)
  rw [outputs_evaluate] at hlength ⊢
  rw [evaluate, flow_of_fault hbefore hfault, ← hlength]

/-! ## The two endings -/

/-- How an evaluation that fails has ended: at the first faulty hop, with the outputs of the hops
before it and nothing at the end. -/
structure BreaksOff (r : Route) (e : Evaluation) : Prop where
  faulty : ∃ hop, r[e.failedHop]? = some hop ∧ hop.Faulty
  first : ∀ hop ∈ r.take e.failedHop, ¬ hop.Faulty
  error : e.error = .invalidReserves
  length_outputs : e.outputs.length = e.failedHop
  outputs : e.outputs = (evaluate (r.take e.failedHop) e.amountIn).outputs
  finalOut : e.finalOut = 0

/-- How an evaluation that does not fail has ended: each hop has bought its output for the amount
before it, and the last output is what came out. -/
structure GoesThrough (r : Route) (e : Evaluation) : Prop where
  error : e.error = .ok
  length_outputs : e.outputs.length = r.length
  bought : ∀ i hop, r[i]? = some hop → ∃ sold out, e.amountBefore? i = some sold ∧
    e.outputs[i]? = some out ∧ hop.pool.output sold = .ok out ∧ out < hop.pool.reserveOut
  finalOut : e.finalOut = e.outputs.getLast?.getD e.amountIn

theorem breaksOff_evaluate (h : ∃ hop ∈ r, hop.pool.fault? ≠ none) (amount : Amount) :
    r.BreaksOff (r.evaluate amount) := by
  obtain ⟨before, hop, rest, e, rfl, hfault, hbefore⟩ := exists_first_fault h
  have hat : (before ++ hop :: rest)[before.length]? = some hop := by simp
  have htake : (before ++ hop :: rest).take before.length = before := List.take_left' rfl
  have hfaulty : hop.Faulty := Hop.faulty_iff.2 (by simp [hfault])
  rw [evaluate_of_fault hbefore hfault]
  exact
    { faulty := ⟨hop, hat, hfaulty⟩
      first := fun h hmem => Hop.not_faulty_iff.2 (hbefore h (htake ▸ hmem))
      error := congrArg EvalErrorKind.ofSwap (Pool.kind_of_fault? hfault)
      length_outputs := Evaluation.length_outputs (not_failed_of_no_fault hbefore amount)
      outputs := congrArg (fun route => (evaluate route amount).outputs) htake.symm
      finalOut := rfl }

theorem goesThrough_evaluate (h : (r.evaluate amount).failed = false) :
    r.GoesThrough (r.evaluate amount) := by
  obtain ⟨-, hlast⟩ := flow_of_not_failed h
  have hlength := Evaluation.length_outputs h
  constructor
  case error => rw [Evaluation.error, Evaluation.refusal_eq_none h]; rfl
  case length_outputs => exact hlength
  case bought =>
    intro i hop hhop
    have hi : i < (r.evaluate amount).outputs.length := by
      rw [hlength]
      exact (List.getElem?_eq_some_iff.1 hhop).1
    have hout := List.getElem?_eq_getElem hi
    obtain ⟨hop', sold, hhop', hsold, hbought⟩ := (accounts_evaluate r amount).bought i _ hout
    -- The hop that accounts for the output is the hop at this position.
    rw [hhop] at hhop'
    cases hhop'
    refine ⟨sold, _, ?_, hout, hbought, Pool.output_lt_reserveOut hbought⟩
    rw [Evaluation.amountBefore?_eq, hsold]
  case finalOut => rw [hlast, amountIn_evaluate]

/-! ## What the amount has no part in -/

/-- **Where an evaluation fails and why is the same for every amount.** -/
theorem refusal_evaluate_eq (r : Route) (amount other : Amount) :
    (r.evaluate other).refusal = (r.evaluate amount).refusal := by
  by_cases hfault : ∃ hop ∈ r, hop.pool.fault? ≠ none
  · obtain ⟨before, hop, rest, e, rfl, hfault, hbefore⟩ := exists_first_fault hfault
    rw [evaluate_of_fault hbefore hfault, evaluate_of_fault hbefore hfault]
  · push Not at hfault
    rw [Evaluation.refusal_eq_none (not_failed_of_no_fault hfault amount),
      Evaluation.refusal_eq_none (not_failed_of_no_fault hfault other)]

/-- Liquidity is never missing, whatever is sent. -/
theorem error_evaluate_ne (r : Route) (amount : Amount) :
    (r.evaluate amount).error ≠ .insufficientLiquidity := by
  cases h : (r.evaluate amount).failed with
  | false => rw [(goesThrough_evaluate h).error]; decide
  | true => rw [(breaksOff_evaluate (failed_evaluate_iff.1 h) amount).error]; decide

/-- **Failures are of the route.** An evaluation fails just where some hop is faulty: at the first
such hop, with the outputs of the hops before it and nothing at the end, and never for want of
liquidity. Otherwise each hop buys what its pool gives for the amount before it, less than the
reserve, and the last output comes out. None of this depends on the amount. -/
theorem failures_are_of_the_route (r : Route) (amount : Amount) :
    ((r.evaluate amount).failed = true ↔ ∃ hop ∈ r, hop.Faulty) ∧
      ((r.evaluate amount).failed = true → r.BreaksOff (r.evaluate amount)) ∧
      ((r.evaluate amount).failed = false → r.GoesThrough (r.evaluate amount)) ∧
      (r.evaluate amount).amountIn = amount ∧
      (r.evaluate amount).error ≠ .insufficientLiquidity ∧
      ∀ other, (r.evaluate other).refusal = (r.evaluate amount).refusal := by
  refine ⟨?_, fun h => breaksOff_evaluate (failed_evaluate_iff.1 h) amount, goesThrough_evaluate,
    amountIn_evaluate r amount, error_evaluate_ne r amount, refusal_evaluate_eq r amount⟩
  simp only [failed_evaluate_iff, Hop.faulty_iff]

/-- A hop that trades, one that charges more than the whole and one with an empty reserve: the
greatest amount and none at all end at the second hop, after the output of the first. -/
theorem failures_of_threeHops :
    let r : Route := [⟨"A", "B", ⟨1000, 2000, 30, .constantProduct⟩, "first", "x"⟩,
      ⟨"B", "C", ⟨1000, 2000, 10001, .constantProduct⟩, "second", "y"⟩,
      ⟨"C", "A", ⟨0, 2000, 30, .constantProduct⟩, "third", "z"⟩]
    r.BreaksOff (r.evaluate Amount.max) ∧ (r.evaluate Amount.max).outputs = [1999] ∧
      (r.evaluate Amount.max).failedHop = 1 ∧ (r.evaluate 0).failedHop = 1 ∧
      GoesThrough (r.take 1) (evaluate (r.take 1) Amount.max) := by
  intro r
  obtain ⟨-, hbreaks, -⟩ := failures_are_of_the_route r Amount.max
  obtain ⟨-, -, hgoes, -⟩ := failures_are_of_the_route (r.take 1) Amount.max
  exact ⟨hbreaks (by decide), by decide, by decide, by decide, hgoes (by decide)⟩

end Route

end PoolArbitrage
