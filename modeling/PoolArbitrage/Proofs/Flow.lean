import Mathlib
import PoolArbitrage.Route.Evaluation

/-!
# What comes out of a chain of pools

A pool at rest exchanges its two tokens at the rate of its reserves. The fee and the curve only
take away from that rate, and so do the two roundings: what is bought, valued at the rate at rest,
is less than what was sold (`Pool.curve_mul_reserveIn_lt`).

Along a route the rates multiply. **Theorem (`Route.finalOut_mul_reservesIn_lt`).** What comes out
of a route, times the product of the reserves sold into, is less than what went in times the
product of the reserves bought from.

The proof is an induction over the hops. The strict inequality does not survive it, since a hop
may round its output down to zero; the weak one does, and the first hop makes it strict.

**Theorem (`Route.failed_evaluate_iff`).** A walk breaks off just where a pool on the way has a
fault, whatever the amount: what a pool without fault gives is an amount the next one can take.
-/

namespace PoolArbitrage

namespace Pool

variable {p : Pool} {a out : Amount}

/-! ## One swap -/

theorem afterFee_le (p : Pool) (amount : Nat) : p.afterFee amount ≤ amount := by
  have hfee : amount * (whole - p.fee.toNat) ≤ amount * whole :=
    Nat.mul_le_mul_left _ (Nat.sub_le ..)
  exact Nat.div_le_of_le_mul (by rwa [Nat.mul_comm whole])

/-- A swap moves the reserves along the curve: it leaves their product no smaller. -/
theorem curve_mul_add_le (p : Pool) (net : Nat) :
    p.curve net * p.reserveIn.toNat + p.curve net * net ≤ net * p.reserveOut.toNat := by
  rw [← Nat.mul_add]
  exact Nat.div_mul_le_self ..

theorem curve_mul_reserveIn_le (p : Pool) {net amount : Nat} (h : net ≤ amount) :
    p.curve net * p.reserveIn.toNat ≤ amount * p.reserveOut.toNat := by
  have hcurve := p.curve_mul_add_le net
  have hnet : net * p.reserveOut.toNat ≤ amount * p.reserveOut.toNat := Nat.mul_le_mul_right _ h
  omega

/-- What is bought, valued at the rate at rest, is less than what was sold. -/
theorem curve_mul_reserveIn_lt {net amount : Nat} (ho : 0 < p.reserveOut.toNat)
    (ha : 0 < amount) (h : net ≤ amount) :
    p.curve net * p.reserveIn.toNat < amount * p.reserveOut.toNat := by
  have hcurve := p.curve_mul_add_le net
  have hnet : net * p.reserveOut.toNat ≤ amount * p.reserveOut.toNat := Nat.mul_le_mul_right _ h
  rcases Nat.eq_zero_or_pos (p.curve net) with hzero | hpos
  · rw [hzero, Nat.zero_mul]
    exact Nat.mul_pos ha ho
  · rcases Nat.eq_zero_or_pos net with rfl | hnet'
    · have : p.curve 0 = 0 := by simp [curve]
      omega
    · have : 0 < p.curve net * net := Nat.mul_pos hpos hnet'
      omega

/-- A swap goes through exactly where the pool has no fault, and buys what the curve gives. -/
theorem output_eq_ok :
    p.output a = .ok out ↔ p.fault? = none ∧ out.toNat = p.curve (p.afterFee a.toNat) := by
  constructor
  · intro h
    cases hf : p.fault? with
    | some e => simp [output, hf] at h
    | none =>
      obtain ⟨out', hout', hcurve⟩ := output_eq hf a
      rw [h] at hout'
      cases hout'
      exact ⟨rfl, hcurve⟩
  · intro h
    obtain ⟨hf, hout⟩ := h
    obtain ⟨out', hout', hcurve⟩ := output_eq hf a
    rw [hout', UInt64.toNat_inj.1 (hcurve.trans hout.symm)]

theorem output_mul_reserveIn_le (h : p.output a = .ok out) :
    out.toNat * p.reserveIn.toNat ≤ a.toNat * p.reserveOut.toNat := by
  rw [(output_eq_ok.1 h).2]
  exact p.curve_mul_reserveIn_le (p.afterFee_le _)

theorem output_mul_reserveIn_lt (h : p.output a = .ok out) (ha : 0 < a) :
    out.toNat * p.reserveIn.toNat < a.toNat * p.reserveOut.toNat := by
  obtain ⟨hf, hout⟩ := output_eq_ok.1 h
  rw [hout]
  exact curve_mul_reserveIn_lt (fault?_eq_none.1 hf).2.1 ha (p.afterFee_le _)

/-- A swap never buys the whole reserve. -/
theorem output_lt_reserveOut (h : p.output a = .ok out) : out < p.reserveOut := by
  obtain ⟨hf, hout⟩ := output_eq_ok.1 h
  obtain ⟨hin, hreserve, -⟩ := fault?_eq_none.1 hf
  rw [UInt64.lt_iff_toNat_lt, hout]
  exact curve_lt hin hreserve _

theorem fault?_reversed (p : Pool) : p.reversed.fault? = none ↔ p.fault? = none := by
  simp only [fault?_eq_none, reversed]
  tauto

/-- Swapping back through the same pool, as it stood before the first swap, returns less. -/
theorem output_reversed_lt (ha : 0 < a) (h : p.output a = .ok out) :
    ∃ back, p.reversed.output out = .ok back ∧ back < a := by
  have hf := (output_eq_ok.1 h).1
  obtain ⟨back, hback, -⟩ := output_eq ((fault?_reversed p).2 hf) out
  refine ⟨back, hback, ?_⟩
  have hthere := output_mul_reserveIn_lt h ha
  have hagain : back.toNat * p.reserveOut.toNat ≤ out.toNat * p.reserveIn.toNat :=
    output_mul_reserveIn_le hback
  exact UInt64.lt_iff_toNat_lt.2 (Nat.lt_of_mul_lt_mul_right (hagain.trans_lt hthere))

/-- A pool has a fault where a reserve is empty or the fee is more than the whole. -/
theorem fault?_ne_none_iff :
    p.fault? ≠ none ↔ p.reserveIn = 0 ∨ p.reserveOut = 0 ∨ whole < p.fee.toNat := by
  unfold fault?
  split_ifs with hempty hfee
  · simpa [← or_assoc] using .inl hempty
  · simp [hfee]
  · simp [hfee, hempty]

end Pool

theorem Evaluation.refusal_eq_none {e : Evaluation} (h : e.failed = false) : e.refusal = none := by
  simpa [failed] using h

namespace Route

variable {r : Route} {amount : Amount}

/-! ## Along a route -/

/-- The product of the reserves the hops sell into. -/
def reservesIn (r : Route) : Nat := (r.map (·.pool.reserveIn.toNat)).prod

/-- The product of the reserves the hops buy from. -/
def reservesOut (r : Route) : Nat := (r.map (·.pool.reserveOut.toNat)).prod

@[simp] theorem reservesIn_cons (h : Hop) (r : Route) :
    reservesIn (h :: r) = h.pool.reserveIn.toNat * reservesIn r := by
  simp [reservesIn]

@[simp] theorem reservesOut_cons (h : Hop) (r : Route) :
    reservesOut (h :: r) = h.pool.reserveOut.toNat * reservesOut r := by
  simp [reservesOut]

/-- An amount goes through a route when it goes through the first pool and what that gives goes
through the rest. -/
theorem flow_cons_eq_ok {h : Hop} {outs : List Amount} :
    flow amount (h :: r) = (outs, none) ↔
      ∃ out rest, h.pool.output amount = .ok out ∧ flow out r = (rest, none) ∧
        outs = out :: rest := by
  cases ho : h.pool.output amount with
  | error e => simp [flow, ho]
  | ok out =>
    rcases hf : flow out r with ⟨rest, e⟩
    simp only [flow, ho, hf, Prod.mk.injEq, Except.ok.injEq]
    constructor
    · intro heq
      obtain ⟨rfl, rfl⟩ := heq
      exact ⟨out, rest, rfl, hf, rfl⟩
    · intro hex
      obtain ⟨out', rest', rfl, hrest, rfl⟩ := hex
      rw [hf] at hrest
      cases hrest
      exact ⟨rfl, rfl⟩

/-- What a walk gave last, or what went in if it gave nothing. -/
theorem lastOut_cons (out amount : Amount) (outs : List Amount) :
    (out :: outs).getLast?.getD amount = outs.getLast?.getD out := by
  rw [List.getLast?_cons, Option.getD_some]

/-- The first hop in front of a bound on the rest: its output is traded at its rate. -/
theorem mul_reservesIn_cons_le {last out : Nat} {hop : Hop}
    (h : last * reservesIn r ≤ out * reservesOut r) :
    last * reservesIn (hop :: r) ≤ out * hop.pool.reserveIn.toNat * reservesOut r := by
  rw [reservesIn_cons]
  calc last * (hop.pool.reserveIn.toNat * reservesIn r)
      = hop.pool.reserveIn.toNat * (last * reservesIn r) := by ring
    _ ≤ hop.pool.reserveIn.toNat * (out * reservesOut r) := Nat.mul_le_mul_left _ h
    _ = out * hop.pool.reserveIn.toNat * reservesOut r := by ring

theorem lastOut_mul_reservesIn_le {outs : List Amount} (h : flow amount r = (outs, none)) :
    (outs.getLast?.getD amount).toNat * reservesIn r ≤ amount.toNat * reservesOut r := by
  induction r generalizing amount outs with
  | nil =>
    cases h
    simp [reservesIn, reservesOut]
  | cons hop rest ih =>
    obtain ⟨out, outs', hout, hrest, rfl⟩ := flow_cons_eq_ok.1 h
    rw [lastOut_cons, reservesOut_cons, ← Nat.mul_assoc]
    refine (mul_reservesIn_cons_le (ih hrest)).trans ?_
    exact Nat.mul_le_mul_right _ (Pool.output_mul_reserveIn_le hout)

theorem reservesOut_pos {outs : List Amount} (h : flow amount r = (outs, none)) :
    0 < reservesOut r := by
  induction r generalizing amount outs with
  | nil => simp [reservesOut]
  | cons hop rest ih =>
    obtain ⟨out, outs', hout, hrest, rfl⟩ := flow_cons_eq_ok.1 h
    rw [reservesOut_cons]
    exact Nat.mul_pos (Pool.fault?_eq_none.1 (Pool.output_eq_ok.1 hout).1).2.1 (ih hrest)

/-! ## Evaluations -/

theorem amountIn_evaluate (r : Route) (amount : Amount) :
    (r.evaluate amount).amountIn = amount := by
  unfold evaluate
  rcases flow amount r with ⟨outs, _ | e⟩ <;> rfl

theorem outputs_evaluate (r : Route) (amount : Amount) :
    (r.evaluate amount).outputs = (flow amount r).1 := by
  unfold evaluate
  rcases flow amount r with ⟨outs, _ | e⟩ <;> rfl

theorem refusal_evaluate (r : Route) (amount : Amount) :
    (r.evaluate amount).refusal = (flow amount r).2.map fun e => ⟨(flow amount r).1.length, e⟩ := by
  unfold evaluate
  rcases flow amount r with ⟨outs, _ | e⟩ <;> rfl

/-- An evaluation that no pool refuses is a walk to the end. -/
theorem flow_of_not_failed (h : (r.evaluate amount).failed = false) :
    flow amount r = ((r.evaluate amount).outputs, none) ∧
      (r.evaluate amount).finalOut = (r.evaluate amount).outputs.getLast?.getD amount := by
  unfold evaluate at h ⊢
  rcases hf : flow amount r with ⟨outs, e⟩
  cases e with
  | none => exact ⟨rfl, rfl⟩
  | some e => simp [hf, Evaluation.failed] at h

/-- **No money out of nothing.** What comes out of a route, valued at the rates at rest, is less
than what went in. -/
theorem finalOut_mul_reservesIn_lt (hr : r ≠ []) (ha : 0 < amount)
    (h : (r.evaluate amount).failed = false) :
    (r.evaluate amount).finalOut.toNat * reservesIn r < amount.toNat * reservesOut r := by
  obtain ⟨hflow, hlast⟩ := flow_of_not_failed h
  rw [hlast]
  generalize (r.evaluate amount).outputs = outs at hflow
  cases r with
  | nil => exact absurd rfl hr
  | cons hop rest =>
    obtain ⟨out, outs', hout, hrest, rfl⟩ := flow_cons_eq_ok.1 hflow
    rw [lastOut_cons, reservesOut_cons, ← Nat.mul_assoc]
    refine (mul_reservesIn_cons_le (lastOut_mul_reservesIn_le hrest)).trans_lt ?_
    exact Nat.mul_lt_mul_of_pos_right (Pool.output_mul_reserveIn_lt hout ha) (reservesOut_pos hrest)

/-- A route that gives back more than it took has more in the reserves bought from. -/
theorem reservesIn_lt_reservesOut (hr : r ≠ []) (ha : 0 < amount)
    (h : (r.evaluate amount).failed = false) (hgain : amount < (r.evaluate amount).finalOut) :
    reservesIn r < reservesOut r := by
  have hlt := finalOut_mul_reservesIn_lt hr ha h
  have hle : amount.toNat * reservesIn r ≤ (r.evaluate amount).finalOut.toNat * reservesIn r :=
    Nat.mul_le_mul_right _ (Nat.le_of_lt (UInt64.lt_iff_toNat_lt.1 hgain))
  exact Nat.lt_of_mul_lt_mul_left (hle.trans_lt hlt)

/-! ## Where a walk ends -/

/-- A walk goes to the end where no pool on the way has a fault. -/
theorem flow_refusal_eq_none_iff :
    (flow amount r).2 = none ↔ ∀ h ∈ r, h.pool.fault? = none := by
  induction r generalizing amount with
  | nil => simp [flow]
  | cons hop rest ih =>
    rw [List.forall_mem_cons]
    cases hfault : hop.pool.fault? with
    | some e => simp [flow, Pool.output, hfault]
    | none =>
      obtain ⟨out, hout, -⟩ := Pool.output_eq hfault amount
      simp only [flow, hout, true_and]
      exact ih

/-- **An evaluation fails just where a pool on the way has a fault**, whatever the amount. -/
theorem failed_evaluate_iff :
    (r.evaluate amount).failed = true ↔ ∃ h ∈ r, h.pool.fault? ≠ none := by
  have hend : (r.evaluate amount).failed = true ↔ (flow amount r).2 ≠ none := by
    rw [Evaluation.failed, refusal_evaluate, Option.isSome_map, Option.isSome_iff_ne_none]
  rw [hend, Ne, flow_refusal_eq_none_iff]
  push Not
  rfl

end Route

end PoolArbitrage
