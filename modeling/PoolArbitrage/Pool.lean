import PoolArbitrage.Amount

/-!
# Pools and their swap curve

A pool holds two reserves whose product a swap never lowers. It is described from the side of
one swap: `reserveIn` is what the trader sells into, `reserveOut` what the trader takes from.

**Selling.** The fee is taken off the amount sold, rounded down; what is left moves along the
curve, and the amount bought is rounded down too (`Pool.output`).

**Buying.** The least amount to sell for a wanted output is the same way walked back, with both
divisions rounded up (`Pool.inputFor`).

**Refusals.** A pool with an empty reserve or a fee above the whole trades nothing
(`Pool.fault?`), whatever the amount. Besides, no swap empties a reserve, and no input is
quoted that one word cannot hold.

Main results: `Pool.curve_lt`, the curve stays below the reserve, and `Pool.output_eq`, selling
is the curve at the amount after fee exactly where the pool has no fault.
-/

namespace PoolArbitrage

/-- The curves a pool may follow. -/
inductive PoolKind where
  | constantProduct
  deriving DecidableEq, Repr, Inhabited

def PoolKind.all : List PoolKind := [.constantProduct]

def PoolKind.name : PoolKind → String
  | .constantProduct => "constant-product"

/-- A pool seen by a trader who sells into `reserveIn`. -/
structure Pool where
  reserveIn : Amount := 0
  reserveOut : Amount := 0
  fee : Bps := 0
  kind : PoolKind := .constantProduct
  deriving DecidableEq, Repr, Inhabited

/-- The two ways a swap is refused, as reports name them. -/
inductive SwapErrorKind where
  | invalidReserves
  | insufficientLiquidity
  deriving DecidableEq, Repr

def SwapErrorKind.all : List SwapErrorKind := [.invalidReserves, .insufficientLiquidity]

def SwapErrorKind.name : SwapErrorKind → String
  | .invalidReserves => "InvalidReserves"
  | .insufficientLiquidity => "InsufficientLiquidity"

/-- Why a swap is refused. -/
inductive SwapError where
  | zeroReserves (reserveIn reserveOut : Amount)
  | feeOutOfRange (fee : Bps)
  | drains (amountIn reserveOut : Amount)
  | exceedsReserve (wanted reserveOut : Amount)
  | fullFee
  | inputTooLarge (wanted : Amount)
  deriving DecidableEq, Repr

namespace SwapError

def kind : SwapError → SwapErrorKind
  | zeroReserves .. | feeOutOfRange _ | inputTooLarge _ => .invalidReserves
  | drains .. | exceedsReserve .. | fullFee => .insufficientLiquidity

def message : SwapError → String
  | zeroReserves i o => s!"zero reserves ({i}, {o})"
  | feeOutOfRange f => s!"fee out of range: {f} bps"
  | drains a o => s!"swap of {a} would drain reserve {o}"
  | exceedsReserve w o => s!"requested {w} out of reserve {o}"
  | fullFee => "100% fee pool can't output anything"
  | inputTooLarge w => s!"required input for {w} out does not fit 64 bits"

end SwapError

namespace Pool

/-- Both reserves hold something. -/
def usable (p : Pool) : Bool := 0 < p.reserveIn && 0 < p.reserveOut

/-- The same pool seen by a trader of the other direction. -/
def reversed (p : Pool) : Pool := { p with reserveIn := p.reserveOut, reserveOut := p.reserveIn }

def text (p : Pool) : String :=
  s!"({p.reserveIn}, {p.reserveOut}, {p.fee}bps, {p.kind.name})"

theorem reversed_reversed (p : Pool) : p.reversed.reversed = p := rfl

/-! ## Swaps -/

/-- What makes the pool refuse every swap, if anything does. -/
def fault? (p : Pool) : Option SwapError :=
  if p.reserveIn = 0 ∨ p.reserveOut = 0 then some (.zeroReserves p.reserveIn p.reserveOut)
  else if whole < p.fee.toNat then some (.feeOutOfRange p.fee)
  else none

/-- What is left of an amount after the fee. -/
def afterFee (p : Pool) (amount : Nat) : Nat := amount * (whole - p.fee.toNat) / whole

/-- What the curve gives for an amount that no fee is taken from any more. -/
def curve (p : Pool) (net : Nat) : Nat := net * p.reserveOut.toNat / (p.reserveIn.toNat + net)

/-- The amount bought by selling `amountIn`. -/
def output (p : Pool) (amountIn : Amount) : Except SwapError Amount :=
  match p.fault? with
  | some e => .error e
  | none =>
    let out := p.curve (p.afterFee amountIn.toNat)
    if p.reserveOut.toNat ≤ out then .error (.drains amountIn p.reserveOut)
    else .ok (UInt64.ofNat out)

/-- The least amount to sell so that at least `wanted` is bought. -/
def inputFor (p : Pool) (wanted : Amount) : Except SwapError Amount :=
  match p.fault? with
  | some e => .error e
  | none =>
    if wanted = 0 then .ok 0
    else if p.reserveOut ≤ wanted then .error (.exceedsReserve wanted p.reserveOut)
    else if p.fee.toNat = whole then .error .fullFee
    else
      let net := divUp (p.reserveIn.toNat * wanted.toNat) (p.reserveOut.toNat - wanted.toNat)
      match Amount.ofNat? (divUp (net * whole) (whole - p.fee.toNat)) with
      | some a => .ok a
      | none => .error (.inputTooLarge wanted)

theorem fault?_eq_none {p : Pool} :
    p.fault? = none ↔ 0 < p.reserveIn.toNat ∧ 0 < p.reserveOut.toNat ∧ p.fee.toNat ≤ whole := by
  have zero : ∀ a : Amount, a = 0 ↔ a.toNat = 0 := fun a =>
    ⟨fun h => by rw [h]; rfl, fun h => UInt64.toNat_inj.1 h⟩
  unfold fault?
  simp only [zero]
  split
  · simp only [reduceCtorEq, false_iff]; omega
  · split
    · simp only [reduceCtorEq, false_iff]; omega
    · simp only [true_iff]; omega

/-- **The curve never gives the whole reserve.** -/
theorem curve_lt {p : Pool} (hi : 0 < p.reserveIn.toNat) (ho : 0 < p.reserveOut.toNat)
    (net : Nat) : p.curve net < p.reserveOut.toNat := by
  unfold curve
  rw [Nat.div_lt_iff_lt_mul (by omega), Nat.mul_comm]
  exact Nat.mul_lt_mul_of_pos_left (by omega) ho

/-- **A pool without fault buys what the curve gives.** -/
theorem output_eq {p : Pool} (h : p.fault? = none) (a : Amount) :
    ∃ out, p.output a = .ok out ∧ out.toNat = p.curve (p.afterFee a.toNat) := by
  obtain ⟨hi, ho, -⟩ := fault?_eq_none.1 h
  have hlt := curve_lt hi ho (p.afterFee a.toNat)
  refine ⟨UInt64.ofNat (p.curve (p.afterFee a.toNat)), ?_, ?_⟩
  · unfold output
    rw [h]
    simp only [Nat.not_le.2 hlt, if_false]
  · exact UInt64.toNat_ofNat_of_lt' (Nat.lt_trans hlt p.reserveOut.toNat_lt)

example : ((Pool.mk 1000 1000 30 .constantProduct).output 100).toOption = some 90 := by decide
example : ((Pool.mk 1000 1000 30 .constantProduct).inputFor 90).toOption = some 100 := by decide

end Pool

end PoolArbitrage
