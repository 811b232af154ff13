/-!
# Amounts

A token balance is one 64-bit word of base units, and everything that enters or leaves the
library is one too. Products of amounts are taken in `Nat`, where nothing overflows, and are
brought back to a word at the end.

**Narrowing.** `Amount.ofNat?` refuses what does not fit. `Amount.saturate` lets the largest
amount stand for it. `Amount.minus` stops at zero.

**Basis points.** Rates are counted in ten-thousandths; `whole` of them are the whole amount.

Main results: `Amount.toNat_saturate` and `Amount.toNat_minus` say what the two are in `Nat`.
-/

namespace PoolArbitrage

/-- A token amount in base units. -/
abbrev Amount := UInt64

/-- A rate in ten-thousandths. -/
abbrev Bps := UInt32

/-- The rate that takes the whole amount. -/
def whole : Nat := 10000

/-- The quotient rounded up. -/
def divUp (n d : Nat) : Nat := (n + d - 1) / d

/-- The quotient to the nearest natural, a half rounded up. -/
def divNearest (n d : Nat) : Nat := (2 * n + d) / (2 * d)

namespace Amount

/-- The largest amount. -/
def max : Amount := 18446744073709551615

theorem toNat_max : max.toNat = UInt64.size - 1 := rfl

/-- The amount of value `n`, if one word holds it. -/
def ofNat? (n : Nat) : Option Amount :=
  if h : n < UInt64.size then some (UInt64.ofNatLT n h) else none

/-- The amount of value `n`, or the largest amount if no word holds it. -/
def saturate (n : Nat) : Amount := (ofNat? n).getD max

/-- The difference, or zero if it would be negative. -/
def minus (a b : Amount) : Amount := if b < a then a - b else 0

theorem ofNat?_eq_some {n : Nat} {a : Amount} (h : ofNat? n = some a) : a.toNat = n := by
  unfold ofNat? at h
  split at h
  · cases h; exact UInt64.toNat_ofNatLT ..
  · cases h

theorem ofNat?_eq_none {n : Nat} : ofNat? n = none ↔ UInt64.size ≤ n := by
  unfold ofNat?
  split <;> simp only [reduceCtorEq, false_iff, true_iff] <;> omega

theorem toNat_saturate (n : Nat) : (saturate n).toNat = min n (UInt64.size - 1) := by
  unfold saturate
  cases h : ofNat? n with
  | none => have := ofNat?_eq_none.1 h; simp only [Option.getD_none, toNat_max]; omega
  | some a =>
    have := ofNat?_eq_some h
    have : a.toNat < UInt64.size := a.toNat_lt_size
    simp only [Option.getD_some]; omega

theorem toNat_minus (a b : Amount) : (a.minus b).toNat = a.toNat - b.toNat := by
  unfold minus
  split
  · rename_i h; exact UInt64.toNat_sub_of_le a b (UInt64.le_of_lt h)
  · rename_i h
    have : ¬ b.toNat < a.toNat := h
    simp only [UInt64.toNat_zero]; omega

end Amount

end PoolArbitrage
