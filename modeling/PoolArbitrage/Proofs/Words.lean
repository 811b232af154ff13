import Mathlib
import PoolArbitrage.Amount

/-!
# Amounts in wide words

Products and sums of amounts are taken in words of 128 bits, which an amount fills to the half. So a
product or a sum of two words that amounts fit is never cut off (`umulOverflow_of_lt`,
`uaddOverflow_of_lt`).

A wide word comes back as an amount in two ways. Its upper half is dropped where nothing can be in
it (`Amount.ofWide`), and where something can, the largest amount stands for what does not fit
(`Amount.narrow`), which is what saturation does to the number (`Amount.narrow_eq`).
-/

namespace PoolArbitrage

/-- A product of two words that amounts fit fits the wide word. -/
theorem umulOverflow_of_lt {v w : BitVec 128} (hv : v.toNat < UInt64.size)
    (hw : w.toNat < UInt64.size) : v.umulOverflow w = false := by
  have hprod : v.toNat * w.toNat < UInt64.size * UInt64.size := Nat.mul_lt_mul'' hv hw
  exact decide_eq_false (Nat.not_le.2 hprod)

/-- A sum of two words that amounts fit fits the wide word. -/
theorem uaddOverflow_of_lt {v w : BitVec 128} (hv : v.toNat < UInt64.size)
    (hw : w.toNat < UInt64.size) : v.uaddOverflow w = false := by
  have hsum : v.toNat + w.toNat < 2 ^ 128 :=
    (Nat.add_lt_add hv hw).trans (by decide : UInt64.size + UInt64.size < 2 ^ 128)
  exact decide_eq_false (Nat.not_le.2 hsum)

theorem toNat_mul_of_lt {v w : BitVec 128} (hv : v.toNat < UInt64.size)
    (hw : w.toNat < UInt64.size) : (v * w).toNat = v.toNat * w.toNat :=
  BitVec.toNat_mul_of_not_umulOverflow (by simp [umulOverflow_of_lt hv hw])

theorem toNat_add_of_lt {v w : BitVec 128} (hv : v.toNat < UInt64.size)
    (hw : w.toNat < UInt64.size) : (v + w).toNat = v.toNat + w.toNat :=
  BitVec.toNat_add_of_not_uaddOverflow (by simp [uaddOverflow_of_lt hv hw])

namespace Amount

/-- The amount in a wide word. -/
def wide (a : Amount) : BitVec 128 := a.toBitVec.setWidth 128

/-- The amount in the lower half of a wide word. -/
def ofWide (w : BitVec 128) : Amount := UInt64.ofBitVec (w.setWidth 64)

/-- The amount of a wide word, or the largest amount if no amount is as large. -/
def narrow (w : BitVec 128) : Amount := if max.wide < w then max else ofWide w

@[simp] theorem toNat_wide (a : Amount) : a.wide.toNat = a.toNat :=
  BitVec.toNat_setWidth_of_le (by decide)

theorem toNat_wide_lt (a : Amount) : a.wide.toNat < UInt64.size :=
  (toNat_wide a).trans_lt a.toNat_lt

theorem toNat_ofWide {w : BitVec 128} (h : w.toNat < UInt64.size) :
    (ofWide w).toNat = w.toNat := by
  rw [ofWide, UInt64.toNat_ofBitVec, BitVec.toNat_setWidth, Nat.mod_eq_of_lt h]

/-- **Narrowing a wide word saturates its number.** -/
theorem narrow_eq (w : BitVec 128) : narrow w = saturate w.toNat := by
  rw [← UInt64.toNat_inj, toNat_saturate, narrow]
  split
  · next hlarge =>
    have hlt : max.toNat < w.toNat := by simpa [BitVec.lt_def] using hlarge
    rw [← toNat_max, min_eq_right hlt.le]
  · next hsmall =>
    have hle : w.toNat ≤ max.toNat := by simpa [BitVec.lt_def] using hsmall
    rw [← toNat_max, min_eq_left hle, toNat_ofWide (Nat.lt_of_le_of_lt hle (by decide))]

end Amount

end PoolArbitrage
