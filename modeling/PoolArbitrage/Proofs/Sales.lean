import Mathlib
import PoolArbitrage.Proofs.Flow
import PoolArbitrage.Proofs.Words

/-!
# What a sale buys, to the unit

A sale takes the fee off the amount sold and moves what is left along the curve, and both steps
round down. The curve gives as many units as the product of the reserves allows: what it gives
leaves the product no smaller, and one unit more would lower it (`Pool.isGreatest_curve`). The
product is taken in the integers, where an output above the reserve is no exception.

**Words.** A sale is computed in a word of 32 bits for the rate and in wide words for the rest
(`Pool.outputInWords`). The reserves, the amount and what the fee leaves of it are all below `2⁶⁴`,
so no step leaves its word (`Pool.wordsFit`), and the words compute the sale
(`Pool.output_eq_outputInWords`).

**Theorem (`Pool.sale_is_exact`).** A pool with reserves and a fee of at most the whole answers
every amount by the greatest output that keeps the product.
-/

namespace PoolArbitrage

namespace Pool

variable {p : Pool} {a : Amount} {net : Nat} {out : ℤ}

/-! ## The curve and the product of the reserves -/

/-- Taking `net` in and giving `out` leaves the product of the reserves no smaller. -/
def KeepsProduct (p : Pool) (net : Nat) (out : ℤ) : Prop :=
  (p.reserveIn.toNat * p.reserveOut.toNat : ℤ) ≤
    (p.reserveIn.toNat + net) * (p.reserveOut.toNat - out)

/-- **The outputs that keep the product are those up to the curve.** -/
theorem keepsProduct_iff (hin : 0 < p.reserveIn.toNat) :
    p.KeepsProduct net out ↔ out ≤ p.curve net := by
  have hsum : (0 : ℤ) < p.reserveIn.toNat + net := by omega
  -- The product grows by what `out` falls short of the exact quotient, times the new reserve.
  have hexpand : (p.reserveIn.toNat + net : ℤ) * (p.reserveOut.toNat - out) =
      p.reserveIn.toNat * p.reserveOut.toNat +
        (net * p.reserveOut.toNat - out * (p.reserveIn.toNat + net)) := by ring
  rw [KeepsProduct, hexpand, le_add_iff_nonneg_right, sub_nonneg, curve]
  push_cast
  exact (Int.le_ediv_iff_mul_le hsum).symm

theorem isGreatest_curve (hin : 0 < p.reserveIn.toNat) :
    IsGreatest {out : ℤ | p.KeepsProduct net out} (p.curve net) :=
  ⟨(keepsProduct_iff hin).2 le_rfl, fun _ hout => (keepsProduct_iff hin).1 hout⟩

/-- One unit more than the curve gives would lower the product. -/
theorem not_keepsProduct_succ (hin : 0 < p.reserveIn.toNat) :
    ¬ p.KeepsProduct net (p.curve net + 1) := by
  rw [keepsProduct_iff hin]
  omega

/-! ## The sale in words -/

/-- The rate that the fee leaves. -/
def rateWord (p : Pool) : BitVec 32 := BitVec.ofNat 32 whole - p.fee.toBitVec

/-- What is left of an amount after the fee. -/
def netWord (p : Pool) (a : Amount) : BitVec 128 :=
  a.wide * p.rateWord.setWidth 128 / BitVec.ofNat 128 whole

/-- What the curve gives for what is left. -/
def outWord (p : Pool) (a : Amount) : BitVec 128 :=
  p.netWord a * p.reserveOut.wide / (p.reserveIn.wide + p.netWord a)

/-- The amount bought as the words compute it. -/
def outputInWords (p : Pool) (a : Amount) : Except SwapError Amount :=
  match p.fault? with
  | some e => .error e
  | none =>
    if a = 0 then .ok 0
    else if p.reserveOut.wide ≤ p.outWord a then .error (.drains a p.reserveOut)
    else .ok (Amount.ofWide (p.outWord a))

/-- **No step of a sale leaves its word**: the rate does not fall below zero, no product and no sum
is cut off, and the output is an amount. -/
structure WordsFit (p : Pool) (a : Amount) : Prop where
  rate : (BitVec.ofNat 32 whole).usubOverflow p.fee.toBitVec = false
  charged : a.wide.umulOverflow (p.rateWord.setWidth 128) = false
  bought : (p.netWord a).umulOverflow p.reserveOut.wide = false
  pooled : p.reserveIn.wide.uaddOverflow (p.netWord a) = false
  narrowed : (p.outWord a).toNat < UInt64.size

theorem usubOverflow_rate (hfee : p.fee.toNat ≤ whole) :
    (BitVec.ofNat 32 whole).usubOverflow p.fee.toBitVec = false :=
  decide_eq_false (Nat.not_lt.2 hfee)

theorem toNat_rateWord (hfee : p.fee.toNat ≤ whole) :
    (p.rateWord.setWidth 128).toNat = whole - p.fee.toNat := by
  rw [BitVec.toNat_setWidth_of_le (by decide), rateWord,
    BitVec.toNat_sub_of_not_usubOverflow (by simp [usubOverflow_rate hfee])]
  rfl

theorem toNat_rateWord_lt (hfee : p.fee.toNat ≤ whole) :
    (p.rateWord.setWidth 128).toNat < UInt64.size := by
  rw [toNat_rateWord hfee]
  exact Nat.lt_of_le_of_lt (Nat.sub_le ..) (by decide)

theorem toNat_netWord (hfee : p.fee.toNat ≤ whole) (a : Amount) :
    (p.netWord a).toNat = p.afterFee a.toNat := by
  rw [netWord, BitVec.toNat_udiv, toNat_mul_of_lt a.toNat_wide_lt (toNat_rateWord_lt hfee),
    Amount.toNat_wide, toNat_rateWord hfee, afterFee]
  rfl

/-- What the fee leaves is no more than the amount, so an amount can hold it. -/
theorem toNat_netWord_lt (hfee : p.fee.toNat ≤ whole) (a : Amount) :
    (p.netWord a).toNat < UInt64.size := by
  rw [toNat_netWord hfee]
  exact (p.afterFee_le _).trans_lt a.toNat_lt

theorem toNat_outWord (hfee : p.fee.toNat ≤ whole) (a : Amount) :
    (p.outWord a).toNat = p.curve (p.afterFee a.toNat) := by
  have hnet := toNat_netWord_lt hfee a
  rw [outWord, BitVec.toNat_udiv, toNat_mul_of_lt hnet p.reserveOut.toNat_wide_lt,
    toNat_add_of_lt p.reserveIn.toNat_wide_lt hnet, toNat_netWord hfee, Amount.toNat_wide,
    Amount.toNat_wide, curve]

/-- The output stays below the reserve, which an amount holds. -/
theorem toNat_outWord_lt (hp : p.fault? = none) (a : Amount) :
    (p.outWord a).toNat < p.reserveOut.toNat := by
  obtain ⟨hin, hout, hfee⟩ := fault?_eq_none.1 hp
  rw [toNat_outWord hfee]
  exact curve_lt hin hout _

theorem wordsFit (hp : p.fault? = none) (a : Amount) : p.WordsFit a := by
  have hfee : p.fee.toNat ≤ whole := (fault?_eq_none.1 hp).2.2
  have hnet := toNat_netWord_lt hfee a
  exact
    { rate := usubOverflow_rate hfee
      charged := umulOverflow_of_lt a.toNat_wide_lt (toNat_rateWord_lt hfee)
      bought := umulOverflow_of_lt hnet p.reserveOut.toNat_wide_lt
      pooled := uaddOverflow_of_lt p.reserveIn.toNat_wide_lt hnet
      narrowed := (toNat_outWord_lt hp a).trans p.reserveOut.toNat_lt }

/-- **The words compute the sale.** -/
theorem output_eq_outputInWords (p : Pool) (a : Amount) : p.output a = p.outputInWords a := by
  cases hp : p.fault? with
  | some e => simp only [output, outputInWords, hp]
  | none =>
    obtain ⟨out, hout, hcurve⟩ := output_eq hp a
    have hfee := (fault?_eq_none.1 hp).2.2
    rw [hout]
    simp only [outputInWords, hp]
    split_ifs with hzero hdrains
    · -- Nothing sold is answered at once; the curve gives nothing for it either.
      have hnone : out.toNat = 0 := by rw [hcurve, hzero]; simp [afterFee, curve]
      exact congrArg _ (UInt64.toNat_inj.1 hnone)
    · have hle : p.reserveOut.toNat ≤ (p.outWord a).toNat := by
        simpa [BitVec.le_def] using hdrains
      exact absurd hle (Nat.not_le.2 (toNat_outWord_lt hp a))
    · have hword : (Amount.ofWide (p.outWord a)).toNat = out.toNat := by
        rw [Amount.toNat_ofWide (wordsFit hp a).narrowed, toNat_outWord hfee, hcurve]
      exact congrArg _ (UInt64.toNat_inj.1 hword.symm)

/-! ## The sale -/

/-- **A sale is exact and never drains.** Whatever is sold into a pool that trades, no word is left
and no error raised, and what is bought is the greatest output that keeps the product of the
reserves: it is below the reserve, and one unit more would lower the product. -/
theorem sale_is_exact (hin : 0 < p.reserveIn) (hout : 0 < p.reserveOut)
    (hfee : p.fee.toNat ≤ whole) (a : Amount) :
    p.WordsFit a ∧ p.outputInWords a = p.output a ∧
      ∃ bought, p.output a = .ok bought ∧ bought < p.reserveOut ∧
        IsGreatest {out : ℤ | p.KeepsProduct (p.afterFee a.toNat) out} bought.toNat ∧
        p.KeepsProduct (p.afterFee a.toNat) bought.toNat ∧
        ¬ p.KeepsProduct (p.afterFee a.toNat) (bought.toNat + 1) := by
  have hpos : 0 < p.reserveIn.toNat := UInt64.lt_iff_toNat_lt.1 hin
  have hp : p.fault? = none := fault?_eq_none.2 ⟨hpos, UInt64.lt_iff_toNat_lt.1 hout, hfee⟩
  obtain ⟨bought, hbought, hcurve⟩ := output_eq hp a
  refine ⟨wordsFit hp a, (output_eq_outputInWords p a).symm, bought, hbought,
    output_lt_reserveOut hbought, ?_⟩
  rw [hcurve]
  exact ⟨isGreatest_curve hpos, (isGreatest_curve hpos).1, not_keepsProduct_succ hpos⟩

/-- Full words throughout: the greatest amount sold into the greatest reserves, for a fee, buys a
little less than half of the reserve. -/
theorem sale_of_full_words :
    let p : Pool := ⟨Amount.max, Amount.max, 30, .constantProduct⟩
    p.WordsFit Amount.max ∧ p.output Amount.max = .ok 9209516195036766629 ∧
      IsGreatest {out : ℤ | p.KeepsProduct (p.afterFee Amount.max.toNat) out}
        9209516195036766629 := by
  intro p
  obtain ⟨hfit, -, bought, hbought, -, hgreatest, -⟩ :=
    sale_is_exact (p := p) (by decide) (by decide) (by decide) Amount.max
  have hvalue : p.output Amount.max = .ok 9209516195036766629 := by decide +kernel
  rw [hvalue] at hbought
  cases hbought
  exact ⟨hfit, hvalue, hgreatest⟩

end Pool

end PoolArbitrage
