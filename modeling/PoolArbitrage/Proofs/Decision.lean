import Mathlib
import PoolArbitrage.Proofs.Words
import PoolArbitrage.Verdict

/-!
# The decision in exact integers

The decision on an attempt subtracts twice, stopping at zero each time, divides, saturates and
compares. None of this shows in the outcome: an attempt is profitable exactly when it brings more
than it cost and the gain, in basis points of the amount, reaches the threshold as a fraction
(`Assessment.profitable_of_iff`).

A quotient too large for a word saturates at the largest amount, which no threshold passes; so
the comparison with the saturated quotient is the comparison with the fraction
(`Assessment.le_netBps_of_iff`). Nor does it make a better attempt look worse
(`Assessment.profitable_of_le`).

The product that the quotient is taken of is a wide word, and so is the quotient. Nothing is cut off
there, so words decide as the numbers do (`Assessment.of_eq_inWords`).

**Theorem (`Assessment.decision_is_exact`).** There is a decision on every amount that is not zero,
and its profit, its basis points and its verdict are those of exact integers
(`Assessment.Exact`). More received, a lower cost and a lower threshold never make it worse
(`Assessment.NoBetter`).
-/

namespace PoolArbitrage

namespace Assessment

variable {amount out out' cost cost' least least' : Amount}

theorem grossProfit_of : (of amount out cost least).grossProfit = out.minus amount := rfl

theorem toNat_grossProfit_of :
    (of amount out cost least).grossProfit.toNat = out.toNat - amount.toNat :=
  Amount.toNat_minus ..

theorem toNat_netBps_of (amount out cost least : Amount) :
    (of amount out cost least).netBps.toNat =
      min ((of amount out cost least).netProfit.toNat * whole / amount.toNat) (UInt64.size - 1) :=
  Amount.toNat_saturate _

theorem netProfit_of_eq_zero_iff :
    (of amount out cost least).netProfit = 0 ↔ out.toNat ≤ amount.toNat + cost.toNat := by
  rw [← UInt64.toNat_inj, of_netProfit, UInt64.toNat_zero]
  omega

/-- The threshold is compared with the fraction, although the quotient is rounded and saturates. -/
theorem le_netBps_of_iff (ha : 0 < amount) :
    least ≤ (of amount out cost least).netBps ↔
      least.toNat * amount.toNat ≤ (of amount out cost least).netProfit.toNat * whole := by
  have hword : least.toNat < UInt64.size := least.toNat_lt_size
  have hpos : 0 < amount.toNat := UInt64.lt_iff_toNat_lt.1 ha
  rw [UInt64.le_iff_toNat_le, toNat_netBps_of, ← Nat.le_div_iff_mul_le hpos]
  omega

theorem verdict_of :
    (of amount out cost least).verdict =
      if (of amount out cost least).netProfit = 0 then .notProfitable
      else if least ≤ (of amount out cost least).netBps then .profitable
      else .belowThreshold := rfl

theorem profitable_iff :
    (of amount out cost least).profitable = true ↔
      (of amount out cost least).netProfit ≠ 0 ∧ least ≤ (of amount out cost least).netBps := by
  rw [profitable, decide_eq_true_iff, verdict_of]
  split_ifs <;> simp [*]

/-- Thresholds that are both reached make no difference. -/
theorem of_eq_of_profitable (h : (of amount out cost least).profitable = true)
    (h' : (of amount out cost least').profitable = true) :
    of amount out cost least = of amount out cost least' := by
  have hverdict : (of amount out cost least).verdict = (of amount out cost least').verdict :=
    (of_decide_eq_true h).trans (of_decide_eq_true h').symm
  exact congrArg (Assessment.mk _ _ _) hverdict

/-- More received at a lower cost brings no less. -/
theorem netProfit_of_le_netProfit_of (hout : out ≤ out') (hcost : cost' ≤ cost) :
    (of amount out cost least).netProfit ≤ (of amount out' cost' least').netProfit := by
  rw [UInt64.le_iff_toNat_le] at hout hcost ⊢
  rw [of_netProfit, of_netProfit]
  omega

theorem netBps_of_le_netBps_of
    (h : (of amount out cost least).netProfit ≤ (of amount out' cost' least').netProfit) :
    (of amount out cost least).netBps ≤ (of amount out' cost' least').netBps := by
  rw [UInt64.le_iff_toNat_le, toNat_netBps_of, toNat_netBps_of]
  exact min_le_min_right _ (Nat.div_le_div_right (Nat.mul_le_mul_right _ h))

/-- Where more received at a lower cost gains nothing, less at a higher cost does not either. -/
theorem netProfit_of_eq_zero_of_le (hout : out ≤ out') (hcost : cost' ≤ cost)
    (h : (of amount out' cost' least').netProfit = 0) :
    (of amount out cost least).netProfit = 0 := by
  have hnet : (of amount out cost least).netProfit ≤ (of amount out' cost' least').netProfit :=
    netProfit_of_le_netProfit_of hout hcost
  rw [h] at hnet
  exact UInt64.le_zero_iff.1 hnet

/-- **What pays still pays where more is received at a lower cost.** -/
theorem profitable_of_le (hout : out ≤ out') (hcost : cost' ≤ cost)
    (h : (of amount out cost least).profitable = true) :
    (of amount out' cost' least).profitable = true := by
  obtain ⟨hgain, hreach⟩ := profitable_iff.1 h
  rw [profitable_iff]
  constructor
  · intro hzero
    exact hgain (netProfit_of_eq_zero_of_le hout hcost hzero)
  · exact UInt64.le_trans hreach (netBps_of_le_netBps_of (netProfit_of_le_netProfit_of hout hcost))

/-- **The decision is exact.** Something is gained, and the gain reaches the threshold. -/
theorem profitable_of_iff (ha : 0 < amount) :
    (of amount out cost least).profitable = true ↔
      amount.toNat + cost.toNat < out.toNat ∧
        least.toNat * amount.toNat ≤ (out.toNat - amount.toNat - cost.toNat) * whole := by
  rw [profitable_iff, Ne, netProfit_of_eq_zero_iff, Nat.not_le, le_netBps_of_iff ha, of_netProfit]

/-! ## In words -/

/-- The decision as words compute it: the net profit times the whole and the quotient by the amount
are wide words, and the quotient is narrowed. -/
def inWords (amount out cost least : Amount) : Assessment :=
  let netProfit := (out.minus amount).minus cost
  let netBps := Amount.narrow (netProfit.wide * BitVec.ofNat 128 whole / amount.wide)
  { grossProfit := out.minus amount
    netProfit
    netBps
    verdict :=
      if netProfit = 0 then .notProfitable
      else if least ≤ netBps then .profitable
      else .belowThreshold }

theorem toNat_bpsWord (amount netProfit : Amount) :
    (netProfit.wide * BitVec.ofNat 128 whole / amount.wide).toNat =
      netProfit.toNat * whole / amount.toNat := by
  have hwhole : (BitVec.ofNat 128 whole).toNat = whole := by decide
  have hfits : (BitVec.ofNat 128 whole).toNat < UInt64.size := by decide
  rw [BitVec.toNat_udiv, toNat_mul_of_lt netProfit.toNat_wide_lt hfits, hwhole, Amount.toNat_wide,
    Amount.toNat_wide]

/-- **Words decide as the numbers do.** -/
theorem of_eq_inWords : of amount out cost least = inWords amount out cost least := by
  have hbps : Amount.narrow
      (((out.minus amount).minus cost).wide * BitVec.ofNat 128 whole / amount.wide) =
        (of amount out cost least).netBps := by
    rw [Amount.narrow_eq, toNat_bpsWord]
    rfl
  simp only [inWords, hbps]
  rfl

/-! ## The exact decision -/

theorem verdict_of_eq_notProfitable_iff :
    (of amount out cost least).verdict = .notProfitable ↔
      (of amount out cost least).netProfit = 0 := by
  rw [verdict_of]
  split_ifs <;> simp [*]

/-- **The decision of exact integers** on an amount, what came out, the cost and the threshold. -/
structure Exact (amount out cost least : Amount) (v : Assessment) : Prop where
  grossProfit : (v.grossProfit.toNat : ℤ) = max 0 ((out.toNat : ℤ) - amount.toNat)
  netProfit : (v.netProfit.toNat : ℤ) = max 0 ((out.toNat : ℤ) - amount.toNat - cost.toNat)
  netBps : v.netBps.toNat = min (2 ^ 64 - 1) (v.netProfit.toNat * whole / amount.toNat)
  profitable : v.profitable = true ↔
    0 < v.netProfit ∧ least.toNat * amount.toNat ≤ v.netProfit.toNat * whole
  notProfitable : v.verdict = .notProfitable ↔ v.netProfit = 0
  words : v = inWords amount out cost least

theorem exact_of (ha : 0 < amount) (out cost least : Amount) :
    (of amount out cost least).Exact amount out cost least where
  grossProfit := by
    rw [toNat_grossProfit_of]
    omega
  netProfit := by
    rw [of_netProfit]
    omega
  netBps := by
    rw [toNat_netBps_of, min_comm]
    rfl
  profitable := by
    rw [profitable_iff, le_netBps_of_iff ha, UInt64.pos_iff_ne_zero]
  notProfitable := verdict_of_eq_notProfitable_iff
  words := of_eq_inWords

/-- The first decision is no better than the second, in its figures and in its verdict. -/
structure NoBetter (v v' : Assessment) : Prop where
  netProfit : v.netProfit ≤ v'.netProfit
  netBps : v.netBps ≤ v'.netBps
  profitable : v.profitable = true → v'.profitable = true
  notProfitable : v'.verdict = .notProfitable → v.verdict = .notProfitable

/-- More received, a lower cost and a lower threshold never make a decision worse. -/
theorem noBetter_of (hout : out ≤ out') (hcost : cost' ≤ cost) (hleast : least' ≤ least) :
    (of amount out cost least).NoBetter (of amount out' cost' least') where
  netProfit := netProfit_of_le_netProfit_of hout hcost
  netBps := netBps_of_le_netBps_of (netProfit_of_le_netProfit_of hout hcost)
  profitable h := by
    obtain ⟨hgain, hreach⟩ := profitable_iff.1 (profitable_of_le hout hcost h)
    exact profitable_iff.2 ⟨hgain, UInt64.le_trans hleast hreach⟩
  notProfitable h := by
    rw [verdict_of_eq_notProfitable_iff] at h ⊢
    exact netProfit_of_eq_zero_of_le hout hcost h

theorem assess_eq_ok (ha : 0 < amount) (out cost least : Amount) :
    assess amount out cost least = .ok (of amount out cost least) :=
  if_neg (UInt64.pos_iff_ne_zero.1 ha)

/-- **The decision is that of exact integers** for every amount that is not zero, and it is no worse
where more is received, the cost is lower or the threshold is. -/
theorem decision_is_exact (ha : 0 < amount) (out cost least : Amount) :
    ∃ v, assess amount out cost least = .ok v ∧ v.Exact amount out cost least ∧
      ∀ out' cost' least' : Amount, out ≤ out' → cost' ≤ cost → least' ≤ least →
        ∃ v', assess amount out' cost' least' = .ok v' ∧ v.NoBetter v' := by
  refine ⟨of amount out cost least, assess_eq_ok ha .., exact_of ha .., ?_⟩
  intro out' cost' least' hout hcost hleast
  exact ⟨of amount out' cost' least', assess_eq_ok ha .., noBetter_of hout hcost hleast⟩

/-- One unit against the greatest threshold. A gain of two units is 20000 basis points and stays
below; what a word holds at most comes to basis points that no word holds, and these reach it. -/
theorem decision_of_full_words :
    ∃ v v', assess 1 Amount.max 18446744073709551612 Amount.max = .ok v ∧
      assess 1 Amount.max 0 Amount.max = .ok v' ∧
      v.Exact 1 Amount.max 18446744073709551612 Amount.max ∧ v.NoBetter v' ∧
      v.netBps = 20000 ∧ v.verdict = .belowThreshold ∧
      v'.netBps = Amount.max ∧ v'.verdict = .profitable := by
  obtain ⟨v, hv, hexact, hbetter⟩ :=
    decision_is_exact (by decide : (0 : Amount) < 1) Amount.max 18446744073709551612 Amount.max
  obtain ⟨v', hv', hnone⟩ :=
    hbetter Amount.max 0 Amount.max (UInt64.le_refl _) (by decide) (UInt64.le_refl _)
  refine ⟨v, v', hv, hv', hexact, hnone, ?_⟩
  cases hv
  cases hv'
  decide

end Assessment

end PoolArbitrage
