import Mathlib
import PoolArbitrage.Proofs.Decision
import PoolArbitrage.Proofs.Words
import PoolArbitrage.Proofs.Yields

/-!
# What the search maximises

The search and the decision each have a profit of their own. The decision takes the amount from what
comes out and then the cost, and stops at zero both times. The search takes amount and cost
together, as a wide word, and keeps a sign: what exceeds them is a gain, what they exceed is a loss,
narrowed to an amount.

**In words.** Amount and cost fit the wide word, so neither the sum nor a difference is cut off
(`Route.yieldOf_eq_inWords`).

**With the decision.** There is a gain just where the decision finds a net profit, and it is that
one (`Route.yieldOf_eq_of_net`).

**As numbers.** No gain is zero, so yields of one number are one yield, and one yield is less than
another just where its number is (`Route.not_less_yieldOf_iff`).

**Theorem (`Route.objective_agrees_with_the_decision`).** The search looks for the greatest net
profit the decision would find, and among losses for the least.
-/

namespace PoolArbitrage

namespace Yield

variable {y z : Yield} {a : Amount}

theorem toNat_pos_of_ne (h : gain a ≠ gain 0) : 0 < a.toNat := by
  rw [Nat.pos_iff_ne_zero]
  exact fun hzero => h (congrArg gain (UInt64.toNat_inj.1 hzero))

/-- A yield that is no gain of nothing is told by its number. -/
theorem eq_of_toInt_eq (hy : y ≠ .gain 0) (hz : z ≠ .gain 0) (h : y.toInt = z.toInt) : y = z := by
  cases y with
  | gain a =>
    cases z with
    | gain b =>
      simp only [toInt, Nat.cast_inj] at h
      exact congrArg gain (UInt64.toNat_inj.1 h)
    | loss b =>
      have ha := toNat_pos_of_ne hy
      simp only [toInt] at h
      omega
  | loss a =>
    cases z with
    | gain b =>
      have hb := toNat_pos_of_ne hz
      simp only [toInt] at h
      omega
    | loss b =>
      simp only [toInt, neg_inj, Nat.cast_inj] at h
      exact congrArg loss (UInt64.toNat_inj.1 h)

end Yield

namespace Route

variable {params : CostParameters} {r : Route} {a b : Amount}

/-! ## In words -/

/-- The yield as words compute it: what is paid is a sum of wide words, what comes out is one of
them, and the difference is an amount. -/
def yieldInWords (params : CostParameters) (r : Route) (amount : Amount) : Yield :=
  let e := r.evaluate amount
  if e.failed then .loss Amount.max
  else
    let debit := amount.wide + (Cost.total params amount r).wide
    let credit := e.finalOut.wide
    if debit < credit then .gain (Amount.ofWide (credit - debit))
    else .loss (Amount.narrow (debit - credit))

/-- **The words of the yield lose nothing.** -/
theorem yieldOf_eq_inWords (params : CostParameters) (r : Route) (amount : Amount) :
    r.yieldOf params amount = r.yieldInWords params amount := by
  simp only [yieldOf, yieldInWords]
  set out := (r.evaluate amount).finalOut
  set cost := Cost.total params amount r
  have hdebit : (amount.wide + cost.wide).toNat = amount.toNat + cost.toNat := by
    rw [toNat_add_of_lt (Amount.toNat_wide_lt _) (Amount.toNat_wide_lt _), Amount.toNat_wide,
      Amount.toNat_wide]
  have hcredit : out.wide.toNat = out.toNat := Amount.toNat_wide out
  by_cases hgain : amount.toNat + cost.toNat < out.toNat
  · have hless : amount.wide + cost.wide < out.wide := by
      rw [BitVec.lt_def, hdebit, hcredit]
      exact hgain
    have hdifference : (out.wide - (amount.wide + cost.wide)).toNat =
        out.toNat - (amount.toNat + cost.toNat) := by
      rw [BitVec.toNat_sub_of_le (BitVec.le_of_lt hless), hdebit, hcredit]
    have hword : Amount.ofWide (out.wide - (amount.wide + cost.wide)) =
        UInt64.ofNat (out.toNat - (amount.toNat + cost.toNat)) := by
      rw [← UInt64.toNat_inj, Amount.toNat_ofNat_sub, Amount.toNat_ofWide, hdifference]
      exact hdifference.trans_lt ((Nat.sub_le ..).trans_lt out.toNat_lt)
    rw [if_pos hgain, if_pos hless, hword]
  · have hle : out.wide ≤ amount.wide + cost.wide := by
      rw [BitVec.le_def, hdebit, hcredit]
      exact Nat.not_lt.1 hgain
    rw [if_neg hgain, if_neg (BitVec.not_lt.2 hle), Amount.narrow_eq, BitVec.toNat_sub_of_le hle,
      hdebit, hcredit]

/-! ## With the decision -/

theorem yieldOf_of_failed (h : (r.evaluate a).failed = true) :
    r.yieldOf params a = .loss Amount.max := by
  simp only [yieldOf, h, if_true]

/-- **The yield of what a route buys**, by the net profit the decision finds in it. -/
theorem yieldOf_eq_of_net (h : (r.evaluate a).failed = false) (least : Amount) :
    r.yieldOf params a =
      let out := (r.evaluate a).finalOut
      let cost := Cost.total params a r
      let net := (Assessment.of a out cost least).netProfit
      if net = 0 then .loss (Amount.saturate (a.toNat + cost.toNat - out.toNat))
      else .gain net := by
  simp only [yieldOf, h, Bool.false_eq_true, if_false, Assessment.netProfit_of_eq_zero_iff]
  split_ifs with hgain hnone hnone
  · omega
  · congr 1
    rw [← UInt64.toNat_inj, Amount.toNat_ofNat_sub, Assessment.of_netProfit, Nat.sub_sub]
  · rfl
  · omega

/-- It is a gain just where there is a net profit. -/
theorem yieldOf_eq_gain_iff (h : (r.evaluate a).failed = false) (least : Amount) {g : Amount} :
    r.yieldOf params a = .gain g ↔
      (Assessment.of a (r.evaluate a).finalOut (Cost.total params a r) least).netProfit = g ∧
        0 < g := by
  rw [yieldOf_eq_of_net h least]
  dsimp only
  split_ifs with hnone
  · rw [hnone]
    refine ⟨nofun, ?_⟩
    rintro ⟨rfl, hpos⟩
    exact absurd hpos (by decide)
  · rw [Yield.gain.injEq, iff_self_and]
    rintro rfl
    exact UInt64.pos_iff_ne_zero.2 hnone

/-- Where there is none it is the loss of what was paid less what came out, as far as an amount
counts. -/
theorem exists_loss_of_no_net (h : (r.evaluate a).failed = false) {least : Amount}
    (hnone :
      (Assessment.of a (r.evaluate a).finalOut (Cost.total params a r) least).netProfit = 0) :
    ∃ l, r.yieldOf params a = .loss l ∧ (l.toNat : ℤ) = min (2 ^ 64 - 1)
      ((a.toNat : ℤ) + (Cost.total params a r).toNat - (r.evaluate a).finalOut.toNat) := by
  refine ⟨_, (yieldOf_eq_of_net h least).trans (if_pos hnone), ?_⟩
  have hpaid := Assessment.netProfit_of_eq_zero_iff.1 hnone
  have hsize : UInt64.size = 2 ^ 64 := rfl
  rw [Amount.toNat_saturate]
  omega

/-! ## As numbers -/

/-- Neither of two yields is less just where they are the same. -/
theorem not_less_yieldOf_iff :
    (r.yieldOf params a).less (r.yieldOf params b) = false ∧
      (r.yieldOf params b).less (r.yieldOf params a) = false ↔
    r.yieldOf params a = r.yieldOf params b := by
  rw [← Bool.not_eq_true, ← Bool.not_eq_true, Yield.less_iff yieldOf_ne_gain_zero,
    Yield.less_iff yieldOf_ne_gain_zero, not_lt, not_lt]
  constructor
  · rintro ⟨hge, hle⟩
    exact Yield.eq_of_toInt_eq yieldOf_ne_gain_zero yieldOf_ne_gain_zero (le_antisymm hle hge)
  · intro h
    exact ⟨(congrArg Yield.toInt h).ge, (congrArg Yield.toInt h).le⟩

/-- **The objective agrees with the decision.** What a route buys yields a gain just where the
decision finds a net profit, and that net profit; where it finds none, the yield is a loss of what
was paid less what came out, or of the largest amount if that is less. A route that refuses the
amount yields the loss of the largest amount. Yields compare as their signed numbers do, and tie
just where they are the same; computed in words, they are no others. -/
theorem objective_agrees_with_the_decision (params : CostParameters) (r : Route) :
    (∀ a : Amount, 0 < a → (r.evaluate a).failed = false → ∀ least,
      let out := (r.evaluate a).finalOut
      let cost := Cost.breakdown params a r
      ∃ v, assess a out cost.total least = .ok v ∧
        (∀ g, r.yieldOf params a = .gain g ↔ v.netProfit = g ∧ 0 < g) ∧
        (v.netProfit = 0 → ∃ l, r.yieldOf params a = .loss l ∧
          (l.toNat : ℤ) = min (2 ^ 64 - 1) ((a.toNat : ℤ) + cost.total.toNat - out.toNat))) ∧
    (∀ a, (r.evaluate a).failed = true → r.yieldOf params a = .loss Amount.max) ∧
    (∀ a b,
      ((r.yieldOf params a).less (r.yieldOf params b) = true ↔
        (r.yieldOf params a).toInt < (r.yieldOf params b).toInt) ∧
      ((r.yieldOf params a).less (r.yieldOf params b) = false ∧
          (r.yieldOf params b).less (r.yieldOf params a) = false ↔
        r.yieldOf params a = r.yieldOf params b)) ∧
    ∀ a, r.yieldOf params a = r.yieldInWords params a := by
  refine ⟨fun a ha hbought least => ?_, fun a => yieldOf_of_failed, fun a b => ?_,
    yieldOf_eq_inWords params r⟩
  · exact ⟨_, Assessment.assess_eq_ok ha .., fun g => yieldOf_eq_gain_iff hbought least,
      exists_loss_of_no_net hbought⟩
  · exact ⟨Yield.less_iff yieldOf_ne_gain_zero, not_less_yieldOf_iff⟩

/-- A ring through two pools, of which the second takes so much in. -/
def ringThrough (reserveIn : Amount) : Route :=
  [⟨"A", "B", ⟨1000000000, 2000000000, 30, .constantProduct⟩, "first", "x"⟩,
    ⟨"B", "A", ⟨reserveIn, 2000000000, 30, .constantProduct⟩, "second", "y"⟩]

/-- A million gains what the decision finds, a tenth of it loses, the largest amount loses more than
an amount can tell, and through an empty pool any amount does. -/
theorem yields_of_ring :
    let r := ringThrough 1000000000
    (∃ v, assess 1000000 3964198 1213189 0 = .ok v ∧ v.netProfit = 1751009) ∧
      r.yieldOf {} 1000000 = .gain 1751009 ∧ r.yieldOf {} 100000 = .loss 909236 ∧
      r.yieldOf {} Amount.max = .loss Amount.max ∧
      (ringThrough 0).yieldOf {} 1000000 = .loss Amount.max ∧
      (r.yieldOf {} 100000).less (r.yieldOf {} 1000000) = true := by
  intro r
  obtain ⟨hbought, -, hless, -⟩ := objective_agrees_with_the_decision {} r
  obtain ⟨-, hfailed, -, -⟩ := objective_agrees_with_the_decision {} (ringThrough 0)
  have hout : (r.evaluate 1000000).finalOut = 3964198 := by decide +kernel
  have hcost : (Cost.breakdown {} 1000000 r).total = 1213189 := by decide +kernel
  have hmillion : r.yieldOf {} 1000000 = .gain 1751009 := by decide +kernel
  obtain ⟨v, hv, hgain, -⟩ := hbought 1000000 (by decide) (by decide +kernel) 0
  rw [hout, hcost] at hv
  have houtAll : (r.evaluate Amount.max).finalOut = 1331997327 := by decide +kernel
  have hcostAll : (Cost.breakdown {} Amount.max r).total = 132617332495918706 := by decide +kernel
  obtain ⟨w, hw, -, hloss⟩ := hbought Amount.max (by decide) (by decide +kernel) 0
  rw [houtAll, hcostAll] at hw
  obtain ⟨l, hl, hvalue⟩ := hloss (by cases hw; decide)
  have hmost : l = Amount.max := by
    rw [houtAll, hcostAll] at hvalue
    rw [← UInt64.toNat_inj, ← Nat.cast_inj (R := ℤ), hvalue]
    decide
  refine ⟨⟨v, hv, ((hgain _).1 hmillion).1⟩, hmillion, by decide +kernel, hmost ▸ hl,
    hfailed _ (by decide +kernel), (hless _ _).1.2 ?_⟩
  rw [hmillion, show r.yieldOf {} 100000 = .loss 909236 by decide +kernel]
  decide

end Route

end PoolArbitrage
