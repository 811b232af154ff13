import Mathlib
import PoolArbitrage.Proofs.Costs
import PoolArbitrage.Proofs.Defects
import PoolArbitrage.Proofs.Words

/-!
# The books of one pass over the hops

The fees, what they leave in play and the curve figures can be told apart, each by a recursion of
its own. They can also be kept in one pass over the hops, in words of fixed width: the fees add up
in a wide word, the value in play goes down by each of them, and the amount that goes along the
curve is followed as long as the pools admit it (`Cost.Ledger`).

**Theorem (`Cost.breakdown_eq_breakdownInWords`).** Both give the same breakdown. The fees so far
and what is left in play always make up the amount (`Cost.Ledger.Balanced`), so no fee is more than
what it is taken from and the fees together stay an amount. The one product that a wide word may not
hold is that of the subtotal and the margin.

Estimating has no part in the fees: a ledger is booked alike whatever its figures are.
-/

namespace PoolArbitrage

namespace Cost

/-- The books after some hops: the fees so far, the value they leave in play, the amount that enters
the next hop in its own token, and the curve figures. -/
structure Ledger where
  fees : BitVec 128
  inPlay : Amount
  entering : Amount
  figures : CurveFigures

/-- The fee of a hop on the amount in play, in a wide word. -/
def feeWord (h : Hop) (inPlay : Amount) : BitVec 128 :=
  inPlay.wide * BitVec.ofNat 128 (Nat.min h.pool.fee.toNat whole) / BitVec.ofNat 128 whole

namespace Ledger

/-- Nothing is booked, and the amount is in play. -/
def opened (amount : Amount) : Ledger := ⟨0, amount, amount, {}⟩

/-- The curve figures after hop `i` and the amount that leaves it. Once a pool has refused the
amount, nothing is estimated any more. -/
def estimate (l : Ledger) (i : Nat) (h : Hop) : CurveFigures × Amount :=
  match l.figures.stopped with
  | some _ => (l.figures, l.entering)
  | none =>
    match h.pool.slippage l.entering, h.pool.priceImpact l.entering, h.pool.output l.entering with
    | .ok s, .ok p, .ok out =>
      ({ slippage := l.figures.slippage + l.inPlay.toFloat * s / 100
         impact := l.figures.impact + l.inPlay.toFloat * p / 100 }, out)
    | .error e, _, _ | _, .error e, _ | _, _, .error e =>
      ({ l.figures with stopped := some (i, e) }, l.entering)

/-- Books hop `i`. -/
def book (l : Ledger) (i : Nat) (h : Hop) : Ledger where
  fees := l.fees + (Amount.ofWide (feeWord h l.inPlay)).wide
  inPlay := l.inPlay - Amount.ofWide (feeWord h l.inPlay)
  entering := (l.estimate i h).2
  figures := (l.estimate i h).1

/-- Books the hops of a route, the first of them as hop `i`. -/
def bookAll (l : Ledger) (i : Nat) : Route → Ledger
  | [] => l
  | h :: rest => bookAll (l.book i h) (i + 1) rest

end Ledger

/-- The three fees in a wide word. -/
def subtotalWord (params : CostParameters) (amount : Amount) (r : Route) : BitVec 128 :=
  params.networkFee.wide + params.priorityFee.wide + ((Ledger.opened amount).bookAll 0 r).fees

/-- The surcharge over the three fees in a wide word. -/
def marginWord (params : CostParameters) (amount : Amount) (r : Route) : BitVec 128 :=
  subtotalWord params amount r * BitVec.ofNat 128 (marginBps params.safetyMarginPct) /
    BitVec.ofNat 128 whole

/-- The breakdown as one pass over the hops and the words compute it. -/
def breakdownInWords (params : CostParameters) (amount : Amount) (r : Route) : CostBreakdown :=
  let books := (Ledger.opened amount).bookAll 0 r
  { networkFee := params.networkFee
    priorityFee := params.priorityFee
    exchangeFees := Amount.narrow books.fees
    slippageCost := books.figures.slippage.toUInt64
    impactCost := books.figures.impact.toUInt64
    safetyMargin := Amount.narrow (marginWord params amount r)
    total := Amount.narrow (subtotalWord params amount r + marginWord params amount r) }

/-! ## The fees -/

theorem toNat_capWord (h : Hop) :
    (BitVec.ofNat 128 (Nat.min h.pool.fee.toNat whole)).toNat = Nat.min h.pool.fee.toNat whole := by
  have hcap : Nat.min h.pool.fee.toNat whole ≤ whole := Nat.min_le_right ..
  rw [BitVec.toNat_ofNat, Nat.mod_eq_of_lt (Nat.lt_of_le_of_lt hcap (by decide))]

theorem toNat_feeWord (h : Hop) (inPlay : Amount) :
    (feeWord h inPlay).toNat = (feeOn h inPlay).toNat := by
  have hcap : (BitVec.ofNat 128 (Nat.min h.pool.fee.toNat whole)).toNat < UInt64.size := by
    rw [toNat_capWord]
    exact Nat.lt_of_le_of_lt (Nat.min_le_right ..) (by decide)
  rw [feeWord, BitVec.toNat_udiv, toNat_mul_of_lt inPlay.toNat_wide_lt hcap, Amount.toNat_wide,
    toNat_capWord, toNat_feeOn]
  rfl

/-- The wide word holds the fee of a hop, and an amount does. -/
theorem ofWide_feeWord (h : Hop) (inPlay : Amount) :
    Amount.ofWide (feeWord h inPlay) = feeOn h inPlay := by
  have hword := toNat_feeWord h inPlay
  exact UInt64.toNat_inj.1 ((Amount.toNat_ofWide (hword ▸ (feeOn h inPlay).toNat_lt)).trans hword)

namespace Ledger

variable {l : Ledger} {amount : Amount} {i : Nat} {h : Hop} {r : Route}

/-- **The fees so far and what is left in play make up the amount.** -/
def Balanced (l : Ledger) (amount : Amount) : Prop := l.fees.toNat + l.inPlay.toNat = amount.toNat

theorem balanced_opened (amount : Amount) : (opened amount).Balanced amount := by
  simp [Balanced, opened]

theorem inPlay_book (l : Ledger) (i : Nat) (h : Hop) :
    (l.book i h).inPlay = l.inPlay - feeOn h l.inPlay := by
  rw [book, ofWide_feeWord]

/-- The sum of the fees stays an amount, so the wide word holds it. -/
theorem toNat_fees_book (hl : l.Balanced amount) (i : Nat) (h : Hop) :
    (l.book i h).fees.toNat = l.fees.toNat + (feeOn h l.inPlay).toNat := by
  have hlt : l.fees.toNat < UInt64.size :=
    Nat.lt_of_le_of_lt (Nat.le.intro hl) amount.toNat_lt
  rw [book, ofWide_feeWord, toNat_add_of_lt hlt (feeOn h l.inPlay).toNat_wide_lt,
    Amount.toNat_wide]

/-- No fee is more than what it is taken from, so the books stay balanced. -/
theorem Balanced.book (hl : l.Balanced amount) (i : Nat) (h : Hop) :
    (l.book i h).Balanced amount := by
  have hfee := feeOn_le h l.inPlay
  rw [Balanced, toNat_fees_book hl, inPlay_book, UInt64.toNat_sub_of_le _ _ hfee]
  have hsum : l.fees.toNat + l.inPlay.toNat = amount.toNat := hl
  omega

/-- **Booking a route adds its fees.** -/
theorem toNat_fees_bookAll (hl : l.Balanced amount) (i : Nat) (r : Route) :
    (l.bookAll i r).fees.toNat = l.fees.toNat + exchangeFees l.inPlay r := by
  induction r generalizing l i with
  | nil => rfl
  | cons h rest ih =>
    rw [bookAll, ih (hl.book i h), toNat_fees_book hl, inPlay_book, exchangeFees, Nat.add_assoc]

/-! ## The curve figures -/

theorem figures_bookAll_of_stopped (hl : l.figures.stopped ≠ none) (i : Nat) (r : Route) :
    (l.bookAll i r).figures = l.figures := by
  induction r generalizing l i with
  | nil => rfl
  | cons h rest ih =>
    have hkept : (l.book i h).figures = l.figures := by
      obtain ⟨stop, hstop⟩ := Option.ne_none_iff_exists'.1 hl
      simp only [book, estimate, hstop]
    rw [bookAll, ih (by rwa [hkept]), hkept]

/-- **Booking a route gathers its curve figures.** -/
theorem figures_bookAll (hl : l.figures.stopped = none) (i : Nat) (r : Route) :
    (l.bookAll i r).figures = curveFrom l.figures i l.inPlay l.entering r := by
  induction r generalizing l i with
  | nil => rfl
  | cons h rest ih =>
    cases hout : h.pool.output l.entering with
    | error e =>
      -- The figures are closed here, and the hops that follow leave them so.
      obtain ⟨hslippage, himpact⟩ := Pool.quotes_of_error hout
      have hbook : (l.book i h).figures = { l.figures with stopped := some (i, e) } := by
        simp only [book, estimate, hl, hslippage, himpact, hout]
      rw [bookAll, figures_bookAll_of_stopped (by simp [hbook]), hbook]
      simp only [curveFrom, hslippage, himpact, hout]
    | ok out =>
      obtain ⟨slippage, impact, hslippage, himpact⟩ := Pool.exists_quotes hout
      rw [bookAll, ih (by simp only [book, estimate, hl, hslippage, himpact, hout])]
      simp only [curveFrom, hslippage, himpact, hout, book, estimate, hl, ofWide_feeWord]

end Ledger

/-! ## The breakdown -/

variable (params : CostParameters) (amount : Amount) (r : Route)

theorem exchangeFees_le : exchangeFees amount r ≤ amount.toNat :=
  Nat.le.intro (exchangeFees_add_remaining amount r)

theorem toNat_fees_opened :
    ((Ledger.opened amount).bookAll 0 r).fees.toNat = exchangeFees amount r := by
  rw [Ledger.toNat_fees_bookAll (Ledger.balanced_opened amount)]
  exact Nat.zero_add _

/-- Each of the three fees is an amount, and so the subtotal is far below the wide word. -/
theorem subtotal_lt : subtotal params amount r < 3 * UInt64.size := by
  have hnetwork : params.networkFee.toNat < UInt64.size := params.networkFee.toNat_lt
  have hpriority : params.priorityFee.toNat < UInt64.size := params.priorityFee.toNat_lt
  have hexchange : exchangeFees amount r < UInt64.size :=
    (exchangeFees_le amount r).trans_lt amount.toNat_lt
  rw [subtotal]
  omega

theorem toNat_subtotalWord :
    (subtotalWord params amount r).toNat = subtotal params amount r := by
  have hfixed : (params.networkFee.wide + params.priorityFee.wide).toNat =
      params.networkFee.toNat + params.priorityFee.toNat := by
    rw [toNat_add_of_lt params.networkFee.toNat_wide_lt params.priorityFee.toNat_wide_lt,
      Amount.toNat_wide, Amount.toNat_wide]
  have hsum : subtotal params amount r < 2 ^ 128 :=
    (subtotal_lt params amount r).trans (by decide)
  rw [subtotalWord, BitVec.toNat_add_of_lt (by rwa [hfixed, toNat_fees_opened]), hfixed,
    toNat_fees_opened, subtotal]

/-- The product of subtotal and margin is cut off at the top of its word. -/
theorem toNat_marginWord : (marginWord params amount r).toNat = margin params amount r := by
  have hmargin : (BitVec.ofNat 128 (marginBps params.safetyMarginPct)).toNat =
      marginBps params.safetyMarginPct := by
    have hle := marginBps_le params.safetyMarginPct
    rw [BitVec.toNat_ofNat, Nat.mod_eq_of_lt (Nat.lt_of_le_of_lt hle (by decide))]
  rw [marginWord, BitVec.toNat_udiv, BitVec.toNat_mul, toNat_subtotalWord, hmargin, margin,
    surcharge]
  rfl

/-- What is cut off of the product leaves a surcharge that still fits beside the subtotal. -/
theorem toNat_totalWord :
    (subtotalWord params amount r + marginWord params amount r).toNat =
      subtotal params amount r + margin params amount r := by
  have hsubtotal := subtotal_lt params amount r
  have hmargin : margin params amount r ≤ wideWord / whole :=
    Nat.div_le_div_right (Nat.mod_lt _ (by decide)).le
  have hsum : 3 * UInt64.size + wideWord / whole < 2 ^ 128 := by decide
  rw [BitVec.toNat_add_of_lt, toNat_subtotalWord, toNat_marginWord]
  rw [toNat_subtotalWord, toNat_marginWord]
  omega

/-- **One pass in words gives the breakdown.** -/
theorem breakdown_eq_breakdownInWords :
    breakdown params amount r = breakdownInWords params amount r := by
  have hfigures : ((Ledger.opened amount).bookAll 0 r).figures = curve amount r :=
    Ledger.figures_bookAll rfl 0 r
  simp only [breakdown, breakdownWith, breakdownInWords, hfigures, Amount.narrow_eq,
    toNat_fees_opened, toNat_marginWord, toNat_totalWord, total]

end Cost

end PoolArbitrage
