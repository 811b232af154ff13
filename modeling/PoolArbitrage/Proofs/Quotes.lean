import Mathlib
import PoolArbitrage.Proofs.Flow

/-!
# The least amount to sell for a wanted output

Selling takes the fee off, rounds down, moves along the curve and rounds down again. A quote walks
this back and rounds up twice. Each rounding up is the exact inverse of the rounding down it
answers: an amount gives at least `net` after the fee just where it is at least `grossFor net`
(`Pool.le_afterFee_iff`), and `net` gives at least the wanted output just where it is at least
`netFor wanted` (`Pool.le_curve_iff`). So the two compose, and nothing is lost between them.

**Theorem (`Pool.quote_is_the_least_input`).** An amount buys what is wanted just where it is at
least the quote. There is no quote just where no amount that fits a word buys it.

**Words.** The quote is computed in words of 128 and 256 bits, whose sums and products could be cut
off at the top (`Pool.quoteInWords`). **Theorem (`Pool.inputFor_eq_quoteInWords`).** Nothing is ever
cut off: the word before the fee is below `2¹²⁸`, however close to `2⁶⁴` the reserves are.
-/

namespace PoolArbitrage

/-- Rounding a quotient up is the least number that makes up for the division. -/
theorem divUp_le_iff {n d k : Nat} (hd : 0 < d) : divUp n d ≤ k ↔ n ≤ k * d := by
  rw [divUp, ← Nat.ceilDiv_eq_add_pred_div, ceilDiv_le_iff_le_mul hd, Nat.mul_comm]

namespace Pool

variable {p : Pool} {a wanted : Amount} {net amount out : Nat}

/-! ## Walking one swap back -/

/-- The least amount whose part after the fee is at least `net`. -/
def grossFor (p : Pool) (net : Nat) : Nat := divUp (net * whole) (whole - p.fee.toNat)

/-- The least amount after the fee for which the curve gives at least `out`. -/
def netFor (p : Pool) (out : Nat) : Nat :=
  divUp (p.reserveIn.toNat * out) (p.reserveOut.toNat - out)

/-- **Taking the fee off, walked back.** -/
theorem le_afterFee_iff (hfee : p.fee.toNat < whole) :
    net ≤ p.afterFee amount ↔ p.grossFor net ≤ amount := by
  have hleft : 0 < whole - p.fee.toNat := by omega
  rw [grossFor, divUp_le_iff hleft, afterFee, Nat.le_div_iff_mul_le (by decide)]

/-- **The curve, walked back.** -/
theorem le_curve_iff (hin : 0 < p.reserveIn.toNat) (hout : out < p.reserveOut.toNat) :
    out ≤ p.curve net ↔ p.netFor out ≤ net := by
  have hleft : 0 < p.reserveOut.toNat - out := by omega
  have hsum : 0 < p.reserveIn.toNat + net := by omega
  rw [netFor, divUp_le_iff hleft, curve, Nat.le_div_iff_mul_le hsum]
  have hsplit : net * (p.reserveOut.toNat - out) + net * out = net * p.reserveOut.toNat := by
    rw [← Nat.mul_add, Nat.sub_add_cancel hout.le]
  have hcomm : out * net = net * out := Nat.mul_comm ..
  have hcomm' : out * p.reserveIn.toNat = p.reserveIn.toNat * out := Nat.mul_comm ..
  rw [Nat.mul_add]
  omega

/-- Nothing is left after a fee that takes the whole, and the curve gives nothing for nothing. -/
theorem curve_afterFee_of_fullFee (hfee : p.fee.toNat = whole) :
    p.curve (p.afterFee amount) = 0 := by
  simp [afterFee, curve, hfee]

/-! ## Amounts that buy what is wanted -/

/-- The amount buys at least what is wanted. -/
def Buys (p : Pool) (a wanted : Amount) : Prop := ∃ out, p.output a = .ok out ∧ wanted ≤ out

theorem buys_iff_of_output {bought : Amount} (h : p.output a = .ok bought) :
    p.Buys a wanted ↔ wanted ≤ bought := by
  constructor
  · intro hbuys
    obtain ⟨out, hout, hle⟩ := hbuys
    rw [h] at hout
    cases hout
    exact hle
  · exact fun hle => ⟨bought, h, hle⟩

theorem buys_iff (hp : p.fault? = none) :
    p.Buys a wanted ↔ wanted.toNat ≤ p.curve (p.afterFee a.toNat) := by
  obtain ⟨out, hout, hcurve⟩ := output_eq hp a
  rw [buys_iff_of_output hout, UInt64.le_iff_toNat_le, hcurve]

/-- No amount buys the whole reserve, and none buys anything where the fee takes the whole. -/
theorem not_buys (hp : p.fault? = none) (hw : 0 < wanted)
    (h : p.reserveOut ≤ wanted ∨ p.fee.toNat = whole) : ¬ p.Buys a wanted := by
  obtain ⟨hin, hout, -⟩ := fault?_eq_none.1 hp
  have hpos : 0 < wanted.toNat := UInt64.lt_iff_toNat_lt.1 hw
  rw [buys_iff hp, Nat.not_le]
  rcases h with hall | hfull
  · exact (curve_lt hin hout _).trans_le (UInt64.le_iff_toNat_le.1 hall)
  · rwa [curve_afterFee_of_fullFee hfull]

/-- The least amount to sell, whether one word holds it or not. -/
def needed (p : Pool) (wanted : Amount) : Nat := p.grossFor (p.netFor wanted.toNat)

/-- **An amount buys what is wanted just where it is at least the amount needed.** -/
theorem buys_iff_needed_le (hp : p.fault? = none) (hw : wanted < p.reserveOut)
    (hfee : p.fee.toNat < whole) : p.Buys a wanted ↔ p.needed wanted ≤ a.toNat := by
  rw [buys_iff hp, le_curve_iff (fault?_eq_none.1 hp).1 (UInt64.lt_iff_toNat_lt.1 hw),
    le_afterFee_iff hfee, needed]

/-! ## The quote -/

/-- A quote that is not refused beforehand is the amount needed, if one word holds it. -/
theorem inputFor_eq (hp : p.fault? = none) (hzero : wanted ≠ 0) (hall : ¬ p.reserveOut ≤ wanted)
    (hfull : p.fee.toNat ≠ whole) :
    p.inputFor wanted =
      (Amount.ofNat? (p.needed wanted)).elim (.error (.inputTooLarge wanted)) .ok := by
  simp only [inputFor, hp, if_neg hzero, if_neg hall, if_neg hfull, needed, grossFor, netFor]
  generalize Amount.ofNat? _ = held
  cases held <;> rfl

/-- There is no quote for what no amount buys, and liquidity is said to be missing. -/
theorem inputFor_of_not_buys (hp : p.fault? = none) (hw : 0 < wanted)
    (h : p.reserveOut ≤ wanted ∨ p.fee.toNat = whole) :
    ∃ e, p.inputFor wanted = .error e ∧ e.kind = .insufficientLiquidity := by
  have hzero : wanted ≠ 0 := UInt64.pos_iff_ne_zero.1 hw
  simp only [inputFor, hp, if_neg hzero]
  by_cases hall : p.reserveOut ≤ wanted
  · exact ⟨_, if_pos hall, rfl⟩
  · rw [if_neg hall, if_pos (h.resolve_left hall)]
    exact ⟨_, rfl, rfl⟩

/-- Otherwise the quote is the amount needed, or one word does not hold it. -/
theorem inputFor_of_lt (hp : p.fault? = none) (hw : 0 < wanted) (hout : wanted < p.reserveOut)
    (hfee : p.fee.toNat < whole) :
    (∃ n, p.inputFor wanted = .ok n ∧ n.toNat = p.needed wanted) ∨
      p.inputFor wanted = .error (.inputTooLarge wanted) ∧ UInt64.size ≤ p.needed wanted := by
  rw [inputFor_eq hp (UInt64.pos_iff_ne_zero.1 hw) (UInt64.not_le.2 hout) hfee.ne]
  cases hfits : Amount.ofNat? (p.needed wanted) with
  | none => exact .inr ⟨rfl, Amount.ofNat?_eq_none.1 hfits⟩
  | some n => exact .inl ⟨n, rfl, Amount.ofNat?_eq_some hfits⟩

/-- Either no amount can do, or the amount needed does. -/
theorem out_of_reach_or (hp : p.fault? = none) (wanted : Amount) :
    (p.reserveOut ≤ wanted ∨ p.fee.toNat = whole) ∨
      wanted < p.reserveOut ∧ p.fee.toNat < whole := by
  have hfee := (fault?_eq_none.1 hp).2.2
  rw [← UInt64.not_le]
  by_cases hall : p.reserveOut ≤ wanted
  · exact .inl (.inl hall)
  · rcases hfee.eq_or_lt with hfull | hlt
    · exact .inl (.inr hfull)
    · exact .inr ⟨hall, hlt⟩

/-- **An amount buys what is wanted just where it is at least the quote.** -/
theorem buys_iff_of_inputFor {n : Amount} (hp : p.fault? = none) (hw : 0 < wanted)
    (h : p.inputFor wanted = .ok n) : p.Buys a wanted ↔ n ≤ a := by
  rcases out_of_reach_or hp wanted with hno | hlt
  · obtain ⟨e, he, -⟩ := inputFor_of_not_buys hp hw hno
    rw [h] at he
    cases he
  · obtain ⟨m, hm, hneeded⟩ | ⟨he, -⟩ := inputFor_of_lt hp hw hlt.1 hlt.2
    · rw [h] at hm
      cases hm
      rw [buys_iff_needed_le hp hlt.1 hlt.2, UInt64.le_iff_toNat_le, hneeded]
    · rw [h] at he
      cases he

/-- **Where there is no quote, no amount that fits a word buys what is wanted.** -/
theorem not_buys_of_inputFor {e : SwapError} (hp : p.fault? = none) (hw : 0 < wanted)
    (h : p.inputFor wanted = .error e) (a : Amount) : ¬ p.Buys a wanted := by
  rcases out_of_reach_or hp wanted with hno | hlt
  · exact not_buys hp hw hno
  · obtain ⟨n, hn, -⟩ | ⟨-, hsize⟩ := inputFor_of_lt hp hw hlt.1 hlt.2
    · rw [h] at hn
      cases hn
    · rw [buys_iff_needed_le hp hlt.1 hlt.2, Nat.not_le]
      exact a.toNat_lt_size.trans_le hsize

/-- What is said where there is no quote. -/
theorem kind_of_inputFor {e : SwapError} (hp : p.fault? = none) (hw : 0 < wanted)
    (h : p.inputFor wanted = .error e) :
    e.kind = if p.reserveOut ≤ wanted ∨ p.fee.toNat = whole then .insufficientLiquidity
      else .invalidReserves := by
  rcases out_of_reach_or hp wanted with hno | hlt
  · obtain ⟨e', he', hkind⟩ := inputFor_of_not_buys hp hw hno
    rw [h] at he'
    cases he'
    rw [if_pos hno, hkind]
  · have hnot : ¬ (p.reserveOut ≤ wanted ∨ p.fee.toNat = whole) :=
      not_or.2 ⟨UInt64.not_le.2 hlt.1, hlt.2.ne⟩
    obtain ⟨n, hn, -⟩ | ⟨he, -⟩ := inputFor_of_lt hp hw hlt.1 hlt.2
    · rw [h] at hn
      cases hn
    · rw [h] at he
      cases he
      rw [if_neg hnot]
      rfl

/-! ## The quote in words -/

/-- The amount needed as the words compute it: the part before the fee in 128 bits, with the fee
in 256 bits. -/
def neededInWords (p : Pool) (wanted : Amount) : BitVec 256 :=
  let reserve := BitVec.ofNat 128 p.reserveIn.toNat
  let left := BitVec.ofNat 128 (p.reserveOut - wanted).toNat
  let net := (reserve * BitVec.ofNat 128 wanted.toNat + left - 1) / left
  let rate := BitVec.ofNat 256 (whole - p.fee.toNat)
  (net.setWidth 256 * BitVec.ofNat 256 whole + rate - 1) / rate

/-- The quote as the words compute it. -/
def quoteInWords (p : Pool) (wanted : Amount) : Except SwapError Amount :=
  match p.fault? with
  | some e => .error e
  | none =>
    if wanted = 0 then .ok 0
    else if p.reserveOut ≤ wanted then .error (.exceedsReserve wanted p.reserveOut)
    else if p.fee.toNat = whole then .error .fullFee
    else
      let amount := p.neededInWords wanted
      if BitVec.ofNat 256 Amount.max.toNat < amount then .error (.inputTooLarge wanted)
      else .ok (UInt64.ofNat amount.toNat)

/-- A quotient rounded up in a word is the exact one where the sum fits the word. -/
theorem toNat_divUp_word {w : Nat} {n d : BitVec w} (hd : 0 < d.toNat)
    (hsum : n.toNat + d.toNat < 2 ^ w) : ((n + d - 1) / d).toNat = divUp n.toNat d.toNat := by
  have hw : 1 < 2 ^ w := by omega
  have hone : (1 : BitVec w).toNat = 1 := by simp [Nat.mod_eq_of_lt hw]
  have hadd : (n + d).toNat = n.toNat + d.toNat := BitVec.toNat_add_of_lt hsum
  rw [BitVec.toNat_udiv, BitVec.toNat_sub_of_le (by rw [BitVec.le_def, hone, hadd]; omega), hadd,
    hone, divUp]

/-- The part before the fee fits its word, the rounding up included. -/
theorem toNat_netInWords (hw : wanted < p.reserveOut) :
    let reserve := BitVec.ofNat 128 p.reserveIn.toNat
    let left := BitVec.ofNat 128 (p.reserveOut - wanted).toNat
    ((reserve * BitVec.ofNat 128 wanted.toNat + left - 1) / left).toNat =
      p.netFor wanted.toNat := by
  intro reserve left
  have hlt : wanted.toNat < p.reserveOut.toNat := UInt64.lt_iff_toNat_lt.1 hw
  have hin : p.reserveIn.toNat ≤ 2 ^ 64 - 1 := Nat.le_sub_one_of_lt p.reserveIn.toNat_lt
  have hout : p.reserveOut.toNat < 2 ^ 64 := p.reserveOut.toNat_lt
  have hprod : p.reserveIn.toNat * wanted.toNat ≤ (2 ^ 64 - 1) * (2 ^ 64 - 1) :=
    Nat.mul_le_mul hin (by omega)
  have hsub : (p.reserveOut - wanted).toNat = p.reserveOut.toNat - wanted.toNat :=
    UInt64.toNat_sub_of_le _ _ (UInt64.le_of_lt hw)
  have hleft : left.toNat = p.reserveOut.toNat - wanted.toNat := by
    rw [BitVec.toNat_ofNat, hsub, Nat.mod_eq_of_lt (by omega)]
  have hreserve : (reserve * BitVec.ofNat 128 wanted.toNat).toNat =
      p.reserveIn.toNat * wanted.toNat := by
    rw [← BitVec.ofNat_mul, BitVec.toNat_ofNat, Nat.mod_eq_of_lt (by omega)]
  rw [toNat_divUp_word (by omega) (by omega), hreserve, hleft, netFor]

/-- **Nothing is cut off the amount needed.** -/
theorem toNat_neededInWords (hw : wanted < p.reserveOut) (hfee : p.fee.toNat < whole) :
    (p.neededInWords wanted).toNat = p.needed wanted := by
  have hnet := toNat_netInWords hw
  simp only at hnet
  simp only [neededInWords]
  generalize (_ : BitVec 128) / _ = net at hnet ⊢
  have hword : net.toNat < 2 ^ 128 := net.isLt
  have hrate : (BitVec.ofNat 256 (whole - p.fee.toNat)).toNat = whole - p.fee.toNat := by
    rw [BitVec.toNat_ofNat, Nat.mod_eq_of_lt (by simp only [whole]; omega)]
  have hgross : (net.setWidth 256 * BitVec.ofNat 256 whole).toNat = net.toNat * whole := by
    rw [BitVec.toNat_mul, BitVec.toNat_setWidth_of_le (by decide), BitVec.toNat_ofNat]
    simp only [whole]
    rw [Nat.mod_eq_of_lt (by omega)]
  rw [toNat_divUp_word (by omega) (by rw [hgross, hrate]; simp only [whole]; omega), hgross, hrate,
    hnet, needed, grossFor]

/-- **The words compute the quote.** -/
theorem inputFor_eq_quoteInWords (p : Pool) (wanted : Amount) :
    p.inputFor wanted = p.quoteInWords wanted := by
  cases hp : p.fault? with
  | some e => simp only [inputFor, quoteInWords, hp]
  | none =>
    by_cases hzero : wanted = 0
    · simp only [inputFor, quoteInWords, hp, if_pos hzero]
    by_cases hall : p.reserveOut ≤ wanted
    · simp only [inputFor, quoteInWords, hp, if_neg hzero, if_pos hall]
    by_cases hfull : p.fee.toNat = whole
    · simp only [inputFor, quoteInWords, hp, if_neg hzero, if_neg hall, if_pos hfull]
    have hfee : p.fee.toNat < whole := lt_of_le_of_ne (fault?_eq_none.1 hp).2.2 hfull
    have hneeded := toNat_neededInWords (UInt64.not_le.1 hall) hfee
    have hmax : (BitVec.ofNat 256 Amount.max.toNat).toNat = UInt64.size - 1 := by decide
    rw [inputFor_eq hp hzero hall hfull]
    simp only [quoteInWords, hp, if_neg hzero, if_neg hall, if_neg hfull, BitVec.lt_def, hmax,
      hneeded]
    cases hfits : Amount.ofNat? (p.needed wanted) with
    | none =>
      have hsize := Amount.ofNat?_eq_none.1 hfits
      have hbig : UInt64.size - 1 < p.needed wanted := Nat.lt_of_lt_of_le (by decide) hsize
      rw [if_pos hbig]
      rfl
    | some n =>
      have hn := Amount.ofNat?_eq_some hfits
      have hsmall : ¬ UInt64.size - 1 < p.needed wanted :=
        Nat.not_lt.2 (hn ▸ Nat.le_sub_one_of_lt n.toNat_lt_size)
      rw [if_neg hsmall, ← hn, UInt64.ofNat_toNat]
      rfl

/-! ## The quote and the swap -/

/-- **The quote is the least input.** For a pool that trades and a wanted output above zero: if
there is a quote, an amount buys what is wanted just where it is at least the quote; there is none
just where no amount buys it, and then liquidity is missing where the whole reserve is wanted or
the fee takes the whole, and one word does not hold the amount needed otherwise. The words that
compute the quote are exact. -/
theorem quote_is_the_least_input (hin : 0 < p.reserveIn) (hout : 0 < p.reserveOut)
    (hfee : p.fee.toNat ≤ whole) (hw : 0 < wanted) :
    (∀ n, p.inputFor wanted = .ok n →
      (∀ a, ∃ out, p.output a = .ok out ∧ (wanted ≤ out ↔ n ≤ a)) ∧
        IsLeast {a | p.Buys a wanted} n) ∧
    ((∃ e, p.inputFor wanted = .error e) ↔ ∀ a out, p.output a = .ok out → out < wanted) ∧
    (∀ e, p.inputFor wanted = .error e →
      e.kind = if p.reserveOut ≤ wanted ∨ p.fee.toNat = whole then .insufficientLiquidity
        else .invalidReserves) ∧
    p.quoteInWords wanted = p.inputFor wanted := by
  have hp : p.fault? = none := fault?_eq_none.2
    ⟨UInt64.lt_iff_toNat_lt.1 hin, UInt64.lt_iff_toNat_lt.1 hout, hfee⟩
  refine ⟨fun n hn => ⟨fun a => ?_, ?_, fun a ha => ?_⟩, ⟨fun hnone a out ha => ?_, fun hno => ?_⟩,
    fun e he => kind_of_inputFor hp hw he, (inputFor_eq_quoteInWords p wanted).symm⟩
  · obtain ⟨out, ha, -⟩ := output_eq hp a
    exact ⟨out, ha, by rw [← buys_iff_of_output ha, buys_iff_of_inputFor hp hw hn]⟩
  · exact (buys_iff_of_inputFor hp hw hn).2 UInt64.le_rfl
  · exact (buys_iff_of_inputFor hp hw hn).1 ha
  · obtain ⟨e, he⟩ := hnone
    rw [← UInt64.not_le, ← buys_iff_of_output ha]
    exact not_buys_of_inputFor hp hw he a
  · cases hn : p.inputFor wanted with
    | error e => exact ⟨e, rfl⟩
    | ok n =>
      -- The quote itself would be an amount that buys what is wanted.
      obtain ⟨out, ha, hle⟩ := (buys_iff_of_inputFor hp hw hn).2 UInt64.le_rfl
      exact absurd (hno n out ha) (UInt64.not_lt.2 hle)

/-- A pool of full words: half of the reserve has a quote that a word just holds, and one unit more
has none. -/
theorem quotes_of_full_words :
    let p : Pool := ⟨Amount.max, Amount.max, 0, .constantProduct⟩
    (p.inputFor 9223372036854775807 = .ok 18446744073709551614 ∧
      IsLeast {a | p.Buys a 9223372036854775807} 18446744073709551614) ∧
    (∃ e, p.inputFor 9223372036854775808 = .error e ∧ e.kind = .invalidReserves) ∧
    ∀ a out, p.output a = .ok out → out < 9223372036854775808 := by
  intro p
  have hin : 0 < p.reserveIn := by decide
  have hout : 0 < p.reserveOut := by decide
  have hfee : p.fee.toNat ≤ whole := by decide
  have hhalf : (0 : Amount) < 9223372036854775807 := by decide
  have hmore : (0 : Amount) < 9223372036854775808 := by decide
  obtain ⟨hquoted, -⟩ := quote_is_the_least_input hin hout hfee hhalf
  obtain ⟨-, hnone, hkind, -⟩ := quote_is_the_least_input hin hout hfee hmore
  have hok : p.inputFor 9223372036854775807 = .ok 18446744073709551614 := by decide +kernel
  have herror : p.inputFor 9223372036854775808 = .error (.inputTooLarge 9223372036854775808) := by
    decide +kernel
  exact ⟨⟨hok, (hquoted _ hok).2⟩, ⟨_, herror, hkind _ herror⟩, hnone.1 ⟨_, herror⟩⟩

end Pool

end PoolArbitrage
