import Mathlib
import PoolArbitrage.Proofs.Samples

/-!
# Where yields only rise or only fall

Where larger amounts are worth more all over a range, the best amount is its high end; where they
are worth less, its low end. The search comes as near to that end as it goes anywhere.

**Step.** The midpoint of a refined bracket lies strictly between its ends
(`Search.Refines.mid_between`), so the three samples differ. Where yields rise, the high end is
worth most and the upper half is followed; where they fall, the low end and the lower half.

**Run (`Search.Runs.hi_of_rising`, `Search.Runs.lo_of_falling`).** So the end worth most is never
left, and the one bracket where the recursion stops has it.

**Theorem (`Search.search_converges`).** The bracket is no wider than the tolerance, and the amount
found is its midpoint.
-/

namespace PoolArbitrage

namespace Search

variable {value : Amount → ℤ} {objective : Amount → Yield} {gap : Amount} {limit depth : UInt32}
  {b c : Bracket} {t : Trail} {a : Amount}

/-- The midpoint of a refined bracket is neither of its ends. -/
theorem Refines.mid_between (h : Refines gap limit depth b) (hgap : 1 ≤ gap) (hb : b.lo ≤ b.hi) :
    b.lo < b.mid ∧ b.mid < b.hi := by
  have hwide := h.one_lt_width hgap
  have hmid := Bracket.toNat_mid hb
  rw [Bracket.toNat_width hb] at hwide
  simp only [UInt64.lt_iff_toNat_lt]
  omega

namespace Runs

/-- **Where larger amounts are worth more** the recursion stops at the high end. -/
theorem hi_of_rising (hvalue : Measures value objective) (h : Runs objective gap limit depth b t a)
    (hgap : 1 ≤ gap) (hb : b.lo ≤ b.hi)
    (hrise : ∀ x y, b.lo ≤ x → x < y → y ≤ b.hi → value x < value y) :
    ∀ c ∈ t.stops, c.hi = b.hi := by
  induction h with
  | stop _ => simp [Trail.stops]
  | lower hrefines hlow _ _ =>
    -- The lower half is followed only where the low end is worth more than the midpoint.
    obtain ⟨hlo, -⟩ := hrefines.mid_between hgap hb
    have hless := hrise _ _ (UInt64.le_refl _) hlo (Bracket.mid_mem hb).2
    exact absurd hless (hvalue.of_choose_low hlow).1.not_gt
  | upper _ _ _ ih =>
    obtain ⟨hlo, hhi⟩ := Bracket.mid_mem hb
    exact ih hhi fun x y hx => hrise x y (UInt64.le_trans hlo hx)
  | both hrefines hmid _ _ _ _ =>
    obtain ⟨-, hhi⟩ := hrefines.mid_between hgap hb
    have hless := hrise _ _ (Bracket.mid_mem hb).1 hhi (UInt64.le_refl _)
    exact absurd hless (hvalue.of_choose_mid hmid).2.not_gt

/-- **Where larger amounts are worth less** it stops at the low end. -/
theorem lo_of_falling (hvalue : Measures value objective) (h : Runs objective gap limit depth b t a)
    (hgap : 1 ≤ gap) (hb : b.lo ≤ b.hi)
    (hfall : ∀ x y, b.lo ≤ x → x < y → y ≤ b.hi → value y < value x) :
    ∀ c ∈ t.stops, c.lo = b.lo := by
  induction h with
  | stop _ => simp [Trail.stops]
  | lower _ _ _ ih =>
    obtain ⟨hlo, hhi⟩ := Bracket.mid_mem hb
    exact ih hlo fun x y hx hxy hy => hfall x y hx hxy (UInt64.le_trans hy hhi)
  | upper hrefines hhigh _ _ =>
    obtain ⟨hlo, hhi⟩ := hrefines.mid_between hgap hb
    have hmid := hfall _ _ (UInt64.le_refl _) hlo (Bracket.mid_mem hb).2
    have hend := hfall _ _ (UInt64.le_refl _) (UInt64.lt_trans hlo hhi) (UInt64.le_refl _)
    rcases hvalue.of_choose_high hhigh with hworth | hworth
    · exact absurd hmid hworth.not_gt
    · exact absurd hend hworth.not_gt
  | both hrefines hmid _ _ _ _ =>
    obtain ⟨hlo, -⟩ := hrefines.mid_between hgap hb
    have hless := hfall _ _ (UInt64.le_refl _) hlo (Bracket.mid_mem hb).2
    exact absurd hless (hvalue.of_choose_mid hmid).1.not_gt

end Runs

variable {params : CostParameters} {r : Route} {lo hi : Amount} {levels : UInt32}

/-- **A search converges on monotone yields.** Where larger amounts are worth more all over the
range, the amount found is within the tolerance of the high end; where they are worth less, of the
low end. -/
theorem search_converges (h : lo < hi) (params : CostParameters) (r : Route) (levels : UInt32) :
    let found := best params r lo hi levels
    let worth := r.netYield params
    ((∀ a b, lo ≤ a → a < b → b ≤ hi → worth a < worth b) →
      hi.toNat ≤ found.toNat + tolerance lo hi levels) ∧
    ((∀ a b, lo ≤ a → a < b → b ≤ hi → worth b < worth a) →
      found.toNat ≤ lo.toNat + tolerance lo hi levels) := by
  intro found worth
  have hle : lo ≤ hi := UInt64.le_of_lt h
  have hvalue := measures_yieldOf params r
  have hruns := runs_trail params r levels h
  obtain ⟨c, hc, hfound⟩ := hruns.exists_stop
  have hwithin := hruns.within hle c ((trail params r lo hi levels).stops_subset hc)
  have hreach : divUp (tolerance lo hi levels) 2 ≤ tolerance lo hi levels := by
    have hone : 1 ≤ tolerance lo hi levels := le_max_of_le_left (le_max_left ..)
    unfold divUp
    omega
  have hnear : ∀ e ∈ c.ends, e.toNat ≤ c.mid.toNat + tolerance lo hi levels ∧
      c.mid.toNat ≤ e.toNat + tolerance lo hi levels := by
    intro e he
    have hhalf := Bracket.mid_near hwithin.ordered (width_le_tolerance h hc) he
    omega
  rw [show found = c.mid from hfound]
  constructor
  · intro hrise
    have hend : c.hi = hi := hruns.hi_of_rising hvalue (one_le_gap lo) hle hrise c hc
    have hclose := (hnear c.hi (by simp [Bracket.ends])).1
    rwa [hend] at hclose
  · intro hfall
    have hend : c.lo = lo := hruns.lo_of_falling hvalue (one_le_gap lo) hle hfall c hc
    have hclose := (hnear c.lo (by simp [Bracket.ends])).2
    rwa [hend] at hclose

/-- What relates the first few amounts is checked number by number. -/
theorem forall_lt_of_upTo {n : Nat} {p : Amount → Amount → Prop}
    (h : ∀ i < n, ∀ j < n, 1 ≤ i → i < j → p (UInt64.ofNat i) (UInt64.ofNat j)) (x y : Amount)
    (hx : 1 ≤ x) (hxy : x < y) (hy : y.toNat < n) : p x y := by
  have hlt : x.toNat < y.toNat := hxy
  have hchecked := h x.toNat (hlt.trans hy) y.toNat hy hx hlt
  rwa [UInt64.ofNat_toNat, UInt64.ofNat_toNat] at hchecked

/-- From one to nine, with one level only, the tolerance is four: through pools that pay a million
for one the search stops at seven, and the other way around at three. -/
theorem converges_to_either_end :
    let spread : Route :=
      [⟨"A", "B", ⟨1000000, 1000000000000, 0, .constantProduct⟩, "first", "x"⟩,
        ⟨"B", "A", ⟨1000000000000, 2000000000000, 0, .constantProduct⟩, "second", "y"⟩]
    let back : Route :=
      [⟨"A", "B", ⟨2000000000000, 1000000000000, 0, .constantProduct⟩, "second", "y"⟩,
        ⟨"B", "A", ⟨1000000000000, 1000000, 0, .constantProduct⟩, "first", "x"⟩]
    tolerance 1 9 1 = 4 ∧
    (best {} spread 1 9 1 = 7 ∧ 9 ≤ (best {} spread 1 9 1).toNat + 4) ∧
    (best {} back 1 9 1 = 3 ∧ (best {} back 1 9 1).toNat ≤ 1 + 4) := by
  intro spread back
  have htolerance : tolerance 1 9 1 = 4 := by decide
  have hrise : ∀ x y : Amount, 1 ≤ x → x < y → y ≤ 9 →
      spread.netYield {} x < spread.netYield {} y := by
    have hchecked : ∀ i < 10, ∀ j < 10, 1 ≤ i → i < j →
        spread.netYield {} (UInt64.ofNat i) < spread.netYield {} (UInt64.ofNat j) := by
      decide +kernel
    intro x y hx hxy hy
    exact forall_lt_of_upTo (p := fun x y => spread.netYield {} x < spread.netYield {} y)
      hchecked x y hx hxy (Nat.lt_succ_of_le hy)
  have hfall : ∀ x y : Amount, 1 ≤ x → x < y → y ≤ 9 →
      back.netYield {} y < back.netYield {} x := by
    have hchecked : ∀ i < 10, ∀ j < 10, 1 ≤ i → i < j →
        back.netYield {} (UInt64.ofNat j) < back.netYield {} (UInt64.ofNat i) := by
      decide +kernel
    intro x y hx hxy hy
    exact forall_lt_of_upTo (p := fun x y => back.netYield {} y < back.netYield {} x)
      hchecked x y hx hxy (Nat.lt_succ_of_le hy)
  have hhigh := (search_converges (by decide : (1 : Amount) < 9) {} spread 1).1 hrise
  have hlow := (search_converges (by decide : (1 : Amount) < 9) {} back 1).2 hfall
  rw [htolerance] at hhigh hlow
  exact ⟨htolerance, ⟨by decide +kernel, hhigh⟩, by decide +kernel, hlow⟩

end Search

end PoolArbitrage
