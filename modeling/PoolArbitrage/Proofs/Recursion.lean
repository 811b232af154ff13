import Mathlib
import PoolArbitrage.Proofs.Search

/-!
# How deep a search goes

The search of a bracket calls itself on one half or on both, one level deeper, until the bracket is
as narrow as the gap or the depth has come to its limit. Depth and limit are words
(`Search.Runs`).

A refined bracket is wider than the gap, and the gap is at least one, so each half is narrower than
the whole and at most half as wide, rounded up. Whatever the yields, a bracket of width `2ᵏ` is left
after `k` levels (`Search.Runs.depth_le`), and more than `k` levels do not show
(`Search.explore_of_width_le`). An amount has 64 bits, so no search goes deeper than 64.

**Theorem (`Search.search_ends`).** Every search comes to its end, within its range and at most 64
deep, and limits from 64 on all lead to the same amount.
-/

namespace PoolArbitrage

namespace Search

namespace Bracket

variable {b c : Bracket}

/-- The bracket stands in another one, with its ends in order. -/
structure Within (c b : Bracket) : Prop where
  lo : b.lo ≤ c.lo
  ordered : c.lo ≤ c.hi
  hi : c.hi ≤ b.hi

theorem within_self (h : b.lo ≤ b.hi) : b.Within b := ⟨UInt64.le_refl _, h, UInt64.le_refl _⟩

theorem Within.of_lower (h : b.lo ≤ b.hi) (hc : c.Within b.lower) : c.Within b :=
  ⟨hc.lo, hc.ordered, UInt64.le_trans hc.hi (mid_mem h).2⟩

theorem Within.of_upper (h : b.lo ≤ b.hi) (hc : c.Within b.upper) : c.Within b :=
  ⟨UInt64.le_trans (mid_mem h).1 hc.lo, hc.ordered, hc.hi⟩

/-- The halves of a bracket are at most half as wide, rounded up. -/
theorem halves_le {n : Nat} (h : b.lo ≤ b.hi) (hwidth : b.width.toNat ≤ 2 * n) :
    b.lower.width.toNat ≤ n ∧ b.upper.width.toNat ≤ n := by
  have hle : b.lo.toNat ≤ b.hi.toNat := h
  have hmid := toNat_mid h
  rw [toNat_width h] at hwidth
  constructor
  · rw [toNat_width (b := b.lower) (mid_mem h).1]
    show b.mid.toNat - b.lo.toNat ≤ n
    omega
  · rw [toNat_width (b := b.upper) (mid_mem h).2]
    show b.hi.toNat - b.mid.toNat ≤ n
    omega

/-- The midpoint is computed within the word: neither the difference of the ends nor the sum leaves
it, and the result is the middle rounded down. -/
structure MidFits (b : Bracket) : Prop where
  difference : b.hi.toBitVec.usubOverflow b.lo.toBitVec = false
  sum : b.lo.toBitVec.uaddOverflow (b.width / 2).toBitVec = false
  value : b.mid.toNat = (b.lo.toNat + b.hi.toNat) / 2

theorem midFits (h : b.lo ≤ b.hi) : b.MidFits where
  difference := by
    have hle : b.lo.toNat ≤ b.hi.toNat := h
    exact decide_eq_false (Nat.not_lt.2 hle)
  sum := by
    have hle : b.lo.toNat ≤ b.hi.toNat := h
    have hfits := b.hi.toNat_lt
    refine decide_eq_false (Nat.not_le.2 ?_)
    show b.lo.toNat + (b.width / 2).toNat < 2 ^ 64
    rw [UInt64.toNat_div, toNat_width h]
    simp only [UInt64.reduceToNat]
    omega
  value := by
    have hle : b.lo.toNat ≤ b.hi.toNat := h
    rw [toNat_mid h]
    omega

end Bracket

/-- The brackets of a trail, refined or not. -/
def Trail.brackets : Trail → List Bracket
  | stop b => [b]
  | lower b rest | upper b rest => b :: rest.brackets
  | both b left right => b :: (left.brackets ++ right.brackets)

/-! ## The recursion -/

/-- A bracket met at some depth is refined further. -/
def Refines (gap : Amount) (limit depth : UInt32) (b : Bracket) : Prop :=
  gap < b.width ∧ depth < limit

/-- **The recursion** at a bracket, entered at some depth: it runs along a trail and comes back with
an amount. -/
inductive Runs (objective : Amount → Yield) (gap : Amount) (limit : UInt32) :
    UInt32 → Bracket → Trail → Amount → Prop
  | stop {depth : UInt32} {b : Bracket} : ¬ Refines gap limit depth b →
      Runs objective gap limit depth b (.stop b) b.mid
  | lower {depth : UInt32} {b : Bracket} {rest : Trail} {a : Amount} :
      Refines gap limit depth b →
      choose (objective b.lo) (objective b.mid) (objective b.hi) = .low →
      Runs objective gap limit (depth + 1) b.lower rest a →
      Runs objective gap limit depth b (.lower b rest) a
  | upper {depth : UInt32} {b : Bracket} {rest : Trail} {a : Amount} :
      Refines gap limit depth b →
      choose (objective b.lo) (objective b.mid) (objective b.hi) = .high →
      Runs objective gap limit (depth + 1) b.upper rest a →
      Runs objective gap limit depth b (.upper b rest) a
  | both {depth : UInt32} {b : Bracket} {left right : Trail} {a a' : Amount} :
      Refines gap limit depth b →
      choose (objective b.lo) (objective b.mid) (objective b.hi) = .mid →
      Runs objective gap limit (depth + 1) b.lower left a →
      Runs objective gap limit (depth + 1) b.upper right a' →
      Runs objective gap limit depth b (.both b left right)
        (if (objective a).less (objective a') then a' else a)

variable {objective : Amount → Yield} {gap : Amount} {limit depth : UInt32} {b c : Bracket}
  {t t' : Trail} {a a' : Amount} {k : Nat}

namespace Refines

/-- The next depth is one more: the depth stays below the limit, so it never wraps. -/
theorem toNat_succ (h : Refines gap limit depth b) : (depth + 1).toNat = depth.toNat + 1 := by
  have hlt : depth.toNat < limit.toNat := h.2
  have hlimit := limit.toNat_lt
  rw [UInt32.toNat_add]
  exact Nat.mod_eq_of_lt (by simp only [UInt32.reduceToNat]; omega)

theorem one_lt_width (hgap : 1 ≤ gap) (h : Refines gap limit depth b) : 1 < b.width.toNat := by
  have hone : 1 ≤ gap.toNat := hgap
  exact hone.trans_lt h.1

end Refines

/-- A bracket wider than one and no wider than a power of two has halves within half that power. -/
theorem halves_of_le_pow (h : b.lo ≤ b.hi) (hwide : 1 < b.width.toNat)
    (hle : b.width.toNat ≤ 2 ^ k) :
    ∃ j, k = j + 1 ∧ b.lower.width.toNat ≤ 2 ^ j ∧ b.upper.width.toNat ≤ 2 ^ j := by
  cases k with
  | zero => omega
  | succ j =>
    rw [Nat.pow_succ'] at hle
    exact ⟨j, rfl, Bracket.halves_le h hle⟩

namespace Runs

/-- The recursion runs along one trail only, and comes back with one amount. -/
theorem unique (h : Runs objective gap limit depth b t a)
    (h' : Runs objective gap limit depth b t' a') : t' = t ∧ a' = a := by
  induction h generalizing t' a' with
  | stop hstop =>
    cases h' with
    | stop _ => exact ⟨rfl, rfl⟩
    | lower hrefines _ _ | upper hrefines _ _ | both hrefines _ _ _ => exact absurd hrefines hstop
  | lower hrefines hlow _ ih =>
    cases h' with
    | stop hstop => exact absurd hrefines hstop
    | lower _ _ hrest =>
      obtain ⟨rfl, rfl⟩ := ih hrest
      exact ⟨rfl, rfl⟩
    | upper _ hchoose _ | both _ hchoose _ _ => simp [hlow] at hchoose
  | upper hrefines hhigh _ ih =>
    cases h' with
    | stop hstop => exact absurd hrefines hstop
    | upper _ _ hrest =>
      obtain ⟨rfl, rfl⟩ := ih hrest
      exact ⟨rfl, rfl⟩
    | lower _ hchoose _ | both _ hchoose _ _ => simp [hhigh] at hchoose
  | both hrefines hmid _ _ ihleft ihright =>
    cases h' with
    | stop hstop => exact absurd hrefines hstop
    | both _ _ hleft hright =>
      obtain ⟨rfl, rfl⟩ := ihleft hleft
      obtain ⟨rfl, rfl⟩ := ihright hright
      exact ⟨rfl, rfl⟩
    | lower _ hchoose _ | upper _ hchoose _ => simp [hmid] at hchoose

/-- **The recursion comes to its end**, along the trail explored with the levels that are left. -/
theorem explored (objective : Amount → Yield) (gap : Amount) {levels : Nat}
    (hlevels : depth.toNat + levels = limit.toNat) (b : Bracket) :
    Runs objective gap limit depth b (explore objective gap levels b)
      ((explore objective gap levels b).answer objective) := by
  -- Depth and levels left add up to the limit all along, so both rules stop at the same bracket.
  induction levels generalizing depth b with
  | zero =>
    refine .stop fun hrefines => ?_
    have hlt : depth.toNat < limit.toNat := hrefines.2
    omega
  | succ levels ih =>
    have hdepth : depth < limit := UInt32.lt_iff_toNat_lt.2 (by omega)
    rw [explore]
    by_cases hnarrow : b.width ≤ gap
    · rw [if_pos hnarrow]
      exact .stop fun hrefines => UInt64.not_lt.2 hnarrow hrefines.1
    · have hrefines : Refines gap limit depth b := ⟨UInt64.not_le.1 hnarrow, hdepth⟩
      have hnext : (depth + 1).toNat + levels = limit.toNat := by
        rw [hrefines.toNat_succ]
        omega
      rw [if_neg hnarrow]
      cases hchoose : choose (objective b.lo) (objective b.mid) (objective b.hi) with
      | low => exact .lower hrefines hchoose (ih hnext b.lower)
      | high => exact .upper hrefines hchoose (ih hnext b.upper)
      | mid => exact .both hrefines hchoose (ih hnext b.lower) (ih hnext b.upper)

/-- **Every bracket of a run stands in the first**, with its ends in order. -/
theorem within (h : Runs objective gap limit depth b t a) (hb : b.lo ≤ b.hi) :
    ∀ c ∈ t.brackets, c.Within b := by
  induction h with
  | stop _ =>
    simp only [Trail.brackets, List.forall_mem_singleton]
    exact Bracket.within_self hb
  | lower _ _ _ ih =>
    simp only [Trail.brackets, List.forall_mem_cons]
    exact ⟨Bracket.within_self hb, fun c hc => (ih (Bracket.mid_mem hb).1 c hc).of_lower hb⟩
  | upper _ _ _ ih =>
    simp only [Trail.brackets, List.forall_mem_cons]
    exact ⟨Bracket.within_self hb, fun c hc => (ih (Bracket.mid_mem hb).2 c hc).of_upper hb⟩
  | both _ _ _ _ ihleft ihright =>
    simp only [Trail.brackets, List.forall_mem_cons, List.forall_mem_append]
    exact ⟨Bracket.within_self hb, fun c hc => (ihleft (Bracket.mid_mem hb).1 c hc).of_lower hb,
      fun c hc => (ihright (Bracket.mid_mem hb).2 c hc).of_upper hb⟩

/-- **A bracket of width `2ᵏ` is left after `k` levels.** -/
theorem depth_le (h : Runs objective gap limit depth b t a) (hgap : 1 ≤ gap) (hb : b.lo ≤ b.hi)
    (hwidth : b.width.toNat ≤ 2 ^ k) : t.depth ≤ k := by
  induction h generalizing k with
  | stop _ => exact Nat.zero_le k
  | lower hrefines _ _ ih =>
    obtain ⟨j, rfl, hlower, -⟩ := halves_of_le_pow hb (hrefines.one_lt_width hgap) hwidth
    exact Nat.succ_le_succ (ih (Bracket.mid_mem hb).1 hlower)
  | upper hrefines _ _ ih =>
    obtain ⟨j, rfl, -, hupper⟩ := halves_of_le_pow hb (hrefines.one_lt_width hgap) hwidth
    exact Nat.succ_le_succ (ih (Bracket.mid_mem hb).2 hupper)
  | both hrefines _ _ _ ihleft ihright =>
    obtain ⟨j, rfl, hlower, hupper⟩ := halves_of_le_pow hb (hrefines.one_lt_width hgap) hwidth
    have hleft := ihleft (Bracket.mid_mem hb).1 hlower
    have hright := ihright (Bracket.mid_mem hb).2 hupper
    exact Nat.succ_le_succ (Nat.max_le.2 ⟨hleft, hright⟩)

end Runs

/-- **More than `k` levels do not show** in the search of a bracket of width `2ᵏ`. -/
theorem explore_of_width_le (objective : Amount → Yield) (hgap : 1 ≤ gap) (hb : b.lo ≤ b.hi)
    (hwidth : b.width.toNat ≤ 2 ^ k) (more : Nat) :
    explore objective gap (k + more) b = explore objective gap k b := by
  induction k generalizing b with
  | zero =>
    have hnarrow : b.width ≤ gap := by
      have hone : 1 ≤ gap.toNat := hgap
      exact UInt64.le_iff_toNat_le.2 (hwidth.trans hone)
    cases more with
    | zero => rfl
    | succ more => rw [Nat.zero_add, explore, explore, if_pos hnarrow]
  | succ k ih =>
    rw [Nat.succ_add, explore, explore]
    by_cases hnarrow : b.width ≤ gap
    · rw [if_pos hnarrow, if_pos hnarrow]
    · have hwide : 1 < b.width.toNat := by
        have hone : 1 ≤ gap.toNat := hgap
        exact hone.trans_lt (UInt64.not_le.1 hnarrow)
      obtain ⟨j, hj, hlower, hupper⟩ := halves_of_le_pow hb hwide hwidth
      cases hj
      rw [if_neg hnarrow, if_neg hnarrow, ih (Bracket.mid_mem hb).1 hlower,
        ih (Bracket.mid_mem hb).2 hupper]

/-! ## Searches for the amount that yields most -/

variable {params : CostParameters} {r : Route} {lo hi : Amount} {levels : UInt32}

theorem one_le_gap (lo : Amount) : 1 ≤ Search.gap lo := by
  rw [Search.gap]
  split
  · exact UInt64.le_refl 1
  · next h => exact UInt64.not_lt.1 h

theorem best_of_le (h : hi ≤ lo) : best params r lo hi levels = lo := if_pos h

/-- A search of a range is the recursion entered at the range. -/
theorem runs_trail (params : CostParameters) (r : Route) (levels : UInt32) (h : lo < hi) :
    Runs (r.yieldOf params) (Search.gap lo) levels 0 ⟨lo, hi⟩ (trail params r lo hi levels)
      (best params r lo hi levels) := by
  rw [best, if_neg (UInt64.not_le.2 h)]
  exact .explored (r.yieldOf params) (Search.gap lo) (Nat.zero_add _) ⟨lo, hi⟩

/-- From 64 on the number of levels does not show. -/
theorem trail_eq_of_le (h : lo ≤ hi) (hlevels : 64 ≤ levels) :
    trail params r lo hi levels = trail params r lo hi 64 := by
  obtain ⟨more, hmore⟩ := Nat.exists_eq_add_of_le (UInt32.le_iff_toNat_le.1 hlevels)
  have hfits : (Bracket.mk lo hi).width.toNat ≤ 2 ^ 64 := (UInt64.toNat_lt _).le
  rw [trail, trail, hmore]
  exact explore_of_width_le _ (one_le_gap lo) h hfits more

/-- **Every search comes to its end.** Over an empty range it is the smallest amount. Over any other
the recursion runs along one trail and comes back with one amount of the range. It goes at most 64
deep, all its brackets stand in the range, and their midpoints are computed within the word. Limits
from 64 on lead to the same amount. -/
theorem search_ends (params : CostParameters) (r : Route) (lo hi : Amount) (levels : UInt32) :
    let found := best params r lo hi levels
    (hi ≤ lo → found = lo) ∧
    (lo < hi → lo ≤ found ∧ found ≤ hi ∧
      ∃ t, Runs (r.yieldOf params) (Search.gap lo) levels 0 ⟨lo, hi⟩ t found ∧
        (∀ t' a, Runs (r.yieldOf params) (Search.gap lo) levels 0 ⟨lo, hi⟩ t' a →
          t' = t ∧ a = found) ∧
        t.depth ≤ 64 ∧ ∀ b ∈ t.brackets, b.Within ⟨lo, hi⟩ ∧ b.MidFits) ∧
    ∀ levels' : UInt32, 64 ≤ levels → 64 ≤ levels' → best params r lo hi levels' = found := by
  intro found
  refine ⟨fun hempty => best_of_le hempty, fun hlt => ?_, fun levels' h h' => ?_⟩
  · have hle : lo ≤ hi := UInt64.le_of_lt hlt
    have hruns := runs_trail params r levels hlt
    have hfits : (Bracket.mk lo hi).width.toNat ≤ 2 ^ 64 := (UInt64.toNat_lt _).le
    obtain ⟨hlow, hhigh⟩ := best_mem params r levels hle
    refine ⟨hlow, hhigh, trail params r lo hi levels, hruns, fun t' a => hruns.unique,
      hruns.depth_le (one_le_gap lo) hle hfits, ?_⟩
    intro b hb
    have hwithin := hruns.within hle b hb
    exact ⟨hwithin, Bracket.midFits hwithin.ordered⟩
  · show best params r lo hi levels' = best params r lo hi levels
    rcases UInt64.le_total hi lo with hempty | hle
    · rw [best_of_le hempty, best_of_le hempty]
    · rw [best, best, trail_eq_of_le hle h', trail_eq_of_le hle h]

/-- A route that refuses every amount, searched over all amounts: each level looks into the upper
half, down to the last, and a limit no search comes to leads to the same amount. -/
theorem search_of_unusable :
    let r : Route := [⟨"A", "B", {}, "first", "x"⟩]
    best {} r 0 Amount.max 4294967295 = 18446744073709551614 ∧
    ∃ t, Runs (r.yieldOf {}) (Search.gap 0) 64 0 ⟨0, Amount.max⟩ t 18446744073709551614 ∧
      t.depth = 64 := by
  intro r
  have hfound : best {} r 0 Amount.max 64 = 18446744073709551614 := by decide +kernel
  obtain ⟨-, hproper, hlimits⟩ := search_ends {} r 0 Amount.max 64
  obtain ⟨-, -, t, hruns, hunique, -, -⟩ := hproper (by decide)
  have htrail := runs_trail {} r 64 (by decide : 0 < Amount.max)
  refine ⟨(hlimits 4294967295 (by decide) (by decide)).trans hfound, t, hfound ▸ hruns, ?_⟩
  rw [← (hunique _ _ htrail).1]
  decide +kernel

end Search

end PoolArbitrage
