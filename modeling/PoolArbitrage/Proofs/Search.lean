import Mathlib
import PoolArbitrage.Route.Search

/-!
# Where a search ends up

A search goes from a bracket to one of its halves, or to both, and answers with a midpoint. A half
of a bracket and its midpoint lie in the bracket, so the answer does too, whatever the yields it
goes by (`Search.contains_answer_explore`).
-/

namespace PoolArbitrage

namespace Search

namespace Bracket

variable {b : Bracket} {a : Amount}

/-- The amount lies in the bracket. -/
def Contains (b : Bracket) (a : Amount) : Prop := b.lo ≤ a ∧ a ≤ b.hi

theorem contains_of_lower (h : b.lo ≤ b.hi) (ha : b.lower.Contains a) : b.Contains a :=
  ⟨ha.1, UInt64.le_trans ha.2 (mid_mem h).2⟩

theorem contains_of_upper (h : b.lo ≤ b.hi) (ha : b.upper.Contains a) : b.Contains a :=
  ⟨UInt64.le_trans (mid_mem h).1 ha.1, ha.2⟩

end Bracket

/-- **The answer of a search lies in its bracket**, whatever it goes by. -/
theorem contains_answer_explore (objective : Amount → Yield) (gap : Amount) (levels : Nat)
    {b : Bracket} (h : b.lo ≤ b.hi) :
    b.Contains ((explore objective gap levels b).answer objective) := by
  induction levels generalizing b with
  | zero => exact Bracket.mid_mem h
  | succ levels ih =>
    have hlower := Bracket.contains_of_lower h (ih (b := b.lower) (Bracket.mid_mem h).1)
    have hupper := Bracket.contains_of_upper h (ih (b := b.upper) (Bracket.mid_mem h).2)
    rw [explore]
    split
    · exact Bracket.mid_mem h
    · cases choose (objective b.lo) (objective b.mid) (objective b.hi) with
      | low => exact hlower
      | high => exact hupper
      | mid =>
        simp only [Trail.answer]
        split
        · exact hupper
        · exact hlower

/-- The amount found lies in the range searched. -/
theorem best_mem (params : CostParameters) (r : Route) {lo hi : Amount} (levels : UInt32)
    (h : lo ≤ hi) : lo ≤ best params r lo hi levels ∧ best params r lo hi levels ≤ hi := by
  rw [best]
  split
  · exact ⟨UInt64.le_refl lo, h⟩
  · exact contains_answer_explore _ _ _ (b := ⟨lo, hi⟩) h

end Search

end PoolArbitrage
