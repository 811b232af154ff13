import PoolArbitrage.Cost
import PoolArbitrage.Route.Evaluation

/-!
# Searching the amount that yields most

The best amount to trade through a route is searched in a bracket `[lo, hi]`. The yield of an
amount is a gain or a loss, compared as signed numbers; a route that refuses the amount counts as
the greatest loss.

**A step** samples the two ends and the midpoint. Where the low end is strictly best the search
goes on in the lower half, where the midpoint is strictly best in both halves, and otherwise in
the upper half.

**The end.** A bracket is not refined once it is as narrow as the gap, or once the allowed number
of levels is used up; its midpoint is the answer. The gap is a millionth of the smallest amount,
but at least one.

**The trail.** `Search.explore` keeps the brackets it went through as a tree, the trail. The
answer is read off the trail, and so is every amount the search sampled.

Main results: `Search.Bracket.mid_mem`, the midpoint stays in the bracket, and
`Search.value_bestLogged`.
-/

namespace PoolArbitrage

/-- What an amount brings: a gain, or a loss that may be zero. -/
inductive Yield where
  | loss (amount : Amount)
  | gain (amount : Amount)
  deriving DecidableEq, Repr, Inhabited

namespace Yield

/-- The order of the signed values: gains above losses, a smaller loss above a greater. -/
def less : Yield → Yield → Bool
  | gain a, gain b => a < b
  | loss _, gain _ => true
  | gain _, loss _ => false
  | loss a, loss b => b < a

/-- The yield as a signed number. -/
def toInt : Yield → Int
  | gain a => a.toNat
  | loss a => -(a.toNat : Int)

end Yield

/-- What trading an amount through a route brings once its costs are paid. -/
def Route.yieldOf (params : CostParameters) (r : Route) (amount : Amount) : Yield :=
  let e := r.evaluate amount
  if e.failed then .loss Amount.max
  else
    let debit := amount.toNat + (Cost.total params amount r).toNat
    if debit < e.finalOut.toNat then .gain (UInt64.ofNat (e.finalOut.toNat - debit))
    else .loss (Amount.saturate (debit - e.finalOut.toNat))

namespace Search

/-- A range of amounts. -/
structure Bracket where
  lo : Amount
  hi : Amount
  deriving DecidableEq, Repr, Inhabited

namespace Bracket

def width (b : Bracket) : Amount := b.hi - b.lo

def mid (b : Bracket) : Amount := b.lo + b.width / 2

def lower (b : Bracket) : Bracket := ⟨b.lo, b.mid⟩

def upper (b : Bracket) : Bracket := ⟨b.mid, b.hi⟩

theorem toNat_width {b : Bracket} (h : b.lo ≤ b.hi) :
    b.width.toNat = b.hi.toNat - b.lo.toNat := UInt64.toNat_sub_of_le _ _ h

/-- **The midpoint is computed without overflow.** -/
theorem toNat_mid {b : Bracket} (h : b.lo ≤ b.hi) :
    b.mid.toNat = b.lo.toNat + (b.hi.toNat - b.lo.toNat) / 2 := by
  have hh := b.hi.toNat_lt
  have hle : b.lo.toNat ≤ b.hi.toNat := h
  unfold mid
  rw [UInt64.toNat_add, UInt64.toNat_div, toNat_width h]
  simp only [UInt64.reduceToNat]
  omega

theorem mid_mem {b : Bracket} (h : b.lo ≤ b.hi) : b.lo ≤ b.mid ∧ b.mid ≤ b.hi := by
  have hle : b.lo.toNat ≤ b.hi.toNat := h
  have := toNat_mid h
  constructor <;> (rw [UInt64.le_iff_toNat_le]; omega)

end Bracket

/-- Which of three samples a step follows. -/
inductive Choice where
  | low
  | mid
  | high
  deriving DecidableEq, Repr

/-- The low end or the midpoint where it is strictly best, the high end otherwise. -/
def choose (low mid high : Yield) : Choice :=
  if mid.less low && high.less low then .low
  else if low.less mid && high.less mid then .mid
  else .high

/-- The brackets a search went through: where it stopped, and which halves it refined. -/
inductive Trail where
  | stop (b : Bracket)
  | lower (b : Bracket) (rest : Trail)
  | upper (b : Bracket) (rest : Trail)
  | both (b : Bracket) (left right : Trail)
  deriving Repr, Inhabited

/-- The search of a bracket with so many levels left. -/
def explore (objective : Amount → Yield) (gap : Amount) : Nat → Bracket → Trail
  | 0, b => .stop b
  | levels + 1, b =>
    if b.width ≤ gap then .stop b
    else
      match choose (objective b.lo) (objective b.mid) (objective b.hi) with
      | .low => .lower b (explore objective gap levels b.lower)
      | .high => .upper b (explore objective gap levels b.upper)
      | .mid =>
        .both b (explore objective gap levels b.lower) (explore objective gap levels b.upper)

namespace Trail

/-- The amount a trail leads to; of two halves the upper one only where it yields more. -/
def answer (objective : Amount → Yield) : Trail → Amount
  | stop b => b.mid
  | lower _ rest => rest.answer objective
  | upper _ rest => rest.answer objective
  | both _ left right =>
    let a := left.answer objective
    let b := right.answer objective
    if (objective a).less (objective b) then b else a

/-- The amounts whose yield was looked at along a trail. -/
def samples (objective : Amount → Yield) : Trail → List Amount
  | stop _ => []
  | lower b rest | upper b rest => [b.lo, b.mid, b.hi] ++ rest.samples objective
  | both b left right =>
    [b.lo, b.mid, b.hi] ++ left.samples objective ++ right.samples objective ++
      [left.answer objective, right.answer objective]

/-- How deep the brackets of a trail are nested. -/
def depth : Trail → Nat
  | stop _ => 0
  | lower _ rest | upper _ rest => rest.depth + 1
  | both _ left right => Nat.max left.depth right.depth + 1

end Trail

/-- How many levels a search may refine unless told otherwise. -/
def defaultLevels : UInt32 := 12

/-- The width at which a bracket is no longer refined. -/
def gap (lo : Amount) : Amount := if lo / 1000000 < 1 then 1 else lo / 1000000

/-- The trail of the search for the amount that yields most through a route. -/
def trail (params : CostParameters) (r : Route) (lo hi : Amount) (levels : UInt32) : Trail :=
  explore (r.yieldOf params) (gap lo) levels.toNat ⟨lo, hi⟩

/-- The amount of `[lo, hi]` that yields most through a route, as far as the search finds it. -/
def best (params : CostParameters) (r : Route) (lo hi : Amount) (levels : UInt32) : Amount :=
  if hi ≤ lo then lo else (trail params r lo hi levels).answer (r.yieldOf params)

/-- The amounts whose yield the search looks at, in order. -/
def tried (params : CostParameters) (r : Route) (lo hi : Amount) (levels : UInt32) : List Amount :=
  if hi ≤ lo then [] else (trail params r lo hi levels).samples (r.yieldOf params)

/-- The search, with a statement of what it found. -/
def bestLogged (params : CostParameters) (r : Route) (lo hi : Amount) (levels : UInt32) :
    Logged Amount := do
  let amount := best params r lo hi levels
  Logged.noteIf (lo < hi) .trace
    s!"max yield search on {r.symbols}: best amount in [{lo}, {hi}] is {amount}"
  return amount

/-- The evaluation at the amount found. -/
def evaluateBest (params : CostParameters) (r : Route) (lo hi : Amount) (levels : UInt32) :
    Logged Evaluation := do
  let amount ← bestLogged params r lo hi levels
  return r.evaluate amount

theorem value_bestLogged (params : CostParameters) (r : Route) (lo hi : Amount) (levels : UInt32) :
    (bestLogged params r lo hi levels).value = best params r lo hi levels := rfl

end Search

end PoolArbitrage
