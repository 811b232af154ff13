import Mathlib
import PoolArbitrage.Proofs.Samples

/-!
# What each step of a search keeps

A step refines a bracket. It samples both ends and the midpoint, and goes on in one half or in both.
The comparisons are strict, so where several samples tie for the best, neither the low end nor the
midpoint counts as best, and the search takes the upper half. One of its two ends is among those
that tie.

**One step.** The half or halves it goes on in have at an end a sample worth no less than the other
two. The low end or the midpoint was strictly best, or one of the two ends of the upper half is
worth no less than the low end (`Search.Measures.keepsBest_of_choose_high`).

**A run (`Search.Runs.keeps_best`).** So does every step of the recursion, by induction on the run.
The brackets of its trail are those refined and those where it stopped
(`Search.Trail.perm_brackets`), so no step is left out.

**Theorem (`Search.steps_keep_the_best_sample`).** Every step of a search goes on where the best of
its three samples is.
-/

namespace PoolArbitrage

namespace Search

/-- A bracket refined, and the half or halves the search goes on in. -/
structure Step where
  bracket : Bracket
  halves : List Bracket
  deriving DecidableEq, Repr

namespace Trail

/-- The bracket a trail starts from. -/
def root : Trail → Bracket
  | stop b | lower b _ | upper b _ | both b _ _ => b

/-- The steps of a trail. -/
def steps : Trail → List Step
  | stop _ => []
  | lower b rest | upper b rest => ⟨b, [rest.root]⟩ :: rest.steps
  | both b left right => ⟨b, [left.root, right.root]⟩ :: (left.steps ++ right.steps)

theorem root_mem_brackets (t : Trail) : t.root ∈ t.brackets := by
  cases t <;> exact List.mem_cons_self

/-- **The brackets of a trail** are those its steps refine and those where it stops. -/
theorem perm_brackets (t : Trail) : t.brackets.Perm (t.steps.map (·.bracket) ++ t.stops) := by
  induction t with
  | stop b => exact List.Perm.refl _
  | lower b rest ih | upper b rest ih => exact ih.cons b
  | both b left right ihleft ihright =>
    simp only [brackets, steps, stops, List.map_cons, List.map_append, List.cons_append,
      List.append_assoc]
    refine List.Perm.cons b ((ihleft.append ihright).trans ?_)
    rw [List.append_assoc]
    exact List.Perm.append_left _ (List.perm_append_comm_assoc ..)

/-- A step goes on in brackets of the trail. -/
theorem halves_subset (t : Trail) : ∀ s ∈ t.steps, s.halves ⊆ t.brackets := by
  induction t with
  | stop b => simp [steps]
  | lower b rest ih | upper b rest ih =>
    simp only [steps, List.forall_mem_cons]
    refine ⟨?_, fun s hs => List.subset_cons_of_subset b (ih s hs)⟩
    exact List.subset_cons_of_subset b
      (List.cons_subset.2 ⟨rest.root_mem_brackets, List.nil_subset _⟩)
  | both b left right ihleft ihright =>
    have hleft : left.brackets ⊆ (both b left right).brackets :=
      List.subset_cons_of_subset b (List.subset_append_left ..)
    have hright : right.brackets ⊆ (both b left right).brackets :=
      List.subset_cons_of_subset b (List.subset_append_right ..)
    simp only [steps, List.forall_mem_cons, List.forall_mem_append]
    refine ⟨?_, fun s hs => List.Subset.trans (ihleft s hs) hleft,
      fun s hs => List.Subset.trans (ihright s hs) hright⟩
    simp [hleft left.root_mem_brackets, hright right.root_mem_brackets]

end Trail

/-! ## One step -/

variable {value : Amount → ℤ} {objective : Amount → Yield} {gap : Amount} {limit depth : UInt32}
  {b : Bracket} {t : Trail} {a e : Amount}

/-- One of the three samples of a bracket, and worth no less than the other two. -/
structure Bracket.IsBest (value : Amount → ℤ) (b : Bracket) (e : Amount) : Prop where
  sample : e ∈ [b.lo, b.mid, b.hi]
  best : ∀ s ∈ [b.lo, b.mid, b.hi], value s ≤ value e

/-- The step goes on in halves of its bracket, and each of them has one best sample at an end. -/
structure Step.KeepsBest (value : Amount → ℤ) (s : Step) : Prop where
  halves : s.halves ∈ [[s.bracket.lower], [s.bracket.upper], [s.bracket.lower, s.bracket.upper]]
  best : ∃ e, s.bracket.IsBest value e ∧ ∀ h ∈ s.halves, e ∈ h.ends ∧ h.Contains e

theorem Bracket.contains_of_mem_ends (hb : b.lo ≤ b.hi) (he : e ∈ b.ends) : b.Contains e := by
  simp only [ends, List.mem_cons, List.not_mem_nil, or_false] at he
  rcases he with rfl | rfl
  · exact ⟨UInt64.le_refl _, hb⟩
  · exact ⟨hb, UInt64.le_refl _⟩

namespace Measures

/-- The lower half has the low end, which was strictly best. -/
theorem keepsBest_of_choose_low (hvalue : Measures value objective) (hb : b.lo ≤ b.hi)
    (h : choose (objective b.lo) (objective b.mid) (objective b.hi) = .low) :
    Step.KeepsBest value ⟨b, [b.lower]⟩ := by
  obtain ⟨hmid, hhi⟩ := hvalue.of_choose_low h
  have hbest : b.IsBest value b.lo := ⟨by simp, by simp [hmid.le, hhi.le]⟩
  have hend : b.lo ∈ b.lower.ends := List.mem_cons_self
  have hlower : b.lower.lo ≤ b.lower.hi := (Bracket.mid_mem hb).1
  refine ⟨by simp, b.lo, hbest, ?_⟩
  simpa using ⟨hend, Bracket.contains_of_mem_ends hlower hend⟩

/-- Both halves have the midpoint, which was strictly best: it is the high end of the one and the
low end of the other. -/
theorem keepsBest_of_choose_mid (hvalue : Measures value objective) (hb : b.lo ≤ b.hi)
    (h : choose (objective b.lo) (objective b.mid) (objective b.hi) = .mid) :
    Step.KeepsBest value ⟨b, [b.lower, b.upper]⟩ := by
  obtain ⟨hlo, hhi⟩ := hvalue.of_choose_mid h
  have hbest : b.IsBest value b.mid := ⟨by simp, by simp [hlo.le, hhi.le]⟩
  have hend : b.mid ∈ b.lower.ends := List.mem_cons_of_mem _ List.mem_cons_self
  have hend' : b.mid ∈ b.upper.ends := List.mem_cons_self
  obtain ⟨hlower, hupper⟩ := Bracket.mid_mem hb
  refine ⟨by simp, b.mid, hbest, ?_⟩
  simpa using ⟨⟨hend, Bracket.contains_of_mem_ends hlower hend⟩,
    hend', Bracket.contains_of_mem_ends hupper hend'⟩

/-- **Ties fall to the upper half**, and one of its ends is best. -/
theorem keepsBest_of_choose_high (hvalue : Measures value objective) (hb : b.lo ≤ b.hi)
    (h : choose (objective b.lo) (objective b.mid) (objective b.hi) = .high) :
    Step.KeepsBest value ⟨b, [b.upper]⟩ := by
  have hlo := hvalue.of_choose_high h
  have hupper : b.upper.lo ≤ b.upper.hi := (Bracket.mid_mem hb).2
  obtain ⟨e, hend, hbest⟩ : ∃ e ∈ b.upper.ends, b.IsBest value e := by
    rcases le_total (value b.mid) (value b.hi) with hle | hle
    · have hover : value b.lo ≤ value b.hi := hlo.elim (·.trans hle) id
      exact ⟨b.hi, List.mem_cons_of_mem _ List.mem_cons_self, by simp, by simp [hover, hle]⟩
    · have hover : value b.lo ≤ value b.mid := hlo.elim id (·.trans hle)
      exact ⟨b.mid, List.mem_cons_self, by simp, by simp [hover, hle]⟩
  refine ⟨by simp, e, hbest, ?_⟩
  simpa using ⟨hend, Bracket.contains_of_mem_ends hupper hend⟩

end Measures

/-! ## A run -/

namespace Runs

theorem root_eq (h : Runs objective gap limit depth b t a) : t.root = b := by
  cases h <;> rfl

/-- **Every step of a run keeps a best sample.** -/
theorem keeps_best (hvalue : Measures value objective) (h : Runs objective gap limit depth b t a)
    (hb : b.lo ≤ b.hi) : ∀ s ∈ t.steps, s.KeepsBest value := by
  induction h with
  | stop _ => simp [Trail.steps]
  | lower _ hlow hrest ih =>
    simp only [Trail.steps, List.forall_mem_cons, hrest.root_eq]
    exact ⟨hvalue.keepsBest_of_choose_low hb hlow, ih (Bracket.mid_mem hb).1⟩
  | upper _ hhigh hrest ih =>
    simp only [Trail.steps, List.forall_mem_cons, hrest.root_eq]
    exact ⟨hvalue.keepsBest_of_choose_high hb hhigh, ih (Bracket.mid_mem hb).2⟩
  | both _ hmid hleft hright ihleft ihright =>
    simp only [Trail.steps, List.forall_mem_cons, List.forall_mem_append, hleft.root_eq,
      hright.root_eq]
    exact ⟨hvalue.keepsBest_of_choose_mid hb hmid, ihleft (Bracket.mid_mem hb).1,
      ihright (Bracket.mid_mem hb).2⟩

end Runs

/-- **Every step of a search keeps the best sample.** The recursion over a range runs along the
trail, whose brackets are those its steps refine and those where it stops. Each step is at a bracket
within the range and goes on in one half of it or both, which are brackets of the trail. Each half
it goes on in contains, at an end, a sample among low end, midpoint and high end whose net yield is
no less than those of the other two. Over an empty range nothing is sampled. -/
theorem steps_keep_the_best_sample (params : CostParameters) (r : Route) (lo hi : Amount)
    (levels : UInt32) :
    let t := trail params r lo hi levels
    (hi ≤ lo → best params r lo hi levels = lo ∧ tried params r lo hi levels = []) ∧
    (lo < hi →
      Runs (r.yieldOf params) (Search.gap lo) levels 0 ⟨lo, hi⟩ t (best params r lo hi levels) ∧
      t.brackets.Perm (t.steps.map (·.bracket) ++ t.stops) ∧
      ∀ s ∈ t.steps, s.bracket.Within ⟨lo, hi⟩ ∧ s.KeepsBest (r.netYield params) ∧
        s.halves ⊆ t.brackets) := by
  intro t
  refine ⟨fun hempty => ⟨best_of_le hempty, if_pos hempty⟩, fun hlt => ?_⟩
  have hle : lo ≤ hi := UInt64.le_of_lt hlt
  have hruns := runs_trail params r levels hlt
  refine ⟨hruns, t.perm_brackets, fun s hs => ⟨?_, ?_, t.halves_subset s hs⟩⟩
  · apply hruns.within hle
    exact t.perm_brackets.mem_iff.2 (List.mem_append_left _ (List.mem_map_of_mem hs))
  · exact hruns.keeps_best (measures_yieldOf params r) hle s hs

/-- Over a range of a thousandfold three levels go on in the lower half, then in both, then in the
upper and in the lower half. Where all three samples are worth the same the upper half is taken. All
these steps keep a best sample. -/
theorem steps_over_a_thousandfold :
    let t := trail {} tenthApart 1000000000 1000000000000 3
    let refused : Route := [⟨"A", "B", {}, "first", "x"⟩]
    t.steps =
      [⟨⟨1000000000, 1000000000000⟩, [⟨1000000000, 500500000000⟩]⟩,
        ⟨⟨1000000000, 500500000000⟩, [⟨1000000000, 250750000000⟩, ⟨250750000000, 500500000000⟩]⟩,
        ⟨⟨1000000000, 250750000000⟩, [⟨125875000000, 250750000000⟩]⟩,
        ⟨⟨250750000000, 500500000000⟩, [⟨250750000000, 375625000000⟩]⟩] ∧
      (∀ s ∈ t.steps, s.KeepsBest (tenthApart.netYield {})) ∧
      (trail {} refused 0 8 1).steps = [⟨⟨0, 8⟩, [⟨4, 8⟩]⟩] ∧
      refused.netYield {} 0 = refused.netYield {} 4 ∧
      refused.netYield {} 4 = refused.netYield {} 8 ∧
      Step.KeepsBest (refused.netYield {}) ⟨⟨0, 8⟩, [⟨4, 8⟩]⟩ := by
  intro t refused
  obtain ⟨-, hsearch⟩ := steps_keep_the_best_sample {} tenthApart 1000000000 1000000000000 3
  obtain ⟨-, -, hsteps⟩ := hsearch (by decide)
  obtain ⟨-, hsearch'⟩ := steps_keep_the_best_sample {} refused 0 8 1
  obtain ⟨-, -, hsteps'⟩ := hsearch' (by decide)
  have hone : (trail {} refused 0 8 1).steps = [⟨⟨0, 8⟩, [⟨4, 8⟩]⟩] := by decide +kernel
  refine ⟨by decide +kernel, fun s hs => (hsteps s hs).2.1, hone, by decide +kernel,
    by decide +kernel, ?_⟩
  exact (hsteps' _ (hone ▸ List.mem_singleton_self _)).2.1

end Search

end PoolArbitrage
