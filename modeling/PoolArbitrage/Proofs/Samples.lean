import Mathlib
import PoolArbitrage.Proofs.Quotes
import PoolArbitrage.Proofs.Recursion
import PoolArbitrage.Proofs.Yields

/-!
# What a search makes of its samples

A search answers with the midpoint of a bracket where it stops. It has not sampled that midpoint,
and it keeps no record of the best sample, so an amount it has tried may be worth more than the one
it finds (`Search.best_tried_is_passed_over`). Such an amount is never far from one that is worth no
more than the one found.

**Stops.** The brackets where the recursion stops are no wider than the gap, or than what the levels
leave of the range (`Search.Runs.narrow`). The answer is worth no less than the midpoint of any of
them (`Search.Runs.mid_le`).

**Invariant (`Search.Runs.keeps_ends`, `Search.Runs.keeps_samples`).** Each step goes on in the half
or halves that have a best one of its three samples at an end. So what was sampled is worth no more
than the answer, or no more than an end of a bracket where the recursion stopped, and that bracket's
midpoint is near.

**Down to neighbours.** The midpoint of a bracket of width one is its low end. Where the recursion
goes down to such brackets, the one sample that can be lost is the high end of the range
(`Search.Runs.samples_le`).

**Theorem (`Search.answer_is_within_reach_of_the_best_tried`).** Within half the tolerance of the
best amount tried lies one that is worth no more than the amount found.
-/

namespace PoolArbitrage

namespace Search

/-- The two amounts between which a bracket lies. -/
def Bracket.ends (b : Bracket) : List Amount := [b.lo, b.hi]

theorem Bracket.ends_lower_subset (b : Bracket) : b.lower.ends ⊆ [b.lo, b.mid, b.hi] := by
  simp [ends, lower]

theorem Bracket.ends_upper_subset (b : Bracket) : b.upper.ends ⊆ [b.lo, b.mid, b.hi] := by
  simp [ends, upper]

/-- The brackets where a trail stops. -/
def Trail.stops : Trail → List Bracket
  | stop b => [b]
  | lower _ rest | upper _ rest => rest.stops
  | both _ left right => left.stops ++ right.stops

theorem Trail.stops_subset (t : Trail) : t.stops ⊆ t.brackets := by
  induction t with
  | stop b => exact List.Subset.refl _
  | lower b rest ih | upper b rest ih => exact List.subset_cons_of_subset b ih
  | both b left right ihleft ihright =>
    refine List.subset_cons_of_subset b (List.append_subset.2 ⟨?_, ?_⟩)
    · exact List.subset_append_of_subset_left _ ihleft
    · exact List.subset_append_of_subset_right _ ihright

/-- The yields of an objective compare as these numbers do. -/
def Measures (value : Amount → ℤ) (objective : Amount → Yield) : Prop :=
  ∀ a b, (objective a).less (objective b) = true ↔ value a < value b

variable {value : Amount → ℤ} {objective : Amount → Yield} {gap : Amount} {limit depth : UInt32}
  {b c : Bracket} {t : Trail} {a a' : Amount} {k : Nat}

namespace Trail

variable {p : Amount → Prop} {left right rest : Trail}

/-- All samples of a step are the three of its bracket and those of the rest. -/
theorem forall_samples_lower : (∀ s ∈ (lower b rest).samples objective, p s) ↔
    p b.lo ∧ p b.mid ∧ p b.hi ∧ ∀ s ∈ rest.samples objective, p s := by
  simp [samples]

theorem forall_samples_upper : (∀ s ∈ (upper b rest).samples objective, p s) ↔
    p b.lo ∧ p b.mid ∧ p b.hi ∧ ∀ s ∈ rest.samples objective, p s := by
  simp [samples]

/-- Where both halves are followed, their answers are sampled once more when they are compared. -/
theorem forall_samples_both : (∀ s ∈ (both b left right).samples objective, p s) ↔
    p b.lo ∧ p b.mid ∧ p b.hi ∧ (∀ s ∈ left.samples objective, p s) ∧
      (∀ s ∈ right.samples objective, p s) ∧ p (left.answer objective) ∧
      p (right.answer objective) := by
  simp [samples, or_imp, forall_and]

end Trail

/-! ## One step -/

namespace Measures

/-- The low end is followed where it is worth more than both others. -/
theorem of_choose_low (hvalue : Measures value objective)
    (h : choose (objective b.lo) (objective b.mid) (objective b.hi) = .low) :
    value b.mid < value b.lo ∧ value b.hi < value b.lo := by
  unfold choose at h
  split_ifs at h with hlow
  simpa [hvalue _ _] using hlow

/-- Both halves are followed where the midpoint is worth more than both ends. -/
theorem of_choose_mid (hvalue : Measures value objective)
    (h : choose (objective b.lo) (objective b.mid) (objective b.hi) = .mid) :
    value b.lo < value b.mid ∧ value b.hi < value b.mid := by
  unfold choose at h
  split_ifs at h with hlow hmid
  simpa [hvalue _ _] using hmid

/-- The upper half is followed where one of its ends is worth no less than the low end. -/
theorem of_choose_high (hvalue : Measures value objective)
    (h : choose (objective b.lo) (objective b.mid) (objective b.hi) = .high) :
    value b.lo ≤ value b.mid ∨ value b.lo ≤ value b.hi := by
  unfold choose at h
  split_ifs at h with hlow hmid
  by_contra hbetter
  push Not at hbetter
  exact hlow (by simpa [hvalue _ _] using hbetter)

/-- Of the answers of two halves the one worth more is taken. -/
theorem le_better (hvalue : Measures value objective) (a a' : Amount) :
    value a ≤ value (if (objective a).less (objective a') then a' else a) ∧
      value a' ≤ value (if (objective a).less (objective a') then a' else a) := by
  by_cases hless : (objective a).less (objective a') = true
  · rw [if_pos hless]
    exact ⟨((hvalue a a').1 hless).le, le_rfl⟩
  · rw [if_neg hless]
    exact ⟨le_rfl, not_lt.1 fun h => hless ((hvalue a a').2 h)⟩

end Measures

/-! ## Where the recursion stops -/

/-- With so many levels left a refined bracket leaves its halves one less, and half the width. -/
theorem Refines.halves (h : Refines gap limit depth b) (hb : b.lo ≤ b.hi) {left : Nat}
    (hleft : depth.toNat + left = limit.toNat) (hwidth : b.width.toNat ≤ k * 2 ^ left) :
    ∃ next, (depth + 1).toNat + next = limit.toNat ∧ b.lower.width.toNat ≤ k * 2 ^ next ∧
      b.upper.width.toNat ≤ k * 2 ^ next := by
  have hlt : depth.toNat < limit.toNat := h.2
  obtain ⟨next, rfl⟩ : ∃ next, left = next + 1 := ⟨left - 1, by omega⟩
  rw [Nat.pow_succ', Nat.mul_left_comm] at hwidth
  refine ⟨next, ?_, Bracket.halves_le hb hwidth⟩
  rw [h.toNat_succ]
  omega

namespace Runs

theorem answer_eq (h : Runs objective gap limit depth b t a) : t.answer objective = a := by
  induction h with
  | stop _ => rfl
  | lower _ _ _ ih | upper _ _ _ ih => exact ih
  | both _ _ _ _ ihleft ihright => simp only [Trail.answer, ihleft, ihright]

/-- The answer is a midpoint where the recursion stopped. -/
theorem exists_stop (h : Runs objective gap limit depth b t a) : ∃ c ∈ t.stops, a = c.mid := by
  induction h with
  | stop _ => exact ⟨_, List.mem_singleton_self _, rfl⟩
  | lower _ _ _ ih | upper _ _ _ ih => exact ih
  | both _ _ _ _ ihleft ihright =>
    obtain ⟨c, hc, rfl⟩ := ihleft
    obtain ⟨c', hc', rfl⟩ := ihright
    split
    · exact ⟨c', List.mem_append_right _ hc', rfl⟩
    · exact ⟨c, List.mem_append_left _ hc, rfl⟩

/-- **Of the midpoints where the recursion stopped the answer is worth most.** -/
theorem mid_le (hvalue : Measures value objective) (h : Runs objective gap limit depth b t a) :
    ∀ c ∈ t.stops, value c.mid ≤ value a := by
  induction h with
  | stop _ =>
    simp only [Trail.stops, List.forall_mem_singleton]
    exact le_refl _
  | lower _ _ _ ih | upper _ _ _ ih => exact ih
  | both _ _ _ _ ihleft ihright =>
    obtain ⟨hworth, hworth'⟩ := hvalue.le_better _ _
    simp only [Trail.stops, List.forall_mem_append]
    exact ⟨fun c hc => (ihleft c hc).trans hworth, fun c hc => (ihright c hc).trans hworth'⟩

/-- **The brackets where the recursion stops** are no wider than the gap, or no wider than what is
left of the first when it is halved once for each level. -/
theorem narrow (h : Runs objective gap limit depth b t a) (hb : b.lo ≤ b.hi) {left : Nat}
    (hleft : depth.toNat + left = limit.toNat) (hwidth : b.width.toNat ≤ k * 2 ^ left) :
    ∀ c ∈ t.stops, c.width.toNat ≤ max gap.toNat k := by
  induction h generalizing left with
  | @stop depth b hstop =>
    simp only [Trail.stops, List.forall_mem_singleton]
    by_cases hgap : b.width ≤ gap
    · exact le_max_of_le_left hgap
    · -- Wider than the gap and not refined: no level is left to halve it for.
      have hlimit : ¬ depth.toNat < limit.toNat :=
        fun hlt => hstop ⟨UInt64.not_le.1 hgap, hlt⟩
      have hnone : left = 0 := by omega
      rw [hnone, Nat.pow_zero, Nat.mul_one] at hwidth
      exact le_max_of_le_right hwidth
  | lower hrefines _ _ ih =>
    obtain ⟨next, hnext, hlower, -⟩ := hrefines.halves hb hleft hwidth
    exact ih (Bracket.mid_mem hb).1 hnext hlower
  | upper hrefines _ _ ih =>
    obtain ⟨next, hnext, -, hupper⟩ := hrefines.halves hb hleft hwidth
    exact ih (Bracket.mid_mem hb).2 hnext hupper
  | both hrefines _ _ _ ihleft ihright =>
    obtain ⟨next, hnext, hlower, hupper⟩ := hrefines.halves hb hleft hwidth
    simp only [Trail.stops, List.forall_mem_append]
    exact ⟨ihleft (Bracket.mid_mem hb).1 hnext hlower, ihright (Bracket.mid_mem hb).2 hnext hupper⟩

end Runs

/-! ## What is kept of the samples -/

/-- Some end of a bracket where the trail stops is worth no less than the number. -/
def Trail.Keeps (value : Amount → ℤ) (t : Trail) (x : ℤ) : Prop :=
  ∃ c ∈ t.stops, ∃ e ∈ c.ends, x ≤ value e

namespace Trail.Keeps

variable {t' : Trail} {x y : ℤ}

theorem mono (h : t.Keeps value y) (hle : x ≤ y) : t.Keeps value x := by
  obtain ⟨c, hc, e, he, hworth⟩ := h
  exact ⟨c, hc, e, he, hle.trans hworth⟩

theorem of_subset (h : t.Keeps value x) (hsub : t.stops ⊆ t'.stops) : t'.Keeps value x := by
  obtain ⟨c, hc, hend⟩ := h
  exact ⟨c, hsub hc, hend⟩

end Trail.Keeps

namespace Runs

/-- **The ends of a bracket are kept**: none is worth more than some edge where the recursion
stopped. -/
theorem keeps_ends (hvalue : Measures value objective) (h : Runs objective gap limit depth b t a) :
    t.Keeps value (value b.lo) ∧ t.Keeps value (value b.hi) := by
  induction h with
  | stop _ => simp [Trail.Keeps, Trail.stops, Bracket.ends]
  | lower _ hlow _ ih => exact ⟨ih.1, ih.1.mono (hvalue.of_choose_low hlow).2.le⟩
  | upper _ hhigh _ ih =>
    refine ⟨?_, ih.2⟩
    rcases hvalue.of_choose_high hhigh with hmid | hhi
    · exact ih.1.mono hmid
    · exact ih.2.mono hhi
  | @both _ b left right _ _ _ hmid _ _ ihleft _ =>
    obtain ⟨hlo, hhi⟩ := hvalue.of_choose_mid hmid
    have hkept : (Trail.both b left right).Keeps value (value b.mid) :=
      ihleft.2.of_subset (List.subset_append_left ..)
    exact ⟨hkept.mono hlo.le, hkept.mono hhi.le⟩

/-- **Nothing sampled is lost but for the answer or an edge** where the recursion stopped. -/
theorem keeps_samples (hvalue : Measures value objective)
    (h : Runs objective gap limit depth b t a) :
    ∀ s ∈ t.samples objective, value s ≤ value a ∨ t.Keeps value (value s) := by
  induction h with
  | stop _ => simp [Trail.samples]
  | lower hrefines hlow hrest ih =>
    have hends := (Runs.lower hrefines hlow hrest).keeps_ends hvalue
    have hmid := (hrest.keeps_ends hvalue).2
    exact Trail.forall_samples_lower.2 ⟨.inr hends.1, .inr hmid, .inr hends.2, ih⟩
  | upper hrefines hhigh hrest ih =>
    have hends := (Runs.upper hrefines hhigh hrest).keeps_ends hvalue
    have hmid := (hrest.keeps_ends hvalue).1
    exact Trail.forall_samples_upper.2 ⟨.inr hends.1, .inr hmid, .inr hends.2, ih⟩
  | @both _ b left right found found' hrefines hchoose hleft hright ihleft ihright =>
    have hends := (Runs.both hrefines hchoose hleft hright).keeps_ends hvalue
    have hfromleft : left.stops ⊆ (Trail.both b left right).stops := List.subset_append_left ..
    have hfromright : right.stops ⊆ (Trail.both b left right).stops := List.subset_append_right ..
    have hmid := (hleft.keeps_ends hvalue).2.of_subset hfromleft
    obtain ⟨hworth, hworth'⟩ := hvalue.le_better found found'
    rw [Trail.forall_samples_both, hleft.answer_eq, hright.answer_eq]
    refine ⟨.inr hends.1, .inr hmid, .inr hends.2, ?_, ?_, .inl hworth, .inl hworth'⟩
    · intro s hs
      exact (ihleft s hs).imp (fun hle => hle.trans hworth) (·.of_subset hfromleft)
    · intro s hs
      exact (ihright s hs).imp (fun hle => hle.trans hworth') (·.of_subset hfromright)

end Runs

/-! ## Down to neighbours -/

theorem Bracket.mid_eq_lo (hb : b.lo ≤ b.hi) (hunit : b.width.toNat ≤ 1) : b.mid = b.lo := by
  have hmid := toNat_mid hb
  rw [toNat_width hb] at hunit
  rw [← UInt64.toNat_inj]
  omega

namespace Runs

/-- **A low end worth more than the high end is not lost** where the recursion goes down to
neighbours: there the midpoint is the low end. -/
theorem lo_le_of_hi_lt (hvalue : Measures value objective)
    (h : Runs objective gap limit depth b t a) (hb : b.lo ≤ b.hi)
    (hunit : ∀ c ∈ t.stops, c.width.toNat ≤ 1) (hless : value b.hi < value b.lo) :
    value b.lo ≤ value a := by
  induction h with
  | stop _ =>
    have hmid := Bracket.mid_eq_lo hb (hunit _ (List.mem_singleton_self _))
    rw [hmid]
  | lower _ hlow _ ih => exact ih (Bracket.mid_mem hb).1 hunit (hvalue.of_choose_low hlow).1
  | upper _ hhigh _ ih =>
    -- The low end is left behind, but not for the high end: the midpoint takes its place.
    have hmid := (hvalue.of_choose_high hhigh).resolve_right hless.not_ge
    exact hmid.trans (ih (Bracket.mid_mem hb).2 hunit (hless.trans_le hmid))
  | both _ hmid _ _ _ ihright =>
    obtain ⟨hlo, hhi⟩ := hvalue.of_choose_mid hmid
    simp only [Trail.stops, List.forall_mem_append] at hunit
    have hkept := ihright (Bracket.mid_mem hb).2 hunit.2 hhi
    exact hlo.le.trans (hkept.trans (hvalue.le_better _ _).2)

/-- Down to neighbours the low end is worth no more than the answer or than the high end. -/
theorem lo_le (hvalue : Measures value objective) (h : Runs objective gap limit depth b t a)
    (hb : b.lo ≤ b.hi) (hunit : ∀ c ∈ t.stops, c.width.toNat ≤ 1) :
    value b.lo ≤ max (value a) (value b.hi) := by
  by_cases hless : value b.hi < value b.lo
  · exact le_max_of_le_left (h.lo_le_of_hi_lt hvalue hb hunit hless)
  · exact le_max_of_le_right (not_lt.1 hless)

/-- **Down to neighbours nothing sampled is lost but the high end.** -/
theorem samples_le (hvalue : Measures value objective) (h : Runs objective gap limit depth b t a)
    (hb : b.lo ≤ b.hi) (hunit : ∀ c ∈ t.stops, c.width.toNat ≤ 1) :
    ∀ s ∈ t.samples objective, value s ≤ max (value a) (value b.hi) := by
  induction h with
  | stop _ => simp [Trail.samples]
  | lower hrefines hlow hrest ih =>
    have hlo := (Runs.lower hrefines hlow hrest).lo_le hvalue hb hunit
    have hmid := (hvalue.of_choose_low hlow).1.le.trans hlo
    refine Trail.forall_samples_lower.2 ⟨hlo, hmid, le_max_right .., fun s hs => ?_⟩
    exact (ih (Bracket.mid_mem hb).1 hunit s hs).trans (max_le (le_max_left ..) hmid)
  | upper hrefines hhigh hrest ih =>
    have hlo := (Runs.upper hrefines hhigh hrest).lo_le hvalue hb hunit
    have hmid := hrest.lo_le hvalue (Bracket.mid_mem hb).2 hunit
    exact Trail.forall_samples_upper.2
      ⟨hlo, hmid, le_max_right .., ih (Bracket.mid_mem hb).2 hunit⟩
  | @both _ b _ _ found found' hrefines hchoose hleft hright ihleft ihright =>
    have hlo := (Runs.both hrefines hchoose hleft hright).lo_le hvalue hb hunit
    obtain ⟨hworth, hworth'⟩ := hvalue.le_better found found'
    simp only [Trail.stops, List.forall_mem_append] at hunit
    rw [Trail.forall_samples_both, hleft.answer_eq, hright.answer_eq]
    generalize (if (objective found).less (objective found') then found' else found) = answer at *
    have hright' : max (value found') (value b.hi) ≤ max (value answer) (value b.hi) :=
      max_le_max_right _ hworth'
    -- The lower half may lose its high end. That is the midpoint, and the upper half keeps it.
    have hmid := (hright.lo_le hvalue (Bracket.mid_mem hb).2 hunit.2).trans hright'
    refine ⟨hlo, hmid, le_max_right .., fun s hs => ?_, fun s hs => ?_,
      le_max_of_le_left hworth, le_max_of_le_left hworth'⟩
    · exact (ihleft (Bracket.mid_mem hb).1 hunit.1 s hs).trans
        (max_le (le_max_of_le_left hworth) hmid)
    · exact (ihright (Bracket.mid_mem hb).2 hunit.2 s hs).trans hright'

end Runs

/-! ## What is sampled -/

theorem Bracket.contains_three (hb : b.lo ≤ b.hi) :
    b.Contains b.lo ∧ b.Contains b.mid ∧ b.Contains b.hi :=
  ⟨⟨UInt64.le_refl _, hb⟩, mid_mem hb, ⟨hb, UInt64.le_refl _⟩⟩

namespace Runs

/-- The ends of the brackets where the recursion stopped are those of its own or were sampled. -/
theorem ends_sampled (h : Runs objective gap limit depth b t a) :
    ∀ c ∈ t.stops, ∀ e ∈ c.ends, e ∈ b.ends ∨ e ∈ t.samples objective := by
  induction h with
  | stop _ =>
    simp only [Trail.stops, List.forall_mem_singleton]
    exact fun e he => .inl he
  | lower _ _ _ ih =>
    intro c hc e he
    refine .inr (List.mem_append.2 ?_)
    exact (ih c hc e he).imp_left fun hend => Bracket.ends_lower_subset _ hend
  | upper _ _ _ ih =>
    intro c hc e he
    refine .inr (List.mem_append.2 ?_)
    exact (ih c hc e he).imp_left fun hend => Bracket.ends_upper_subset _ hend
  | both _ _ _ _ ihleft ihright =>
    simp only [Trail.stops, List.forall_mem_append]
    constructor
    · intro c hc e he
      right
      rcases ihleft c hc e he with hend | hsampled
      · have hthree := Bracket.ends_lower_subset _ hend
        simp only [Trail.samples, List.mem_append, hthree, true_or]
      · simp only [Trail.samples, List.mem_append, hsampled, true_or, or_true]
    · intro c hc e he
      right
      rcases ihright c hc e he with hend | hsampled
      · have hthree := Bracket.ends_upper_subset _ hend
        simp only [Trail.samples, List.mem_append, hthree, true_or]
      · simp only [Trail.samples, List.mem_append, hsampled, true_or, or_true]

/-- If anything was sampled, the ends of the bracket were. -/
theorem first_sampled {s : Amount} (h : Runs objective gap limit depth b t a)
    (hs : s ∈ t.samples objective) : ∀ e ∈ b.ends, e ∈ t.samples objective := by
  cases h with
  | stop _ => simp [Trail.samples] at hs
  | lower _ _ _ | upper _ _ _ | both _ _ _ _ => simp [Bracket.ends, Trail.samples]

/-- The answer is an amount of the bracket. -/
theorem contains_answer (h : Runs objective gap limit depth b t a) (hb : b.lo ≤ b.hi) :
    b.Contains a := by
  obtain ⟨c, hc, rfl⟩ := h.exists_stop
  have hwithin := h.within hb c (t.stops_subset hc)
  obtain ⟨hlo, hhi⟩ := Bracket.mid_mem hwithin.ordered
  exact ⟨UInt64.le_trans hwithin.lo hlo, UInt64.le_trans hhi hwithin.hi⟩

/-- Only amounts of the bracket are sampled. -/
theorem contains_samples (h : Runs objective gap limit depth b t a) (hb : b.lo ≤ b.hi) :
    ∀ s ∈ t.samples objective, b.Contains s := by
  induction h with
  | stop _ => simp [Trail.samples]
  | lower _ _ _ ih =>
    obtain ⟨hlo, hmid, hhi⟩ := Bracket.contains_three hb
    exact Trail.forall_samples_lower.2 ⟨hlo, hmid, hhi,
      fun s hs => Bracket.contains_of_lower hb (ih (Bracket.mid_mem hb).1 s hs)⟩
  | upper _ _ _ ih =>
    obtain ⟨hlo, hmid, hhi⟩ := Bracket.contains_three hb
    exact Trail.forall_samples_upper.2 ⟨hlo, hmid, hhi,
      fun s hs => Bracket.contains_of_upper hb (ih (Bracket.mid_mem hb).2 s hs)⟩
  | both _ _ hleft hright ihleft ihright =>
    obtain ⟨hlo, hmid, hhi⟩ := Bracket.contains_three hb
    obtain ⟨hlower, hupper⟩ := Bracket.mid_mem hb
    rw [Trail.forall_samples_both, hleft.answer_eq, hright.answer_eq]
    exact ⟨hlo, hmid, hhi,
      fun s hs => Bracket.contains_of_lower hb (ihleft hlower s hs),
      fun s hs => Bracket.contains_of_upper hb (ihright hupper s hs),
      Bracket.contains_of_lower hb (hleft.contains_answer hlower),
      Bracket.contains_of_upper hb (hright.contains_answer hupper)⟩

end Runs

/-! ## The amount found -/

variable {params : CostParameters} {r : Route} {lo hi : Amount} {levels : UInt32}

/-- How wide a bracket may be where a search stops: a millionth of the smallest amount, but at least
one, or what the levels allowed leave of the range. -/
def tolerance (lo hi : Amount) (levels : UInt32) : Nat :=
  max (max 1 (lo.toNat / 10 ^ 6)) (divUp (hi.toNat - lo.toNat) (2 ^ levels.toNat))

theorem toNat_gap (lo : Amount) : (Search.gap lo).toNat = max 1 (lo.toNat / 10 ^ 6) := by
  have hquot : (lo / 1000000).toNat = lo.toNat / 10 ^ 6 := UInt64.toNat_div ..
  rw [Search.gap, ← hquot]
  split
  · next hnone =>
    have hlt : (lo / 1000000).toNat < 1 := hnone
    rw [max_eq_left hlt.le]
    rfl
  · next hsome =>
    have hle : 1 ≤ (lo / 1000000).toNat := Nat.not_lt.1 hsome
    rw [max_eq_right hle]

theorem measures_yieldOf (params : CostParameters) (r : Route) :
    Measures (r.netYield params) (r.yieldOf params) := fun _ _ => Route.less_yieldOf_iff

theorem width_le_tolerance (h : lo < hi) (hc : c ∈ (trail params r lo hi levels).stops) :
    c.width.toNat ≤ tolerance lo hi levels := by
  have hle : lo ≤ hi := UInt64.le_of_lt h
  have hwidth : (Bracket.mk lo hi).width.toNat = hi.toNat - lo.toNat := Bracket.toNat_width hle
  have hfirst : (Bracket.mk lo hi).width.toNat ≤
      divUp (hi.toNat - lo.toNat) (2 ^ levels.toNat) * 2 ^ levels.toNat := by
    rw [hwidth]
    exact (divUp_le_iff (by positivity)).1 le_rfl
  rw [tolerance, ← toNat_gap]
  exact (runs_trail params r levels h).narrow hle (Nat.zero_add _) hfirst c hc

/-- The midpoint of a bracket is within half of its width of either end, rounded up. -/
theorem Bracket.mid_near {e : Amount} {w : Nat} (hc : c.lo ≤ c.hi) (hwidth : c.width.toNat ≤ w)
    (he : e ∈ c.ends) :
    e.toNat ≤ c.mid.toNat + divUp w 2 ∧ c.mid.toNat ≤ e.toNat + divUp w 2 := by
  have hle : c.lo.toNat ≤ c.hi.toNat := hc
  have hmid := toNat_mid hc
  rw [toNat_width hc] at hwidth
  simp only [ends, List.mem_cons, List.not_mem_nil, or_false] at he
  rcases he with rfl | rfl
  · unfold divUp
    omega
  · unfold divUp
    omega

theorem tried_of_lt (h : lo < hi) :
    tried params r lo hi levels = (trail params r lo hi levels).samples (r.yieldOf params) :=
  if_neg (UInt64.not_le.2 h)

/-- Within reach of each amount tried, or of one tried that is worth no less, lies an amount worth
no more than the one found. -/
theorem exists_within_reach (h : lo < hi) {s : Amount} (hs : s ∈ tried params r lo hi levels) :
    ∃ e ∈ tried params r lo hi levels, r.netYield params s ≤ r.netYield params e ∧
      ∃ m, lo ≤ m ∧ m ≤ hi ∧ e.toNat ≤ m.toNat + divUp (tolerance lo hi levels) 2 ∧
        m.toNat ≤ e.toNat + divUp (tolerance lo hi levels) 2 ∧
        r.netYield params m ≤ r.netYield params (best params r lo hi levels) := by
  have hle : lo ≤ hi := UInt64.le_of_lt h
  have hvalue := measures_yieldOf params r
  have hruns := runs_trail params r levels h
  rw [tried_of_lt h] at hs ⊢
  rcases hruns.keeps_samples hvalue s hs with hworth | ⟨c, hc, e, he, hworth⟩
  · obtain ⟨hlow, hhigh⟩ := hruns.contains_samples hle s hs
    exact ⟨s, hs, le_rfl, s, hlow, hhigh, Nat.le_add_right .., Nat.le_add_right .., hworth⟩
  · have hwithin := hruns.within hle c ((trail params r lo hi levels).stops_subset hc)
    obtain ⟨hlow, hhigh⟩ := Bracket.mid_mem hwithin.ordered
    obtain ⟨hbelow, habove⟩ := Bracket.mid_near hwithin.ordered (width_le_tolerance h hc) he
    have hsampled : e ∈ (trail params r lo hi levels).samples (r.yieldOf params) :=
      (hruns.ends_sampled c hc e he).elim (hruns.first_sampled hs e) id
    exact ⟨e, hsampled, hworth, c.mid, UInt64.le_trans hwithin.lo hlow,
      UInt64.le_trans hhigh hwithin.hi, hbelow, habove, hruns.mid_le hvalue c hc⟩

/-- Down to neighbours what was tried is worth no more than the amount found or than the high end.
-/
theorem worth_le_of_neighbours (h : lo < hi) (hunit : tolerance lo hi levels = 1) {s : Amount}
    (hs : s ∈ tried params r lo hi levels) :
    r.netYield params s ≤
      max (r.netYield params (best params r lo hi levels)) (r.netYield params hi) := by
  have hstops : ∀ c ∈ (trail params r lo hi levels).stops, c.width.toNat ≤ 1 := by
    intro c hc
    rw [← hunit]
    exact width_le_tolerance h hc
  rw [tried_of_lt h] at hs
  exact (runs_trail params r levels h).samples_le (measures_yieldOf params r) (UInt64.le_of_lt h)
    hstops s hs

/-- **A search is never further than its reach from the best it has tried.** The reach is half the
tolerance, rounded up.

For each amount tried, one tried that is worth no less has within its reach an amount worth no more
than the one found. At a tolerance of one nothing tried is worth more than the amount found, unless
the high end is. The ends of the range are tried as soon as any amount is. And what is found is the
midpoint of a bracket where the search stopped, and no midpoint of such a bracket is worth more. -/
theorem answer_is_within_reach_of_the_best_tried (h : lo ≤ hi) (params : CostParameters) (r : Route)
    (levels : UInt32) :
    let found := best params r lo hi levels
    let looked := tried params r lo hi levels
    let worth := r.netYield params
    let reach := divUp (tolerance lo hi levels) 2
    (∀ s ∈ looked, ∃ e ∈ looked, worth s ≤ worth e ∧
      ∃ m, lo ≤ m ∧ m ≤ hi ∧ e.toNat ≤ m.toNat + reach ∧ m.toNat ≤ e.toNat + reach ∧
        worth m ≤ worth found) ∧
    (tolerance lo hi levels = 1 → ∀ s ∈ looked, worth s ≤ max (worth found) (worth hi)) ∧
    (∀ s ∈ looked, lo ∈ looked ∧ hi ∈ looked) ∧
    (lo < hi → ∃ c ∈ (trail params r lo hi levels).stops, found = c.mid ∧
      ∀ c' ∈ (trail params r lo hi levels).stops, worth c'.mid ≤ worth found) := by
  intro found looked worth reach
  rcases UInt64.le_iff_lt_or_eq.1 h with hlt | rfl
  · have hruns := runs_trail params r levels hlt
    have hlooked : looked = (trail params r lo hi levels).samples (r.yieldOf params) :=
      tried_of_lt hlt
    obtain ⟨c, hc, hfound⟩ := hruns.exists_stop
    refine ⟨fun s hs => exists_within_reach hlt hs,
      fun hunit s hs => worth_le_of_neighbours hlt hunit hs, fun s hs => ?_,
      fun _ => ⟨c, hc, hfound, hruns.mid_le (measures_yieldOf params r)⟩⟩
    rw [hlooked] at hs ⊢
    have hfirst := hruns.first_sampled hs
    exact ⟨hfirst lo (by simp [Bracket.ends]), hfirst hi (by simp [Bracket.ends])⟩
  · have hnone : looked = [] := if_pos (UInt64.le_refl _)
    simp [hnone, UInt64.lt_irrefl]

/-- Two pairs of pools that price the same tokens a tenth apart. -/
def tenthApart : Route :=
  [⟨"A", "B", ⟨10000000000000, 2000000000000, 25, .constantProduct⟩, "first", "x"⟩,
    ⟨"B", "A", ⟨1800000000000, 10000000000000, 30, .constantProduct⟩, "second", "y"⟩]

/-- Over a range of a thousandfold the amount found is within reach of the best one tried, and so is
its yield; over three neighbours nothing but the high end is worth more. -/
theorem within_reach_over_a_thousandfold :
    let found := best {} tenthApart 1000000000 1000000000000 defaultLevels
    let looked := tried {} tenthApart 1000000000 1000000000000 defaultLevels
    227092041015 ∈ looked ∧ found = 227213989257 ∧
    divUp (tolerance 1000000000 1000000000000 defaultLevels) 2 = 121948243 ∧
    ∃ e ∈ looked, tenthApart.netYield {} 227092041015 ≤ tenthApart.netYield {} e ∧
      ∃ m : Amount, e.toNat ≤ m.toNat + 121948243 ∧ m.toNat ≤ e.toNat + 121948243 ∧
        tenthApart.netYield {} m ≤ tenthApart.netYield {} found := by
  intro found looked
  have hsampled : 227092041015 ∈ looked := by decide +kernel
  have hreach : divUp (tolerance 1000000000 1000000000000 defaultLevels) 2 = 121948243 := by
    decide +kernel
  obtain ⟨hnear, -⟩ := answer_is_within_reach_of_the_best_tried
    (by decide : (1000000000 : Amount) ≤ 1000000000000) {} tenthApart defaultLevels
  obtain ⟨e, he, hworth, m, -, -, hbelow, habove, hless⟩ := hnear _ hsampled
  rw [hreach] at hbelow habove
  exact ⟨hsampled, by decide +kernel, hreach, e, he, hworth, m, hbelow, habove, hless⟩

/-- **A search may pass over the best it has tried.** Over the range of a thousandfold an amount
tried within it is worth more than the one found. Over three neighbours all three are tried, and the
high end is worth more. -/
theorem best_tried_is_passed_over :
    (∃ s ∈ tried {} tenthApart 1000000000 1000000000000 defaultLevels,
      tenthApart.netYield {} (best {} tenthApart 1000000000 1000000000000 defaultLevels) <
        tenthApart.netYield {} s) ∧
    let spread : Route :=
      [⟨"A", "B", ⟨1000000, 1000000000000, 0, .constantProduct⟩, "first", "x"⟩,
        ⟨"B", "A", ⟨1000000000000, 2000000000000, 0, .constantProduct⟩, "second", "y"⟩]
    1002 ∈ tried {} spread 1000 1002 defaultLevels ∧ best {} spread 1000 1002 defaultLevels = 1001 ∧
      spread.netYield {} 1001 = 1996793000 ∧ spread.netYield {} 1002 = 1998785013 := by
  constructor
  · exact ⟨227092041015, by decide +kernel, by decide +kernel⟩
  · intro spread
    exact ⟨by decide +kernel, by decide +kernel, by decide +kernel, by decide +kernel⟩

end Search

end PoolArbitrage
