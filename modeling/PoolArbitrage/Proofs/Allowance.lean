import Mathlib
import PoolArbitrage.Proofs.Candidates
import PoolArbitrage.Proofs.Comparison
import PoolArbitrage.Proofs.TokenCycles

/-!
# More repeats allowed

A route that is accepted sells no token more often than allowed, so it is accepted wherever more is
allowed. The guard counts visits though, and lets a closed route visit its start once more than any
other token. The allowance after the given one is a word, and the greatest word has none after it:
there the start may not be visited at all (`Route.check_ne_ok_of_greatest`).

**Below the greatest word** the guard is monotone, and a scan that allows more repeats rejects no
more candidates.

**At the greatest word** it accepts no route whatever, and a scan that is in time rejects all
candidates. No check of the configuration keeps the allowance from being that word
(`Scan.greatest_allowance_refuses_a_ring`).

**Theorem (`Scan.guard_is_monotone_below_the_greatest_word`).** What is accepted stays accepted at a
higher allowance just where that allowance is not the greatest word.
-/

namespace PoolArbitrage

namespace Route

variable {r : Route} {repeats repeats' : UInt32} {k k' : Nat}

/-- A cycle allowed is allowed where tokens may be sold more often. -/
theorem AllowedCycle.mono (h : r.AllowedCycle k) (hle : k ≤ k') : r.AllowedCycle k' where
  length := h.length
  linked := h.linked
  sold t := (h.sold t).trans hle

/-- What is accepted is accepted at a higher allowance, if there is a word after that one. -/
theorem check_eq_ok_of_le (hle : repeats ≤ repeats') (hfits : repeats'.toNat + 1 < UInt32.size)
    (hok : r.check repeats = .ok) : r.check repeats' = .ok := by
  have hnat : repeats.toNat ≤ repeats'.toNat := hle
  have hallowed : r.AllowedCycle repeats.toNat := (check_eq_ok_iff (by omega)).1 hok
  exact (check_eq_ok_iff hfits).2 (hallowed.mono hnat)

/-- The start of a closed route is visited, whatever it may be visited for. -/
theorem exists_start_of_closed (h : r.closed = true) : ∃ t, r.start? = some t ∧ t ∈ r.visits := by
  cases r with
  | nil => cases h
  | cons hop rest => exact ⟨hop.sells, rfl, List.mem_cons_self⟩

/-- **The greatest allowance accepts no route**: the one after it is zero, and the start of a closed
route is visited more often. -/
theorem check_ne_ok_of_greatest (hgreatest : repeats.toNat + 1 = UInt32.size) :
    r.check repeats ≠ .ok := by
  rw [Ne, check_eq_ok, fault?_eq_none_iff]
  rintro ⟨-, -, hvisits, -, hclosed⟩
  obtain ⟨t, hstart, hvisited⟩ := exists_start_of_closed hclosed
  have hnext : repeats + 1 = 0 := by
    rw [← UInt32.toNat_inj, UInt32.toNat_add]
    simp only [UInt32.reduceToNat]
    rw [hgreatest]
    rfl
  have hnone : r.allowance repeats t = 0 := by simp [allowance, hclosed, hstart, hnext]
  refine List.filter_eq_nil_iff.1 hvisits t hvisited ?_
  rw [hnone]
  exact decide_eq_true (List.count_pos_iff.2 hvisited)

/-- **What is accepted stays accepted** at a higher allowance, unless that one is the greatest. -/
theorem check_eq_ok_iff_of_le (hle : repeats ≤ repeats') (hok : r.check repeats = .ok) :
    r.check repeats' = .ok ↔ repeats'.toNat + 1 < UInt32.size := by
  constructor
  · intro hok'
    have hword : repeats'.toNat < UInt32.size := repeats'.toNat_lt
    exact lt_of_le_of_ne hword fun hgreatest => check_ne_ok_of_greatest hgreatest hok'
  · intro hfits
    exact check_eq_ok_of_le hle hfits hok

end Route

/-- The configuration with another allowance of repeats. -/
def Constraints.allowing (c : Constraints) (repeats : UInt32) : Constraints :=
  { c with maxTokenRepeats := repeats }

/-- The context with another allowance of repeats. -/
def ScanContext.allowing (ctx : ScanContext) (repeats : UInt32) : ScanContext :=
  { ctx with constraints := ctx.constraints.allowing repeats }

/-- Allowances of one or more make no difference to the check of a configuration. -/
theorem Constraints.fault?_allowing (c : Constraints) {repeats repeats' : UInt32}
    (hsome : 1 ≤ repeats) (hsome' : 1 ≤ repeats') :
    (c.allowing repeats).fault? = (c.allowing repeats').fault? := by
  have hset : ∀ k : UInt32, 1 ≤ k → ¬ (c.allowing k).maxTokenRepeats < 1 :=
    fun _ h => UInt32.not_lt.2 h
  unfold fault?
  rw [if_neg (hset repeats hsome), if_neg (hset repeats' hsome')]
  rfl

namespace Scan

variable {mix : Mixing} {schedule schedule' : Schedule} {ctx : ScanContext} {r : Route}
variable {repeats repeats' : UInt32}

/-- The candidates do not depend on the allowance. -/
theorem sameCandidates_allowing (ctx : ScanContext) (hsome : 1 ≤ repeats) (hsome' : 1 ≤ repeats') :
    SameCandidates (ctx.allowing repeats) (ctx.allowing repeats') where
  fault := ctx.constraints.fault?_allowing hsome hsome'
  snapshot := rfl
  routes := rfl
  candidates := fun _ => rfl
  limit := rfl
  deadline := rfl

/-- The guard refuses the candidate. -/
def refuses (c : Constraints) (r : Route) : Bool := r.check c.maxTokenRepeats ≠ .ok

theorem isRejectedByGuard_judge (mix : Mixing) (c : Constraints) (r : Route) :
    (Candidate.judge mix c r).value.isRejectedByGuard = refuses c r := by
  rw [Bool.eq_iff_iff, (Candidate.judged_judge mix c r).isRejectedByGuard_iff, refuses,
    decide_eq_true_iff]

/-- **The guard's count in a report** is that of the candidates it refuses, among those judged. -/
theorem rejectedByGuard_eq (mix : Mixing) (schedule : Schedule) (hstarts : Starts ctx) :
    (withSchedule mix schedule ctx).value.rejectedByGuard =
      (judged schedule ctx).countP (refuses ctx.constraints) := by
  have hcount : (withSchedule mix schedule ctx).value.rejectedByGuard =
      (results mix schedule ctx).countP (·.isRejectedByGuard) := by
    rw [value_withSchedule_eq mix schedule hstarts]
    rfl
  rw [hcount, countP_results rfl]
  exact congrArg (List.countP · _) (funext (isRejectedByGuard_judge mix ctx.constraints))

theorem candidates_eq_length (mix : Mixing) (schedule : Schedule) (hstarts : Starts ctx) :
    (withSchedule mix schedule ctx).value.candidates = (examined ctx).length := by
  rw [value_withSchedule_eq mix schedule hstarts]
  exact length_outcomes

/-- Below the greatest word a higher allowance makes the guard refuse no other candidate. -/
theorem refuses_of_refuses {c : Constraints} (hle : repeats ≤ repeats')
    (hfits : repeats'.toNat + 1 < UInt32.size) (hrefused : refuses (c.allowing repeats') r = true) :
    refuses (c.allowing repeats) r = true := by
  simp only [refuses, decide_eq_true_eq] at hrefused ⊢
  exact fun hok => hrefused (Route.check_eq_ok_of_le hle hfits hok)

/-- At the greatest word it refuses every candidate. -/
theorem refuses_of_greatest (c : Constraints) (hgreatest : repeats.toNat + 1 = UInt32.size) :
    refuses (c.allowing repeats) r = true :=
  decide_eq_true (Route.check_ne_ok_of_greatest hgreatest)

/-- **The guard is monotone below the greatest word.** What it accepts it accepts at any higher
allowance but the greatest word. A scan that allows more repeats has the same candidates, and it
rejects no more of them; at the greatest word it rejects them all, unless its deadline has passed.
-/
theorem guard_is_monotone_below_the_greatest_word (hle : repeats ≤ repeats') :
    (∀ r : Route, r.check repeats = .ok →
      (r.check repeats' = .ok ↔ repeats'.toNat + 1 < UInt32.size)) ∧
    ∀ (mix : Mixing) (schedule schedule' : Schedule) (ctx : ScanContext) (past : Bool),
      schedule.Complete → schedule'.Complete →
      schedule.Finds ctx.deadline past → schedule'.Finds ctx.deadline past → 1 ≤ repeats →
      let before := (withSchedule mix schedule (ctx.allowing repeats)).value
      let after := (withSchedule mix schedule' (ctx.allowing repeats')).value
      after.candidates = before.candidates ∧
      (repeats'.toNat + 1 < UInt32.size → after.rejectedByGuard ≤ before.rejectedByGuard) ∧
      (repeats'.toNat + 1 = UInt32.size → past = false →
        after.rejectedByGuard = after.candidates) := by
  refine ⟨fun r => Route.check_eq_ok_iff_of_le hle, ?_⟩
  intro mix schedule schedule' ctx past h h' hd hd' hsome before after
  have hsame := sameCandidates_allowing ctx hsome (UInt32.le_trans hsome hle)
  by_cases hstarts : Starts (ctx.allowing repeats)
  · have hcandidates : after.candidates = (examined (ctx.allowing repeats')).length :=
      candidates_eq_length mix schedule' (hsame.starts hstarts)
    have hjudged : judged schedule (ctx.allowing repeats) =
        if past then [] else examined (ctx.allowing repeats) := judged_of_finds h hd
    have hjudged' : judged schedule' (ctx.allowing repeats') =
        if past then [] else examined (ctx.allowing repeats') := judged_of_finds h' hd'
    have hbefore := rejectedByGuard_eq mix schedule hstarts
    have hafter := rejectedByGuard_eq mix schedule' (hsame.starts hstarts)
    rw [hjudged] at hbefore
    rw [hjudged', ← hsame.examined] at hafter
    refine ⟨?_, fun hfits => ?_, fun hgreatest htime => ?_⟩
    · rw [hcandidates, ← hsame.examined]
      exact (candidates_eq_length mix schedule hstarts).symm
    · refine (le_of_eq hafter).trans (le_of_le_of_eq ?_ hbefore.symm)
      exact List.countP_mono_left fun r _ => refuses_of_refuses hle hfits
    · rw [htime, if_neg Bool.false_ne_true] at hafter
      rw [hcandidates, ← hsame.examined]
      exact hafter.trans (List.countP_eq_length.2 fun r _ => refuses_of_greatest _ hgreatest)
  · obtain ⟨diagnostic, hbefore, hafter⟩ := hsame.refused mix schedule schedule' hstarts
    rw [show before = _ from hbefore, show after = _ from hafter]
    exact ⟨rfl, fun _ => le_rfl, fun _ _ => rfl⟩

/-- A ring of two hops, and one of four that crosses its start halfway. -/
def twoRings : ScanContext :=
  { routes :=
      [[⟨"SOL", "USDC", {}, "", ""⟩, ⟨"USDC", "SOL", {}, "", ""⟩],
        [⟨"SOL", "USDC", {}, "", ""⟩, ⟨"USDC", "SOL", {}, "", ""⟩, ⟨"SOL", "RAY", {}, "", ""⟩,
          ⟨"RAY", "SOL", {}, "", ""⟩]]
    constraints := { defaultAmount := 1000 } }

/-- Of two rings one is rejected where no token may repeat, none where tokens may be sold twice, and
both at the greatest word. -/
theorem rejections_of_two_rings :
    let once := (withSchedule rolling .still (twoRings.allowing 1)).value
    let twice := (withSchedule rolling .still (twoRings.allowing 2)).value
    let utmost := (withSchedule rolling .still (twoRings.allowing 4294967295)).value
    once.rejectedByGuard = 1 ∧ twice.rejectedByGuard ≤ once.rejectedByGuard ∧
      twice.rejectedByGuard = 0 ∧ utmost.rejectedByGuard = 2 ∧
      ∀ r ∈ twoRings.routes, r.check 2 = .ok ∧ r.check 4294967295 ≠ .ok := by
  intro once twice utmost
  obtain ⟨-, hscans⟩ := guard_is_monotone_below_the_greatest_word (by decide : (1 : UInt32) ≤ 2)
  obtain ⟨-, hfewer, -⟩ := hscans rolling .still .still twoRings false Schedule.complete_still
    Schedule.complete_still (Schedule.finds_none _) (Schedule.finds_none _) (by decide)
  obtain ⟨hroutes, hscans'⟩ :=
    guard_is_monotone_below_the_greatest_word (by decide : (2 : UInt32) ≤ 4294967295)
  obtain ⟨-, -, hall⟩ := hscans' rolling .still .still twoRings false Schedule.complete_still
    Schedule.complete_still (Schedule.finds_none _) (Schedule.finds_none _) (by decide)
  have hcandidates : utmost.candidates = 2 := by decide +kernel
  have htwice : ∀ r ∈ twoRings.routes, r.check 2 = .ok := by decide +kernel
  refine ⟨by decide +kernel, hfewer (by decide), by decide +kernel,
    (hall (by decide) rfl).trans hcandidates, fun r hr => ⟨htwice r hr, fun hok => ?_⟩⟩
  exact absurd ((hroutes r (htwice r hr)).1 hok) (by decide)

/-- **The greatest allowance refuses a ring.** There and back again is accepted at the least
allowance and at the last but one, and refused at the greatest word. A configuration that allows so
many repeats is accepted, and the scan rejects what it does not reject where no token may repeat. -/
theorem greatest_allowance_refuses_a_ring :
    let r : Route :=
      [⟨"A", "B", ⟨1000000, 2000000, 30, .constantProduct⟩, "first", "x"⟩,
        ⟨"B", "A", ⟨1000000, 2000000, 30, .constantProduct⟩, "second", "y"⟩]
    let ctx : ScanContext := { routes := [r], constraints := { defaultAmount := 1000 } }
    r.check 1 = .ok ∧ r.check 4294967294 = .ok ∧ r.check 4294967295 = .circular ∧
      (ctx.allowing 4294967295).constraints.fault? = none ∧
      (withSchedule rolling .still (ctx.allowing 1)).value.rejectedByGuard = 0 ∧
      (withSchedule rolling .still (ctx.allowing 4294967295)).value.rejectedByGuard = 1 := by
  intro r ctx
  exact ⟨by decide +kernel, by decide +kernel, by decide +kernel, by decide +kernel,
    by decide +kernel, by decide +kernel⟩

end Scan

end PoolArbitrage
