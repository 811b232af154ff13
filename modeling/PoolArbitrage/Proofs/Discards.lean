import Mathlib
import PoolArbitrage.Proofs.Candidates
import PoolArbitrage.Proofs.Guard
import PoolArbitrage.Proofs.Search

/-!
# What a scan discards

The candidates a snapshot gives are round trips of a length allowed, and there was an amount for
each start token. So the guard, the amount and the evaluation leave little to go wrong, and what
goes wrong can be told from the snapshot.

**The guard** refuses a candidate that doubles back, where tokens may not repeat, and no other
(`Scan.check_candidate_iff`).

**The amount** is never zero: a configured one was asked for before, and a searched one lies in a
range that begins above zero (`Candidate.tradedAmount_ne_zero`).

**The evaluation** fails just where the candidate crosses a pool that trades nothing
(`Snapshot.WellFormed.failed_evaluate_iff`).

**Theorem (`Scan.snapshot_scan_discards`).** These are the counts of a scan that is not cut short.
-/

namespace PoolArbitrage

/-! ## Configurations -/

/-- **A sound configuration**: what the check asks of its fields. -/
structure Constraints.Sound (c : Constraints) : Prop where
  profit : 0 ≤ c.minProfitBps
  repeats : 1 ≤ c.maxTokenRepeats
  least : PoolArbitrage.minHops ≤ c.minHops.toNat
  most : c.maxHops.toNat ≤ PoolArbitrage.maxHops
  range : c.minHops ≤ c.maxHops
  margin : 0 ≤ c.costs.safetyMarginPct
  stress : 0 ≤ c.maxStress
  threads : 1 ≤ c.threads
  searched : c.optimize = true → c.searchMin ≠ 0 ∧ c.searchMin ≤ c.searchMax
  configured : c.optimize = false → 0 < c.defaultAmount ∨ c.amounts.any (0 < ·.2) = true

/-- A configuration without fault is sound. -/
theorem Constraints.sound_of_fault? {c : Constraints} (h : c.fault? = none) : c.Sound := by
  unfold fault? at h
  split_ifs at h with hprofit hrepeats hhops hmargin hstress hthreads hsearch hrange hamount
  · simp only [not_or, Nat.not_lt, UInt32.not_lt] at hhops
    simp only [not_or, UInt64.not_lt] at hrange
    exact ⟨Int64.not_lt.1 hprofit, UInt32.not_lt.1 hrepeats, hhops.1, hhops.2.1, hhops.2.2,
      hmargin, hstress, UInt32.not_lt.1 hthreads, fun _ => hrange,
      fun hfixed => absurd hsearch (by simp [hfixed])⟩
  · simp only [not_or, Nat.not_lt, UInt32.not_lt] at hhops
    exact ⟨Int64.not_lt.1 hprofit, UInt32.not_lt.1 hrepeats, hhops.1, hhops.2.1, hhops.2.2,
      hmargin, hstress, UInt32.not_lt.1 hthreads,
      fun hsearched => absurd hsearched hsearch, fun _ => hamount⟩

namespace Candidate

variable {c : Constraints} {r : Route} {token : Token}

/-- **The amount of a candidate is never zero**: one was set for its start token, or the range it is
searched in begins above zero. -/
theorem tradedAmount_ne_zero (hsound : c.Sound) (htrades : c.Trades token)
    (hstart : r.start? = some token) : tradedAmount c r ≠ 0 := by
  rw [tradedAmount]
  by_cases hsearch : c.optimize = true
  · obtain ⟨hlo, hrange⟩ := hsound.searched hsearch
    have hfound := (Search.best_mem c.costs r Search.defaultLevels hrange).1
    rw [if_pos hsearch]
    intro hzero
    rw [hzero] at hfound
    exact hlo (UInt64.le_zero_iff.1 hfound)
  · rw [if_neg hsearch, hstart]
    exact htrades.resolve_left hsearch

end Candidate

namespace Snapshot

variable {s : Snapshot} {p : PoolEntry} {r : Route} {start : Token} {amount : Amount}

/-! ## Pools that trade nothing -/

/-- A pool that trades nothing: a reserve is empty, or the fee in force is more than the whole. -/
def Barren (s : Snapshot) (p : PoolEntry) : Prop :=
  p.reserveA = 0 ∨ p.reserveB = 0 ∨ (whole : Int) < (s.feeReading p).bps

instance (s : Snapshot) (p : PoolEntry) : Decidable (s.Barren p) :=
  inferInstanceAs (Decidable (_ ∨ _ ∨ _))

/-- The route crosses a pool that trades nothing. -/
def crossesBarren (s : Snapshot) (r : Route) : Bool :=
  s.pools.any fun p => decide (s.Barren p) && r.addresses.contains p.address

/-- A hop finds its pool at fault just where the pool trades nothing. -/
theorem fault?_hop_ne_none_iff (w : Swap) :
    (w.hop s.fees).pool.fault? ≠ none ↔ s.Barren w.pool := by
  have hfee : (s.feeReading w.pool).bps = ((w.pool.rate s.fees).bps.toNat : Int) := by
    rw [feeReading, Rate.reading_ofRate, Rate.toNat_bps]
    rfl
  have hshort : (whole : Int) < (s.feeReading w.pool).bps ↔
      whole < (w.pool.rate s.fees).bps.toNat := by
    rw [hfee]
    exact Int.ofNat_lt
  rw [Pool.fault?_ne_none_iff, Barren, hshort]
  obtain ⟨p, forward⟩ := w
  cases forward
  · exact or_left_comm
  · exact Iff.rfl

/-- **A candidate fails just where it crosses a pool that trades nothing**, whatever the amount. -/
theorem WellFormed.failed_evaluate_iff (h : s.WellFormed) (hr : r.RoundTrip s.hops start) :
    (r.evaluate amount).failed = true ↔ s.crossesBarren r = true := by
  rw [Route.failed_evaluate_iff, crossesBarren, List.any_eq_true]
  simp only [Bool.and_eq_true, decide_eq_true_eq, List.contains_iff_mem, Route.addresses,
    List.mem_map]
  constructor
  · intro hfault
    obtain ⟨hop, hhop, hfault⟩ := hfault
    obtain ⟨w, hw, rfl⟩ := List.mem_map.1 (hr.offered hop hhop)
    exact ⟨w.pool, h.pool_mem hw, fault?_hop_ne_none_iff w |>.1 hfault, _, hhop, rfl⟩
  · intro hcross
    obtain ⟨p, hp, hbarren, hop, hhop, haddress⟩ := hcross
    obtain ⟨w, hw, rfl⟩ := List.mem_map.1 (hr.offered hop hhop)
    have hpool : w.pool = p := h.eq_of_address_eq (h.pool_mem hw) hp haddress
    rw [← hpool] at hbarren
    exact ⟨_, hhop, (fault?_hop_ne_none_iff w).2 hbarren⟩

/-- The tokens of a hop on offer differ. -/
theorem WellFormed.buys_ne_sells (h : s.WellFormed) : ∀ hop ∈ s.hops, hop.buys ≠ hop.sells := by
  intro hop hhop
  obtain ⟨w, hw, rfl⟩ := List.mem_map.1 hhop
  exact Swap.buys_ne_sells (h.complete_pool hw)

end Snapshot

namespace Scan

variable {s : Snapshot} {mix : Mixing} {c : Constraints} {r : Route} {schedule : Schedule}
variable {ctx : ScanContext}

/-! ## The candidates -/

/-- A candidate is a round trip of a length allowed from a token with an amount. -/
theorem roundTrip_of_candidate (h : s.WellFormed) (hr : r ∈ (candidates s c).value.1) :
    ∃ token, c.Trades token ∧ r.RoundTrip s.hops token ∧ minHops ≤ r.length ∧
      r.length ≤ maxHops := by
  obtain ⟨token, -, htrades, htrip, hleast, hmost⟩ := (mem_candidates h).1 hr
  exact ⟨token, htrades, htrip, (le_max_right ..).trans hleast, hmost.trans (min_le_right ..)⟩

/-- **The guard refuses a candidate that doubles back where tokens may not repeat**, and no
other. -/
theorem check_candidate_iff (h : s.WellFormed) (hsound : c.Sound)
    (hrepeats : c.maxTokenRepeats.toNat + 1 < UInt32.size) (hr : r ∈ (candidates s c).value.1) :
    r.check c.maxTokenRepeats = .ok ↔ ¬ (c.maxTokenRepeats = 1 ∧ r.doublesBack = true) := by
  obtain ⟨token, -, htrip, hleast, hmost⟩ := roundTrip_of_candidate h hr
  rw [Route.check_eq_ok, htrip.fault?_eq_none_iff h.buys_ne_sells hleast hmost hsound.repeats
    hrepeats]

/-- The guard has nothing against the length of a candidate or the order of its hops. -/
theorem check_candidate (h : s.WellFormed) (hr : r ∈ (candidates s c).value.1) (repeats : UInt32) :
    r.check repeats = .ok ∨ r.check repeats = .circular := by
  obtain ⟨token, -, htrip, hleast, hmost⟩ := roundTrip_of_candidate h hr
  exact htrip.check_eq hleast hmost repeats

theorem tradedAmount_candidate_ne_zero (h : s.WellFormed) (hsound : c.Sound)
    (hr : r ∈ (candidates s c).value.1) : Candidate.tradedAmount c r ≠ 0 := by
  obtain ⟨token, htrades, htrip, -, -⟩ := roundTrip_of_candidate h hr
  exact Candidate.tradedAmount_ne_zero hsound htrades htrip.start?

/-- The evaluation of a candidate fails just where it crosses a pool that trades nothing. -/
theorem failed_candidate_iff (h : s.WellFormed) (hr : r ∈ (candidates s c).value.1) :
    (Candidate.evaluation c r).failed = true ↔ s.crossesBarren r = true := by
  obtain ⟨token, -, htrip, -, -⟩ := roundTrip_of_candidate h hr
  exact h.failed_evaluate_iff htrip

/-! ## Their outcomes -/

theorem isRejectedByGuard_candidate_iff (mix : Mixing) (h : s.WellFormed) (hsound : c.Sound)
    (hrepeats : c.maxTokenRepeats.toNat + 1 < UInt32.size) (hr : r ∈ (candidates s c).value.1) :
    (Candidate.judge mix c r).value.isRejectedByGuard = true ↔
      c.maxTokenRepeats = 1 ∧ r.doublesBack = true := by
  rw [(Candidate.judged_judge mix c r).isRejectedByGuard_iff, Ne,
    check_candidate_iff h hsound hrepeats hr, not_not]

theorem not_isNoAmount_candidate (h : s.WellFormed) (hsound : c.Sound)
    (hr : r ∈ (candidates s c).value.1) : ¬ (Candidate.judge mix c r).value.isNoAmount = true := by
  intro hnone
  have hzero := ((Candidate.judged_judge mix c r).isNoAmount_iff.1 hnone).2
  exact tradedAmount_candidate_ne_zero h hsound hr hzero

theorem isFailed_candidate_iff (mix : Mixing) (h : s.WellFormed) (hsound : c.Sound)
    (hrepeats : c.maxTokenRepeats.toNat + 1 < UInt32.size) (hr : r ∈ (candidates s c).value.1) :
    (Candidate.judge mix c r).value.isFailed = true ↔
      ¬ (c.maxTokenRepeats = 1 ∧ r.doublesBack = true) ∧ s.crossesBarren r = true := by
  have hsized : Candidate.Sized c r ↔ r.check c.maxTokenRepeats = .ok :=
    ⟨fun hsized => hsized.guarded, fun hok => ⟨hok, tradedAmount_candidate_ne_zero h hsound hr⟩⟩
  rw [(Candidate.judged_judge mix c r).isFailed_iff, hsized,
    check_candidate_iff h hsound hrepeats hr, failed_candidate_iff h hr]

/-! ## The counts -/

/-- What the judgement makes of the candidates of a snapshot. -/
def judgements (mix : Mixing) (s : Snapshot) (c : Constraints) : List Outcome :=
  (candidates s c).value.1.map fun r => (Candidate.judge mix c r).value

theorem countP_isNoAmount_judgements (h : s.WellFormed) (hsound : c.Sound) :
    (judgements mix s c).countP (·.isNoAmount) = 0 := by
  rw [judgements, List.countP_map, List.countP_eq_zero]
  exact fun r hr => not_isNoAmount_candidate h hsound hr

theorem countP_isRejectedByGuard_judgements (h : s.WellFormed) (hsound : c.Sound)
    (hrepeats : c.maxTokenRepeats.toNat + 1 < UInt32.size) :
    (judgements mix s c).countP (·.isRejectedByGuard) =
      if c.maxTokenRepeats = 1 then (candidates s c).value.1.countP Route.doublesBack else 0 := by
  have hrejected := fun r (hr : r ∈ (candidates s c).value.1) =>
    isRejectedByGuard_candidate_iff mix h hsound hrepeats hr
  rw [judgements, List.countP_map]
  split
  · next hone => exact List.countP_congr fun r hr => (hrejected r hr).trans (and_iff_right hone)
  · next hmore =>
    rw [List.countP_eq_zero]
    intro r hr hguard
    exact hmore ((hrejected r hr).1 hguard).1

/-- The candidates that do not double back, where tokens may not repeat; otherwise all. -/
def remaining (c : Constraints) (routes : List Route) : List Route :=
  if c.maxTokenRepeats = 1 then routes.filter fun r => !r.doublesBack else routes

theorem countP_isFailed_judgements (h : s.WellFormed) (hsound : c.Sound)
    (hrepeats : c.maxTokenRepeats.toNat + 1 < UInt32.size) :
    (judgements mix s c).countP (·.isFailed) =
      (remaining c (candidates s c).value.1).countP s.crossesBarren := by
  have hfailed := fun r (hr : r ∈ (candidates s c).value.1) =>
    isFailed_candidate_iff mix h hsound hrepeats hr
  rw [judgements, List.countP_map, remaining]
  split
  · next hone =>
    rw [List.countP_filter]
    refine List.countP_congr fun r hr => (hfailed r hr).trans ?_
    simp [hone, and_comm]
  · next hmore =>
    exact List.countP_congr fun r hr => (hfailed r hr).trans (and_iff_right fun h => hmore h.1)

/-- A scan of a snapshot alone judges the candidates of the snapshot. -/
theorem results_over (h : schedule.Complete) (hroutes : ctx.routes = [])
    (hlimit : ctx.constraints.limit = 0) (hd : schedule.Finds ctx.deadline false) :
    results mix schedule (ctx.over s) = judgements mix s ctx.constraints := by
  have hall : examined (ctx.over s) = (candidates s ctx.constraints).value.1 := by
    rw [examined_over hlimit, hroutes, List.append_nil]
  rw [judgements, ← hall]
  exact results_eq_map_judge h hd

/-- **What a scan of a snapshot discards.** No candidate lacks an amount. The guard rejects those
of four hops that double back, where tokens may not repeat, and has nothing else against any, under
whatever allowance. Of the candidates it leaves, those fail that cross a pool that trades nothing.
-/
theorem snapshot_scan_discards (steps : List FeedStep) (mix : Mixing) (ctx : ScanContext)
    (h : schedule.Complete) (hd : schedule.Finds ctx.deadline false)
    (hroutes : ctx.routes = []) (hfault : ctx.constraints.fault? = none)
    (hrepeats : ctx.constraints.maxTokenRepeats.toNat + 1 < UInt32.size)
    (hlimit : ctx.constraints.limit = 0) :
    let s := Snapshot.ofFeed steps
    let built := (candidates s ctx.constraints).value.1
    let report := (withSchedule mix schedule (ctx.over s)).value
    report.noAmount = 0 ∧
    report.rejectedByGuard =
      (if ctx.constraints.maxTokenRepeats = 1 then built.countP Route.doublesBack else 0) ∧
    (∀ r ∈ built, ∀ repeats, r.check repeats = .ok ∨ r.check repeats = .circular) ∧
    report.failed = (remaining ctx.constraints built).countP s.crossesBarren := by
  intro s built report
  have hs : s.WellFormed := Snapshot.wellFormed_ofFeed steps
  have hsound := Constraints.sound_of_fault? hfault
  have hreport : report = _ := value_withSchedule_eq mix schedule (starts_over_iff.2 hfault)
  rw [results_over h hroutes hlimit hd] at hreport
  rw [hreport]
  exact ⟨countP_isNoAmount_judgements hs hsound,
    countP_isRejectedByGuard_judgements hs hsound hrepeats, fun r hr => check_candidate hs hr,
    countP_isFailed_judgements hs hsound hrepeats⟩

/-- Three pools of one pair, one of them empty, and two of another, one of them with a fee above the
whole. -/
def leaky : List FeedStep :=
  [.pool ⟨"x", "A", "B", 1000000, 1000000, 30, "first", .constantProduct⟩,
    .pool ⟨"y", "A", "B", 1000000, 1000000, 30, "second", .constantProduct⟩,
    .pool ⟨"z", "A", "B", 1000000, 0, 30, "third", .constantProduct⟩,
    .pool ⟨"v", "B", "C", 1000000, 1000000, 30, "first", .constantProduct⟩,
    .pool ⟨"w", "B", "C", 1000000, 1000000, -1, "second", .constantProduct⟩,
    .fee "second" 10001]

/-- A scan for cycles of up to four hops, where a token may be sold so often. -/
def upToFour (repeats : UInt32) : ScanContext :=
  { constraints :=
      { defaultAmount := 1000, startTokens := ["A"], maxHops := 4, maxTokenRepeats := repeats } }

/-- Six candidates are there and back, four of them through the empty pool; the other twelve double
back, and all of them cross the pool with the fee. -/
theorem discards_of_leaky :
    let s := Snapshot.ofFeed leaky
    let once := (withSchedule rolling .still ((upToFour 1).over s)).value
    let twice := (withSchedule rolling .still ((upToFour 2).over s)).value
    once.noAmount = 0 ∧ once.rejectedByGuard = 12 ∧ once.failed = 4 ∧
      twice.noAmount = 0 ∧ twice.rejectedByGuard = 0 ∧ twice.failed = 16 := by
  intro s once twice
  obtain ⟨hamount, hrejected, -, hfailed⟩ := snapshot_scan_discards leaky rolling (upToFour 1)
    Schedule.complete_still (Schedule.finds_none _) rfl (by decide +kernel) (by decide) rfl
  obtain ⟨hamount', hrejected', -, hfailed'⟩ := snapshot_scan_discards leaky rolling (upToFour 2)
    Schedule.complete_still (Schedule.finds_none _) rfl (by decide +kernel) (by decide) rfl
  exact ⟨hamount, hrejected.trans (by decide +kernel), hfailed.trans (by decide +kernel), hamount',
    hrejected'.trans rfl, hfailed'.trans (by decide +kernel)⟩

end Scan

end PoolArbitrage
