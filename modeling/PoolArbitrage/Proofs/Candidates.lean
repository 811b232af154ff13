import Mathlib
import PoolArbitrage.Proofs.Findings
import PoolArbitrage.Proofs.RoundTrips

/-!
# The candidates a snapshot gives, and what is made of them

For each start token with an amount the candidates are the routes found through it
(`Scan.value_candidatesFrom`). A token the snapshot does not know has none, so it makes no
difference to the candidates that it is passed over, only to the diagnostics.

**What is found.** A scan reports nothing but what is found in the candidates it judges, and without
a match limit all of it, ranked (`Scan.opportunities_subperm` and `Scan.opportunities_eq_rank`).

**One snapshot in place of another.** A scan reads of its snapshot the candidates and the
diagnostics, and nothing else. `ScanContext.over` is a context over a given snapshot; what is found
in a candidate is the same over all of them.

**Theorem (`Scan.opportunities_over`).** Without a limit, a scan of a sound configuration that runs
all its tasks in time reports all that is found in the candidates of the snapshot and those of the
caller, ranked.

**Theorem (`Report.agrees_ofOutcomes`).** Outcomes in another order come to the same counts and to
the same opportunities, in another order.
-/

namespace PoolArbitrage

/-- The configuration has an amount for a start token, or searches one. -/
def Constraints.Trades (c : Constraints) (token : Token) : Prop :=
  c.optimize = true ∨ c.amountFor token ≠ 0

instance (c : Constraints) (token : Token) : Decidable (c.Trades token) :=
  inferInstanceAs (Decidable (_ ∨ _))

/-- The context over a snapshot. -/
def ScanContext.over (ctx : ScanContext) (s : Snapshot) : ScanContext :=
  { ctx with snapshot := some s }

namespace Scan

variable {s : Snapshot} {c : Constraints} {mix : Mixing} {schedule : Schedule} {ctx : ScanContext}
variable {r : Route} {routes : List Route} {o : Opportunity} {past : Bool}

/-! ## Candidates -/

/-- The candidates through a start token: all routes through it, if there is an amount for it. -/
def routesFrom (s : Snapshot) (c : Constraints) (token : Token) : List Route :=
  if c.Trades token then s.routesThrough token c.minHops.toNat c.maxHops.toNat 0 else []

/-- What there is to say of a start token. -/
def missing (s : Snapshot) (token : Token) : List String :=
  if s.hasToken token then [] else [s!"no liquidity data for start token {token}"]

/-- **The candidates through a start token are the routes found through it.** -/
theorem value_candidatesFrom (h : s.WellFormed) (c : Constraints) (token : Token) :
    (candidatesFrom s c token).value = (routesFrom s c token, missing s token) := by
  unfold candidatesFrom routesFrom missing
  by_cases hknown : s.hasToken token = true
  · by_cases hamount : c.Trades token
    · have hgo : ¬ (!c.optimize && c.amountFor token == 0) = true := by
        rcases hamount with hsearch | hset
        · simp [hsearch]
        · simp [hset]
      simp only [hknown, Bool.not_true, Bool.false_eq_true, if_false, if_neg hgo, if_true,
        if_pos hamount]
      rfl
    · have hskip : (!c.optimize && c.amountFor token == 0) = true := by
        simpa [Constraints.Trades] using hamount
      simp only [hknown, Bool.not_true, Bool.false_eq_true, if_false, hskip, if_true,
        if_neg hamount]
      rfl
  · rw [h.routesThrough_of_not_hasToken hknown, ite_self]
    simp only [hknown, Bool.not_false, if_true, Bool.false_eq_true, if_false]
    rfl

theorem value_candidates_eq (h : s.WellFormed) (c : Constraints) :
    (candidates s c).value =
      ((startTokens s c).flatMap (routesFrom s c), (startTokens s c).flatMap (missing s)) := by
  simp only [candidates, Logged.value_bind, Logged.value_each, Logged.value_pure, List.flatMap_map,
    value_candidatesFrom h]

/-- A candidate is a round trip from a start token with an amount, of a length allowed. -/
theorem mem_candidates (h : s.WellFormed) :
    r ∈ (candidates s c).value.1 ↔ ∃ token ∈ startTokens s c, c.Trades token ∧
      r.RoundTrip s.hops token ∧ max c.minHops.toNat minHops ≤ r.length ∧
        r.length ≤ min c.maxHops.toNat maxHops := by
  rw [value_candidates_eq h]
  simp only [List.mem_flatMap, routesFrom]
  refine exists_congr fun token => and_congr_right fun _ => ?_
  by_cases hamount : c.Trades token
  · rw [if_pos hamount, h.mem_routesThrough, and_iff_right hamount]
  · simp [hamount]

/-! ## What is found -/

/-- What is found in some candidates, in the order of the candidates. -/
def foundIn (mix : Mixing) (c : Constraints) (routes : List Route) : List Opportunity :=
  routes.filterMap fun r => (Candidate.judge mix c r).value.opportunity?

theorem filterMap_results :
    (results mix schedule ctx).filterMap (·.opportunity?) =
      foundIn mix ctx.constraints (judged schedule ctx) :=
  filterMap_outcomes rfl

/-- Without a match limit a scan reports all that is found in the candidates it judges. -/
theorem opportunities_eq_rank (hstarts : Starts ctx) (hmatch : ctx.constraints.matchLimit = 0) :
    (withSchedule mix schedule ctx).value.opportunities =
      rank Opportunity.rankKey (foundIn mix ctx.constraints (judged schedule ctx)) := by
  rw [value_withSchedule_uncut mix schedule hstarts hmatch, ← filterMap_results]
  rfl

/-- **A scan reports nothing but what is found in the candidates it judges**, and nothing more
often. -/
theorem opportunities_subperm (mix : Mixing) (schedule : Schedule) (ctx : ScanContext) :
    (withSchedule mix schedule ctx).value.opportunities.Subperm
      (foundIn mix ctx.constraints (judged schedule ctx)) := by
  by_cases hstarts : Starts ctx
  · rw [value_withSchedule_eq mix schedule hstarts, ← filterMap_results]
    simp only [Report.ranked, Report.ofOutcomes]
    split
    · exact (perm_rank ..).subperm
    · exact (List.take_sublist ..).subperm.trans (perm_rank ..).subperm
  · obtain ⟨diagnostic, hvalue⟩ := value_withSchedule_of_not mix schedule hstarts
    rw [hvalue]
    exact List.nil_subperm

theorem route_of_foundIn (h : o ∈ foundIn mix c routes) : o.route ∈ routes := by
  obtain ⟨r, hr, ho⟩ := List.mem_filterMap.1 h
  rw [Candidate.route_of_judge ho]
  exact hr

/-- In each candidate one opportunity is found at most, in the order of the candidates. -/
theorem map_route_foundIn_sublist (mix : Mixing) (c : Constraints) (routes : List Route) :
    ((foundIn mix c routes).map (·.route)).Sublist routes := by
  induction routes with
  | nil => exact List.Sublist.refl _
  | cons r routes ih =>
    rw [foundIn, List.filterMap_cons]
    cases ho : (Candidate.judge mix c r).value.opportunity? with
    | none => exact ih.cons r
    | some o =>
      rw [List.map_cons, Candidate.route_of_judge ho]
      exact ih.cons_cons r

theorem foundIn_append (routes more : List Route) :
    foundIn mix c (routes ++ more) = foundIn mix c routes ++ foundIn mix c more :=
  List.filterMap_append

/-! ## All in time, or none -/

/-- Under a complete schedule all candidates are judged, or none is. -/
theorem judged_of_finds (h : schedule.Complete) (hd : schedule.Finds ctx.deadline past) :
    judged schedule ctx = if past then [] else examined ctx :=
  judgedOf_of_finds h hd

/-- Past the deadline nothing is reported. -/
theorem opportunities_of_past (h : schedule.Complete) (hd : schedule.Finds ctx.deadline true) :
    (withSchedule mix schedule ctx).value.opportunities = [] := by
  have hsubperm := opportunities_subperm mix schedule ctx
  rw [judged_of_finds h hd, if_pos rfl] at hsubperm
  exact List.subperm_nil.1 hsubperm

/-! ## One snapshot in place of another -/

theorem starts_over_iff : Starts (ctx.over s) ↔ ctx.constraints.fault? = none :=
  ⟨fun h => h.sound, fun h => ⟨h, .inl rfl⟩⟩

/-- Without a limit the candidates of the snapshot come first, then those of the caller. -/
theorem examined_over (hlimit : ctx.constraints.limit = 0) :
    examined (ctx.over s) = (candidates s ctx.constraints).value.1 ++ ctx.routes :=
  examined_unlimited hlimit

/-- **Without a limit a scan over a snapshot that is in time reports all that is found**, ranked. -/
theorem opportunities_over (h : schedule.Complete) (hd : schedule.Finds ctx.deadline false)
    (hsound : ctx.constraints.fault? = none) (hlimit : ctx.constraints.limit = 0)
    (hmatch : ctx.constraints.matchLimit = 0) :
    (withSchedule mix schedule (ctx.over s)).value.opportunities =
      rank Opportunity.rankKey (foundIn mix ctx.constraints
        ((candidates s ctx.constraints).value.1 ++ ctx.routes)) := by
  have hd' : schedule.Finds (ctx.over s).deadline false := hd
  rw [opportunities_eq_rank (starts_over_iff.2 hsound) hmatch, judged_of_finds h hd',
    if_neg Bool.false_ne_true, examined_over hlimit]
  rfl

/-- A scan of a configuration with a fault reports nothing. -/
theorem opportunities_over_of_fault (mix : Mixing) (schedule : Schedule) (s : Snapshot)
    (hfault : ctx.constraints.fault? ≠ none) :
    (withSchedule mix schedule (ctx.over s)).value.opportunities = [] := by
  have hnot : ¬ Starts (ctx.over s) := mt starts_over_iff.1 hfault
  obtain ⟨diagnostic, hvalue⟩ := value_withSchedule_of_not mix schedule hnot
  rw [hvalue]
  rfl

/-- The feed that the gap comes from. -/
def gapFeed : List FeedStep :=
  [.pool ⟨"x", "A", "B", 1000000000000, 2000000000000, 30, "first", .constantProduct⟩,
    .pool ⟨"y", "B", "A", 1000000000000, 2000000000000, 30, "second", .constantProduct⟩]

end Scan

/-! ## Outcomes in another order -/

namespace Report

/-- **Reports that agree** say the same and list the same opportunities, perhaps in another
order. -/
structure Agrees (a b : Report) : Prop where
  opportunities : a.opportunities.Perm b.opportunities
  candidates : a.candidates = b.candidates
  rejectedByGuard : a.rejectedByGuard = b.rejectedByGuard
  noAmount : a.noAmount = b.noAmount
  failed : a.failed = b.failed
  rejectedByStress : a.rejectedByStress = b.rejectedByStress
  unprofitable : a.unprofitable = b.unprofitable
  evaluated : a.evaluated = b.evaluated
  deadlineHit : a.deadlineHit = b.deadlineHit
  configError : a.configError = b.configError
  diagnostics : a.diagnostics = b.diagnostics

theorem Agrees.refl (a : Report) : a.Agrees a where
  opportunities := List.Perm.refl _
  candidates := rfl
  rejectedByGuard := rfl
  noAmount := rfl
  failed := rfl
  rejectedByStress := rfl
  unprofitable := rfl
  evaluated := rfl
  deadlineHit := rfl
  configError := rfl
  diagnostics := rfl

/-- **Outcomes in another order come to reports that agree**, if nothing is cut off. -/
theorem agrees_ofOutcomes {outcomes others : List Outcome} (h : outcomes.Perm others)
    (diagnostics : List String) :
    Agrees { (ofOutcomes outcomes).ranked 0 with diagnostics }
      { (ofOutcomes others).ranked 0 with diagnostics } where
  opportunities := by
    have hfound : (outcomes.filterMap (·.opportunity?)).Perm (others.filterMap (·.opportunity?)) :=
      h.filterMap _
    exact (perm_rank _ _).trans (hfound.trans (perm_rank _ _).symm)
  candidates := h.length_eq
  rejectedByGuard := h.countP_eq _
  noAmount := h.countP_eq _
  failed := h.countP_eq _
  rejectedByStress := h.countP_eq _
  unprofitable := h.countP_eq _
  evaluated := h.countP_eq _
  deadlineHit := h.any_eq
  configError := rfl
  diagnostics := rfl

end Report

end PoolArbitrage
