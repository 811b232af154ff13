import Mathlib
import PoolArbitrage.Proofs.Candidates
import PoolArbitrage.Proofs.Contents

/-!
# Pools in another order

The order in which pools are reported shows in their tags, and through the tags in the order of
every listing, of the routes and of the candidates. It shows nowhere else.

**The hops on offer decide.** Two snapshots that offer the same hops know the same tokens, find the
same routes through each of them, though perhaps in another order, and miss the same start tokens
(`Snapshot.SameHops`). What becomes of a candidate does not depend on its place among the others,
so the scans of the two agree: **Theorem (`Scan.agrees_of_sameHops`).**

**Theorem (`Scan.feed_order_does_not_matter`).** Feeds that report the same pools in any order, each
address once, and leave the same rates, offer the same hops. If addresses were reported twice, the
first report would count, and then the order would matter.
-/

namespace PoolArbitrage

namespace Snapshot

variable {s t : Snapshot} {c : Constraints} {token start : Token} {least most : Nat}
variable {steps steps' : List FeedStep}

/-! ## The same hops -/

/-- **The snapshots offer the same hops.** -/
def SameHops (s t : Snapshot) : Prop := ∀ hop, hop ∈ s.hops ↔ hop ∈ t.hops

theorem SameHops.symm (h : SameHops s t) : SameHops t s := fun hop => (h hop).symm

/-- The tokens known are those sold by some hop. -/
theorem WellFormed.mem_tokens_iff_hops (h : s.WellFormed) :
    token ∈ s.tokens ↔ ∃ hop ∈ s.hops, hop.sells = token := by
  rw [h.traded]
  constructor
  · intro htraded
    obtain ⟨p, hp, htoken⟩ := htraded
    have hswap : ∀ forward, (⟨p, forward⟩ : Swap) ∈ s.swaps := fun _ => h.mem_swaps_iff.2 hp
    rcases PoolEntry.hasToken_iff.1 htoken with rfl | rfl
    · exact ⟨_, List.mem_map_of_mem (hswap true), rfl⟩
    · exact ⟨_, List.mem_map_of_mem (hswap false), rfl⟩
  · intro hoffered
    obtain ⟨hop, hhop, rfl⟩ := hoffered
    obtain ⟨w, hw, rfl⟩ := List.mem_map.1 hhop
    exact ⟨w.pool, h.pool_mem hw, w.hasToken_sells⟩

/-- There are pools where there are hops. -/
theorem WellFormed.isEmpty_pools (h : s.WellFormed) : s.pools.isEmpty = s.hops.isEmpty := by
  rw [hops, h.offered]
  cases s.pools <;> rfl

namespace SameHops

theorem tokens (h : SameHops s t) (hs : s.WellFormed) (ht : t.WellFormed) :
    s.tokens = t.tokens := by
  refine hs.ascending.eq_of_mem_iff ht.ascending fun token => ?_
  rw [hs.mem_tokens_iff_hops, ht.mem_tokens_iff_hops]
  simp only [h _]

theorem isEmpty_pools (h : SameHops s t) (hs : s.WellFormed) (ht : t.WellFormed) :
    s.pools.isEmpty = t.pools.isEmpty := by
  have hnil : s.hops = [] ↔ t.hops = [] := by
    simp only [List.eq_nil_iff_forall_not_mem, h _]
  rw [hs.isEmpty_pools, ht.isEmpty_pools, Bool.eq_iff_iff, List.isEmpty_iff, List.isEmpty_iff, hnil]

theorem roundTrip (h : SameHops s t) {r : Route} (hr : r.RoundTrip s.hops start) :
    r.RoundTrip t.hops start :=
  { hr with offered := fun hop hhop => (h hop).1 (hr.offered hop hhop) }

/-- **The same routes are found through a token**, each once, perhaps in another order. -/
theorem perm_routesThrough (h : SameHops s t) (hs : s.WellFormed) (ht : t.WellFormed) :
    (s.routesThrough start least most 0).Perm (t.routesThrough start least most 0) := by
  rw [List.perm_ext_iff_of_nodup (hs.nodup_routesThrough ..) (ht.nodup_routesThrough ..)]
  intro r
  rw [hs.mem_routesThrough, ht.mem_routesThrough]
  exact and_congr_left fun _ => ⟨h.roundTrip, h.symm.roundTrip⟩

theorem startTokens (h : SameHops s t) (hs : s.WellFormed) (ht : t.WellFormed) :
    Scan.startTokens s c = Scan.startTokens t c := by
  rw [Scan.startTokens, Scan.startTokens, h.tokens hs ht]

/-- **The same candidates are built**, perhaps in another order. -/
theorem perm_candidates (h : SameHops s t) (hs : s.WellFormed) (ht : t.WellFormed) :
    (Scan.candidates s c).value.1.Perm (Scan.candidates t c).value.1 := by
  rw [Scan.value_candidates_eq hs, Scan.value_candidates_eq ht, h.startTokens hs ht]
  refine List.Perm.flatMap_left _ fun token _ => ?_
  unfold Scan.routesFrom
  split
  · exact h.perm_routesThrough hs ht
  · exact List.Perm.refl _

/-- The same is said of the start tokens. -/
theorem diagnostics (h : SameHops s t) (hs : s.WellFormed) (ht : t.WellFormed) :
    (Scan.candidates s c).value.2 = (Scan.candidates t c).value.2 := by
  rw [Scan.value_candidates_eq hs, Scan.value_candidates_eq ht, h.startTokens hs ht]
  have hmissing : Scan.missing s = Scan.missing t := by
    funext token
    rw [Scan.missing, Scan.missing, hasToken, hasToken, h.tokens hs ht]
  rw [hmissing]

end SameHops

/-! ## Feeds that report the same pools -/

/-- The hops of a record's pool, at the rates of a schedule. -/
def hopsOf (fees : FeeSchedule) (r : PoolRecord) : List Hop :=
  (PoolEntry.ofRecord 0 r).swaps.map (·.hop fees)

/-- The hops on offer after a feed are those of the records kept; the tags are no part of them. -/
theorem hops_ofFeed (steps : List FeedStep) :
    (ofFeed steps).hops = (kept steps).flatMap (hopsOf (ofFeed steps).fees) := by
  rw [hops, (wellFormed_ofFeed steps).offered, pools_ofFeed, List.map_flatMap, List.flatMap_def,
    List.flatMap_def]
  exact congrArg List.flatten (map_entries (fun _ _ => rfl) _)

/-- **Feeds that report the same pools, each address once, and leave the same rates, offer the same
hops.** -/
theorem sameHops_ofFeed (hrecords : (reported steps).Perm (reported steps'))
    (hdistinct : ((reported steps).map (·.address)).Nodup)
    (hrates : ∀ exchange, exchangeRate? steps exchange = exchangeRate? steps' exchange) :
    SameHops (ofFeed steps) (ofFeed steps') := by
  have hdistinct' : ((reported steps').map (·.address)).Nodup :=
    (hrecords.map _).nodup_iff.1 hdistinct
  have hkept : (kept steps).Perm (kept steps') := by
    rw [kept_eq_filter hdistinct, kept_eq_filter hdistinct']
    exact hrecords.filter _
  have hhops : hopsOf (ofFeed steps).fees = hopsOf (ofFeed steps').fees := by
    funext r
    exact List.map_congr_left fun w _ => (sameRates_ofFeed hrates).hop w
  intro hop
  rw [hops_ofFeed, hops_ofFeed, hhops]
  exact (hkept.flatMap_right _).mem_iff

end Snapshot

namespace Scan

variable {s t : Snapshot} {mix : Mixing} {schedule schedule' : Schedule} {ctx : ScanContext}
variable {past : Bool}

/-! ## Scans that agree -/

/-- What is said of the candidates of a context over a snapshot. -/
theorem diagnostics_over (ctx : ScanContext) (s : Snapshot) :
    (allCandidates (ctx.over s)).value.2 =
      (if s.pools.isEmpty then ["no liquidity data in snapshot"] else []) ++
        (candidates s ctx.constraints).value.2 := rfl

/-- Complete schedules leave the outcomes in the order of the candidates, so candidates in another
order have the same outcomes in another order, if the deadline is found alike. -/
theorem perm_results (h : schedule.Complete) (h' : schedule'.Complete)
    (hd : schedule.Finds ctx.deadline past) (hd' : schedule'.Finds ctx.deadline past)
    (hlimit : ctx.constraints.limit = 0)
    (hperm : (candidates s ctx.constraints).value.1.Perm (candidates t ctx.constraints).value.1) :
    (results mix schedule (ctx.over s)).Perm (results mix schedule' (ctx.over t)) := by
  have hbefore : results mix schedule (ctx.over s) = _ := results_of_finds h hd
  have hafter : results mix schedule' (ctx.over t) = _ := results_of_finds h' hd'
  rw [hbefore, hafter, examined_over hlimit, examined_over hlimit]
  exact (hperm.append_right ctx.routes).map _

/-- **Scans over snapshots that offer the same hops agree.** -/
theorem agrees_of_sameHops (hs : s.WellFormed) (ht : t.WellFormed) (hhops : Snapshot.SameHops s t)
    (h : schedule.Complete) (h' : schedule'.Complete) (hd : schedule.Finds ctx.deadline past)
    (hd' : schedule'.Finds ctx.deadline past) (hlimit : ctx.constraints.limit = 0)
    (hmatch : ctx.constraints.matchLimit = 0) :
    (withSchedule mix schedule (ctx.over s)).value.Agrees
      (withSchedule mix schedule' (ctx.over t)).value := by
  by_cases hsound : ctx.constraints.fault? = none
  · have hperm : (results mix schedule (ctx.over s)).Perm (results mix schedule' (ctx.over t)) :=
      perm_results h h' hd hd' hlimit (hhops.perm_candidates hs ht)
    have hlate : late (results mix schedule (ctx.over s)) =
        late (results mix schedule' (ctx.over t)) := by
      rw [late, late, hperm.any_eq]
    have hsaid : (allCandidates (ctx.over s)).value.2 = (allCandidates (ctx.over t)).value.2 := by
      rw [diagnostics_over, diagnostics_over, hhops.isEmpty_pools hs ht, hhops.diagnostics hs ht]
    rw [value_withSchedule_uncut _ _ (starts_over_iff.2 hsound) hmatch,
      value_withSchedule_uncut _ _ (starts_over_iff.2 hsound) hmatch, hlate, hsaid]
    exact Report.agrees_ofOutcomes hperm _
  · obtain ⟨fault, hfault⟩ := Option.ne_none_iff_exists'.1 hsound
    have hrefused : withSchedule mix schedule (ctx.over s) =
        withSchedule mix schedule' (ctx.over t) := by
      have hsame : ∀ u : Snapshot, (ctx.over u).constraints.fault? = some fault := fun _ => hfault
      rw [withSchedule, withSchedule, hsame, hsame]
    rw [hrefused]
    exact Report.Agrees.refl _

/-- **Feed order does not matter.** Feeds that report the same pools in any order, each address
once, and leave every exchange with the same rate lead to scans with the same counts, the same
diagnostics and the same opportunities, perhaps in another order. -/
theorem feed_order_does_not_matter {steps steps' : List FeedStep}
    (hrecords : (Snapshot.reported steps).Perm (Snapshot.reported steps'))
    (hdistinct : ((Snapshot.reported steps).map (·.address)).Nodup)
    (hrates : ∀ exchange,
      Snapshot.exchangeRate? steps exchange = Snapshot.exchangeRate? steps' exchange)
    (h : schedule.Complete) (h' : schedule'.Complete) (hd : schedule.Finds ctx.deadline past)
    (hd' : schedule'.Finds ctx.deadline past) (hlimit : ctx.constraints.limit = 0)
    (hmatch : ctx.constraints.matchLimit = 0) :
    (withSchedule mix schedule (ctx.over (Snapshot.ofFeed steps))).value.Agrees
      (withSchedule mix schedule' (ctx.over (Snapshot.ofFeed steps'))).value :=
  agrees_of_sameHops (Snapshot.wellFormed_ofFeed steps) (Snapshot.wellFormed_ofFeed steps')
    (Snapshot.sameHops_ofFeed hrecords hdistinct hrates) h h' hd hd' hlimit hmatch

/-- The pools of the gap in the other order give the same candidates in another order, and the scans
agree; it makes no difference either when a rate is set. -/
theorem feed_order_of_gap :
    let steps := gapFeed ++ [.fee "third" 25]
    let steps' := .fee "third" 25 :: gapFeed.reverse
    (candidates (Snapshot.ofFeed steps) gapContext.constraints).value.1 ≠
      (candidates (Snapshot.ofFeed steps') gapContext.constraints).value.1 ∧
    (withSchedule rolling .still (gapContext.over (Snapshot.ofFeed steps))).value.Agrees
      (withSchedule rolling .still (gapContext.over (Snapshot.ofFeed steps'))).value := by
  intro steps steps'
  have hrates : ∀ exchange,
      Snapshot.exchangeRate? steps exchange = Snapshot.exchangeRate? steps' exchange := fun _ => rfl
  refine ⟨by decide +kernel, ?_⟩
  exact feed_order_does_not_matter (List.Perm.swap ..) (by decide +kernel) hrates
    Schedule.complete_still Schedule.complete_still (Schedule.finds_none _) (Schedule.finds_none _)
    rfl rfl

end Scan

end PoolArbitrage
