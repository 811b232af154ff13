import Mathlib
import PoolArbitrage.Proofs.Candidates
import PoolArbitrage.Proofs.Rejections

/-!
# A snapshot that takes a pool in

A new pool opens new routes. It closes none and moves none: the routes that were there before come
out again, in the order they had, between those that cross the new pool.

**Cycles.** The cycles of the larger snapshot that keep away from the new pool are the cycles of
the smaller one. Both lists rise strictly in the tags crossed, so they are the same list
(`Snapshot.Grown.cycles`).

**Start tokens.** A token that comes with the pool is traded by no other pool, so each route
through it crosses the pool; and so does each route through a configured token that was not known
before. Leaving these routes out leaves nothing of such a token, wherever it stands among the start
tokens (`Snapshot.Grown.candidates`).

**Theorem (`Scan.new_pool_hides_nothing`).** Hence every opportunity of a scan is found again with
the pool added, in the same order, and every other one crosses the pool.
-/

namespace PoolArbitrage

namespace Snapshot

variable {s t : Snapshot} {p : PoolEntry} {c : Constraints} {start token : Token}
variable {least most : Nat}

/-- **The second snapshot has one more pool**, of an address that is new, and the same rates. -/
structure Grown (s t : Snapshot) (p : PoolEntry) : Prop where
  pools : t.pools = s.pools ++ [p]
  fresh : p.address ∉ s.pools.map (·.address)
  rates : SameRates s t

/-- A record that is taken in makes its snapshot grow by its pool. -/
theorem grown_add (h : s.WellFormed) {r : PoolRecord}
    (haccepted : (s.addLogged r).value.2.isSome) : Grown s (s.add r) (s.entryFor r) := by
  have hrates : SameRates s (s.add r) := fun exchange => (rate_add h r exchange).symm
  rw [value_addLogged] at haccepted
  rw [add] at hrates ⊢
  generalize hreceived : s.receive r = received at haccepted hrates
  have hreceipt : Receipt s r received := hreceived ▸ h.receipt r
  cases hreceipt with
  | flawed _ => cases haccepted
  | taken _ _ => cases haccepted
  | new _ hnew _ => exact ⟨rfl, hnew, hrates⟩

/-! ## Lists that rise strictly -/

/-- Chains in the strictly rising order of their tags are given by which chains they are. -/
theorem eq_of_pairwise_tags {cs ds : List (List Swap)}
    (hcs : cs.Pairwise fun c d => tags c < tags d) (hds : ds.Pairwise fun c d => tags c < tags d)
    (hsame : ∀ c, c ∈ cs ↔ c ∈ ds) : cs = ds := by
  have : Std.Irrefl fun c d : List Swap => tags c < tags d := ⟨fun c => lt_irrefl (tags c)⟩
  have : Std.Antisymm fun c d : List Swap => tags c < tags d :=
    ⟨fun _ _ hcd hdc => absurd hdc (lt_asymm hcd)⟩
  exact hcs.eq_of_mem_iff hds hsame

/-- What gives nothing may as well be left out. -/
theorem flatMap_filter {α β : Type} {f : α → List β} {q : α → Bool} (as : List α)
    (h : ∀ a ∈ as, ¬ q a = true → f a = []) : (as.filter q).flatMap f = as.flatMap f := by
  induction as with
  | nil => rfl
  | cons a as ih =>
    have hrest := ih fun b hb => h b (List.mem_cons_of_mem _ hb)
    by_cases ha : q a = true
    · rw [List.filter_cons_of_pos ha, List.flatMap_cons, List.flatMap_cons, hrest]
    · rw [List.filter_cons_of_neg ha, List.flatMap_cons, h a List.mem_cons_self ha, hrest,
        List.nil_append]

namespace Grown

/-! ## What was there before -/

/-- The swaps that were on offer are those of the pools at other addresses. -/
theorem mem_swaps_iff (h : Grown s t p) (hs : s.WellFormed) (ht : t.WellFormed) {w : Swap} :
    w ∈ s.swaps ↔ w ∈ t.swaps ∧ w.pool.address ≠ p.address := by
  rw [hs.mem_swaps_iff, ht.mem_swaps_iff, h.pools, List.mem_append, List.mem_singleton]
  constructor
  · intro hw
    refine ⟨.inl hw, fun haddress => h.fresh ?_⟩
    rw [← haddress]
    exact List.mem_map_of_mem hw
  · intro hw
    obtain ⟨hold | hnew, haddress⟩ := hw
    · exact hold
    · rw [hnew] at haddress
      exact absurd rfl haddress

theorem isCycle_iff (h : Grown s t p) (hs : s.WellFormed) (ht : t.WellFormed) {cycle : List Swap} :
    s.IsCycle start cycle ↔ t.IsCycle start cycle ∧ ∀ w ∈ cycle, w.pool.address ≠ p.address := by
  constructor
  · intro hc
    have hold := fun w hw => (h.mem_swaps_iff hs ht).1 (hc.offered w hw)
    exact ⟨{ hc with offered := fun w hw => (hold w hw).1 }, fun w hw => (hold w hw).2⟩
  · intro hc
    exact { hc.1 with
      offered := fun w hw => (h.mem_swaps_iff hs ht).2 ⟨hc.1.offered w hw, hc.2 w hw⟩ }

/-- **The cycles that keep away from the new pool are those there were**, in the same order. -/
theorem cycles (h : Grown s t p) (hs : s.WellFormed) (ht : t.WellFormed) :
    ((t.cycles start least most).filter fun cycle => p.address ∉ cycle.map (·.pool.address)) =
      s.cycles start least most := by
  refine eq_of_pairwise_tags ((pairwise_cycles ht ..).filter _) (pairwise_cycles hs ..)
    fun cycle => ?_
  have hkeeps : decide (p.address ∉ cycle.map (·.pool.address)) = true ↔
      ∀ w ∈ cycle, w.pool.address ≠ p.address := by
    rw [decide_eq_true_iff, List.mem_map]
    push Not
    rfl
  rw [List.mem_filter, hkeeps, mem_cycles ht, mem_cycles hs, h.isCycle_iff hs ht]
  tauto

/-- The routes that keep away from the new pool are those there were, in the same order. -/
theorem routesThrough (h : Grown s t p) (hs : s.WellFormed) (ht : t.WellFormed) :
    ((t.routesThrough start least most 0).filter fun r => p.address ∉ r.addresses) =
      s.routesThrough start least most 0 := by
  rw [routesThrough_zero, routesThrough_zero, ← h.cycles hs ht, List.filter_map, h.rates.route]
  simp only [Function.comp_def, addresses_route]

theorem routesFrom (h : Grown s t p) (hs : s.WellFormed) (ht : t.WellFormed) :
    ((Scan.routesFrom t c token).filter fun r => p.address ∉ r.addresses) =
      Scan.routesFrom s c token := by
  unfold Scan.routesFrom
  split
  · exact h.routesThrough hs ht
  · rfl

/-! ## Start tokens -/

/-- The tokens there were are found among those there are, in the same order. -/
theorem tokens (h : Grown s t p) (hs : s.WellFormed) (ht : t.WellFormed) :
    t.tokens.filter s.hasToken = s.tokens := by
  refine (ht.ascending.filter _).eq_of_mem_iff hs.ascending fun token => ?_
  rw [List.mem_filter, hasToken, List.contains_iff_mem, and_iff_right_iff_imp]
  intro hold
  obtain ⟨q, hq, htoken⟩ := (hs.traded token).1 hold
  refine (ht.traded token).2 ⟨q, ?_, htoken⟩
  rw [h.pools]
  exact List.mem_append_left _ hq

/-- **The candidates that keep away from the new pool are those there were**, in the same order. -/
theorem candidates (h : Grown s t p) (hs : s.WellFormed) (ht : t.WellFormed) (c : Constraints) :
    ((Scan.candidates t c).value.1.filter fun r => p.address ∉ r.addresses) =
      (Scan.candidates s c).value.1 := by
  rw [Scan.value_candidates_eq hs, Scan.value_candidates_eq ht, List.filter_flatMap]
  simp only [h.routesFrom hs ht]
  unfold Scan.startTokens
  split
  · rw [← h.tokens hs ht]
    refine (flatMap_filter t.tokens fun token _ hnew => ?_).symm
    rw [Scan.routesFrom, hs.routesThrough_of_not_hasToken hnew, ite_self]
  · rfl

end Grown

end Snapshot

namespace Scan

variable {s t : Snapshot} {p : PoolEntry}

/-! ## Opportunities -/

/-- What a scan finds is found again once the snapshot has grown, and what else is found crosses
the new pool. -/
theorem foundIn_grown (mix : Mixing) (ctx : ScanContext) (h : Snapshot.Grown s t p)
    (hs : s.WellFormed) (ht : t.WellFormed) :
    let found := foundIn mix ctx.constraints
    let before := found ((candidates s ctx.constraints).value.1 ++ ctx.routes)
    let after := found ((candidates t ctx.constraints).value.1 ++ ctx.routes)
    before.Sublist after ∧
      ∃ more, after.Perm (before ++ more) ∧ ∀ o ∈ more, p.address ∈ o.route.addresses := by
  intro found before after
  have hold := h.candidates hs ht ctx.constraints
  have hbefore : before = found (candidates s ctx.constraints).value.1 ++
      found ctx.routes := foundIn_append ..
  have hafter : after = found (candidates t ctx.constraints).value.1 ++
      found ctx.routes := foundIn_append ..
  rw [← hold] at hbefore
  rw [hbefore, hafter]
  generalize (candidates t ctx.constraints).value.1 = all
  constructor
  · exact ((List.filter_sublist).filterMap _).append (List.Sublist.refl _)
  · refine ⟨found (all.filter fun r => !decide (p.address ∉ r.addresses)), ?_, ?_⟩
    · have hsplit := (List.filter_append_perm (fun r => decide (p.address ∉ r.addresses)) all).symm
      have hfound := hsplit.filterMap fun r =>
        (Candidate.judge mix ctx.constraints r).value.opportunity?
      rw [List.filterMap_append] at hfound
      have hall := hfound.append_right (found ctx.routes)
      refine hall.trans ?_
      rw [List.append_assoc, List.append_assoc]
      exact (List.perm_append_comm).append_left _
    · intro o ho
      have hroute := route_of_foundIn ho
      simpa using (List.mem_filter.1 hroute).2

/-- **A new pool hides nothing.** The candidates of a snapshot are those of the snapshot with a
pool added that keep away from the pool, one by one and in the same order. So a scan with the pool
added reports the opportunities there were, in the order they had, and others that cross the
pool. -/
theorem new_pool_hides_nothing (steps : List FeedStep) (r : PoolRecord)
    (haccepted : ((Snapshot.ofFeed steps).addLogged r).value.2.isSome) :
    let s := Snapshot.ofFeed steps
    let t := Snapshot.ofFeed (steps ++ [.pool r])
    (∀ c : Constraints,
      ((candidates t c).value.1.filter fun route => r.address ∉ route.addresses) =
        (candidates s c).value.1) ∧
    ∀ (mix : Mixing) (schedule schedule' : Schedule) (ctx : ScanContext) (past : Bool),
      schedule.Complete → schedule'.Complete → schedule.Finds ctx.deadline past →
      schedule'.Finds ctx.deadline past → ctx.constraints.limit = 0 →
      ctx.constraints.matchLimit = 0 →
      let before := (withSchedule mix schedule (ctx.over s)).value.opportunities
      let after := (withSchedule mix schedule' (ctx.over t)).value.opportunities
      before.Sublist after ∧
        ∃ more, after.Perm (before ++ more) ∧ ∀ o ∈ more, r.address ∈ o.route.addresses := by
  intro s t
  have hs : s.WellFormed := Snapshot.wellFormed_ofFeed steps
  have ht : t.WellFormed := Snapshot.wellFormed_ofFeed _
  have hadd : t = s.add r := Snapshot.ofFeed_append steps [.pool r]
  have hgrown : Snapshot.Grown s t (s.entryFor r) := by
    rw [hadd]
    exact Snapshot.grown_add hs haccepted
  refine ⟨hgrown.candidates hs ht, ?_⟩
  intro mix schedule schedule' ctx past hc hc' hd hd' hlimit hmatch before after
  have hnone : before = [] → after = [] → before.Sublist after ∧
      ∃ more, after.Perm (before ++ more) ∧ ∀ o ∈ more, r.address ∈ o.route.addresses := by
    intro hbefore hafter
    rw [hbefore, hafter]
    exact ⟨List.Sublist.refl _, [], List.Perm.refl _, by simp⟩
  by_cases hsound : ctx.constraints.fault? = none
  · cases past with
    | true => exact hnone (opportunities_of_past hc hd) (opportunities_of_past hc' hd')
    | false =>
      obtain ⟨hsub, more, hperm, hcross⟩ := foundIn_grown mix ctx hgrown hs ht
      have hbefore : before = _ := opportunities_over hc hd hsound hlimit hmatch
      have hafter : after = _ := opportunities_over hc' hd' hsound hlimit hmatch
      rw [hbefore, hafter]
      refine ⟨rank_sublist hsub, more, ?_, hcross⟩
      exact (perm_rank ..).trans (hperm.trans ((perm_rank ..).symm.append_right more))
  · exact hnone (opportunities_over_of_fault mix schedule s hsound)
      (opportunities_over_of_fault mix schedule' t hsound)

/-- A third pool beside the gap opens four routes, and the two that were there stay. The one
opportunity there was is reported again. -/
theorem new_pool_hides_nothing_of_gap :
    let r : PoolRecord :=
      ⟨"z", "A", "B", 1000000000000, 1000000000000, 30, "third", .constantProduct⟩
    let t := Snapshot.ofFeed (gapFeed ++ [.pool r])
    let before := (withSchedule rolling .still gapContext).value.opportunities
    let after := (withSchedule rolling .still (gapContext.over t)).value.opportunities
    ((Snapshot.ofFeed gapFeed).addLogged r).value.2.isSome ∧
    (candidates gap gapContext.constraints).value.1.length = 2 ∧
    (candidates t gapContext.constraints).value.1.length = 6 ∧
    ((candidates t gapContext.constraints).value.1.filter fun route => "z" ∉ route.addresses) =
      (candidates gap gapContext.constraints).value.1 ∧
    before.length = 1 ∧ before.Sublist after := by
  intro r t before after
  have haccepted : ((Snapshot.ofFeed gapFeed).addLogged r).value.2.isSome := by decide +kernel
  obtain ⟨hcandidates, hfound⟩ := new_pool_hides_nothing gapFeed r haccepted
  obtain ⟨hsub, -⟩ := hfound rolling .still .still gapContext false Schedule.complete_still
    Schedule.complete_still (Schedule.finds_none _) (Schedule.finds_none _) rfl rfl
  have hone : before.length = 1 := by
    have hopportunities : before = rank Opportunity.rankKey
        (foundIn rolling gapContext.constraints (judged .still gapContext)) :=
      opportunities_eq_rank starts_gapContext rfl
    rw [hopportunities, length_rank]
    decide +kernel
  exact ⟨haccepted, by decide +kernel, by decide +kernel, hcandidates gapContext.constraints, hone,
    hsub⟩

end Scan

end PoolArbitrage
