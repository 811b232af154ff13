import Mathlib
import PoolArbitrage.Proofs.Candidates
import PoolArbitrage.Proofs.Rejections

/-!
# Pools from either side

Which of its tokens a record names first is arbitrary. It decides which swap of a pool is the
forward one and which of the two is made first; nothing that is listed or found depends on it.

**One pool.** A swap shows what it sells and buys, the tag of its pool and the hop it makes. Seen
from the other side a pool offers the same two swaps, in the other order
(`PoolEntry.swaps_flipped`). A listing takes at most one swap of each pool, and of one swap the
order is no matter (`Snapshot.forall₂_filter_swaps`).

**Walks.** Listings that show the same lead the walk the same way, so it finds the same routes in
the same order (`Snapshot.forall₂_walk`).

**Theorem (`Scan.record_orientation_is_irrelevant`).** Feeds that report the same, each pool from
whichever side, show the same listings and routes, and every scan is the same to the letter.
-/

namespace PoolArbitrage

/-- The pool of a record, reported from the side of its second token. -/
def PoolRecord.flipped (r : PoolRecord) : PoolRecord :=
  { r with tokenA := r.tokenB, tokenB := r.tokenA, reserveA := r.reserveB, reserveB := r.reserveA }

/-- Records that differ in their orientation at most. -/
inductive PoolRecord.Turned (r : PoolRecord) : PoolRecord → Prop
  | same : Turned r r
  | flipped : Turned r r.flipped

/-- Reports that differ in the orientation of their record at most. -/
inductive FeedStep.Turned : FeedStep → FeedStep → Prop
  | pool {r r' : PoolRecord} : r.Turned r' → Turned (.pool r) (.pool r')
  | fee (exchange : String) (fee : Int32) : Turned (.fee exchange fee) (.fee exchange fee)

/-- A pool with its tokens and reserves exchanged. -/
def PoolEntry.flipped (p : PoolEntry) : PoolEntry :=
  { p with tokenA := p.tokenB, tokenB := p.tokenA, reserveA := p.reserveB, reserveB := p.reserveA }

/-- Pools that differ in their orientation at most. -/
inductive PoolEntry.Turned (p : PoolEntry) : PoolEntry → Prop
  | same : Turned p p
  | flipped : Turned p p.flipped

/-! ## One pool -/

namespace Swap

/-- The same swap of the pool exchanged. -/
def flipped (w : Swap) : Swap := ⟨w.pool.flipped, !w.forward⟩

/-- **Swaps that show the same**: what they sell and buy, the tag of their pool and their hop. -/
structure ShowsSame (v w : Swap) : Prop where
  sells : v.sells = w.sells
  buys : v.buys = w.buys
  tag : v.pool.tag = w.pool.tag
  hop : ∀ fees, v.hop fees = w.hop fees

theorem showsSame_refl (w : Swap) : w.ShowsSame w := ⟨rfl, rfl, rfl, fun _ => rfl⟩

/-- **A swap shows the same from either side.** -/
theorem showsSame_flipped (w : Swap) : w.ShowsSame w.flipped := by
  obtain ⟨p, forward⟩ := w
  cases forward <;> exact ⟨rfl, rfl, rfl, fun _ => rfl⟩

end Swap

/-- From the other side a pool offers the same swaps in the other order. -/
theorem PoolEntry.swaps_flipped (p : PoolEntry) :
    p.flipped.swaps = (p.swaps.map Swap.flipped).reverse := rfl

namespace Snapshot

variable {s t : Snapshot} {steps steps' : List FeedStep} {rs rs' : List PoolRecord}
variable {start token : Token} {least room : Nat}

/-- Lists related entry by entry show the same where related entries do. -/
theorem map_eq_of_forall₂ {α β γ : Type} {R : α → β → Prop} {f : α → γ} {g : β → γ} {as : List α}
    {bs : List β} (h : List.Forall₂ R as bs) (hfg : ∀ a b, R a b → f a = g b) :
    as.map f = bs.map g := by
  induction h with
  | nil => rfl
  | cons hab _ ih => rw [List.map_cons, List.map_cons, hfg _ _ hab, ih]

/-- Of one pool a listing takes at most one swap, and shows the same of it from either side. -/
theorem forall₂_filter_swaps {q : Swap → Bool} {p p' : PoolEntry} (hp : p.Turned p')
    (hq : ∀ v w, v.ShowsSame w → q v = q w) (hone : (p.swaps.filter q).length ≤ 1) :
    List.Forall₂ Swap.ShowsSame (p.swaps.filter q) (p'.swaps.filter q) := by
  cases hp with
  | same => exact List.forall₂_same.2 fun w _ => w.showsSame_refl
  | flipped =>
    have hflip : q ∘ Swap.flipped = q := funext fun w => (hq _ _ w.showsSame_flipped).symm
    have hshort : ∀ ws : List Swap, ws.length ≤ 1 → ws.reverse = ws := by
      intro ws hws
      match ws, hws with
      | [], _ => rfl
      | [w], _ => rfl
    rw [PoolEntry.swaps_flipped, List.filter_reverse, List.filter_map, hflip,
      hshort _ (by rwa [List.length_map]), List.forall₂_map_right_iff]
    exact List.forall₂_same.2 fun w _ => w.showsSame_flipped

/-- A listing of one swap for each pool takes no more of a pool. -/
theorem length_le_one_of_map_pool {q : Swap → Bool} {p : PoolEntry}
    (h : (p.swaps.filter q).map (·.pool) = if p.hasToken token then [p] else []) :
    (p.swaps.filter q).length ≤ 1 := by
  have hlength := congrArg List.length h
  rw [List.length_map] at hlength
  rw [hlength]
  split <;> simp

/-! ## The pools of two feeds -/

/-- **Snapshots turned**: pool by pool they differ in orientation at most, and not in their
rates. -/
structure Turned (s t : Snapshot) : Prop where
  pools : List.Forall₂ PoolEntry.Turned s.pools t.pools
  rates : SameRates s t

/-- Of records turned one is kept where the other is. -/
theorem forall₂_keep (hrs : List.Forall₂ PoolRecord.Turned rs rs') {step step' : FeedStep}
    (hstep : step.Turned step') :
    List.Forall₂ PoolRecord.Turned (keep rs step) (keep rs' step') := by
  have haddresses : rs.map (·.address) = rs'.map (·.address) :=
    map_eq_of_forall₂ hrs fun _ _ h => by cases h <;> rfl
  cases hstep with
  | fee exchange fee => exact hrs
  | @pool r r' hr =>
    have hproper : r.Proper ↔ r'.Proper := by
      cases hr with
      | same => exact Iff.rfl
      | flipped =>
        rw [← not_iff_not, PoolRecord.not_proper_iff, PoolRecord.not_proper_iff]
        simp only [PoolRecord.flipped, eq_comm]
        tauto
    have haddress : r.address = r'.address := by cases hr <;> rfl
    simp only [keep, hproper, haddresses, haddress]
    split
    · exact List.rel_append hrs (.cons hr .nil)
    · exact hrs

theorem forall₂_foldl_keep (h : List.Forall₂ FeedStep.Turned steps steps')
    (hrs : List.Forall₂ PoolRecord.Turned rs rs') :
    List.Forall₂ PoolRecord.Turned (steps.foldl keep rs) (steps'.foldl keep rs') := by
  induction h generalizing rs rs' with
  | nil => exact hrs
  | cons hstep _ ih => exact ih (forall₂_keep hrs hstep)

/-- Records turned become pools turned, with the same tags. -/
theorem forall₂_entries (h : List.Forall₂ PoolRecord.Turned rs rs') :
    List.Forall₂ PoolEntry.Turned (entries rs) (entries rs') := by
  rw [List.forall₂_iff_get] at h ⊢
  obtain ⟨hlength, hturned⟩ := h
  refine ⟨by rw [length_entries, length_entries, hlength], fun i hi hi' => ?_⟩
  rw [length_entries] at hi hi'
  have hentry := hturned i hi hi'
  simp only [List.get_eq_getElem, entries, List.getElem_mapIdx] at hentry ⊢
  generalize rs'[i] = r' at hentry
  cases hentry with
  | same => exact .same
  | flipped => exact .flipped

theorem feesSet_eq_of_turned (h : List.Forall₂ FeedStep.Turned steps steps') (exchange : String) :
    feesSet steps exchange = feesSet steps' exchange := by
  induction h with
  | nil => rfl
  | cons hstep _ ih =>
    cases hstep with
    | pool _ => exact ih
    | fee e fee =>
      simp only [feesSet, List.filterMap_cons] at ih ⊢
      rw [ih]

/-- **Feeds turned leave snapshots turned.** -/
theorem turned_ofFeed (h : List.Forall₂ FeedStep.Turned steps steps') :
    Turned (ofFeed steps) (ofFeed steps') where
  pools := by
    rw [pools_ofFeed, pools_ofFeed]
    exact forall₂_entries (forall₂_foldl_keep h .nil)
  rates := by
    apply sameRates_ofFeed
    intro exchange
    rw [exchangeRate?, exchangeRate?, feesSet_eq_of_turned h]

/-! ## Walks -/

/-- **Listings that show the same lead a walk the same way.** -/
theorem forall₂_walk
    (hfrom : ∀ token, List.Forall₂ Swap.ShowsSame (s.swapsFrom token) (t.swapsFrom token))
    {path path' : List Swap} (hpath : List.Forall₂ Swap.ShowsSame path path') :
    List.Forall₂ (List.Forall₂ Swap.ShowsSame) (s.walk start least room path token)
      (t.walk start least room path' token) := by
  induction room generalizing path path' token with
  | zero => exact .nil
  | succ room ih =>
    rw [walk, walk]
    refine List.rel_flatMap (hfrom token) fun v w hvw => ?_
    have hsnoc : List.Forall₂ Swap.ShowsSame (path ++ [v]) (path' ++ [w]) :=
      List.rel_append hpath (.cons hvw .nil)
    have htags : path.map (·.pool.tag) = path'.map (·.pool.tag) :=
      map_eq_of_forall₂ hpath fun _ _ h => h.tag
    have hany : path.any (·.pool.tag == v.pool.tag) = path'.any (·.pool.tag == w.pool.tag) := by
      have hmap := congrArg (List.any · (· == v.pool.tag)) htags
      simp only [List.any_map] at hmap
      rwa [hvw.tag] at hmap ⊢
    rw [hany, hvw.buys, hpath.length_eq]
    split_ifs
    · exact .nil
    · exact .cons hsnoc .nil
    · exact .nil
    · exact ih hsnoc

/-- Where the routes are the same, so is every search for some of them. -/
theorem search_congr (h : ∀ start least most,
      s.routesThrough start least most 0 = t.routesThrough start least most 0)
    {σ : Type} (take : σ → Route → σ) (state : σ) (start : Token)
    (leastHops mostHops : Nat) (wanted : UInt32) :
    s.search take state start leastHops mostHops wanted =
      t.search take state start leastHops mostHops wanted := by
  have hwanted : ∀ u : Snapshot,
      (Progress.wantedOf wanted (u.cycles start leastHops mostHops)).map u.route =
        Progress.wantedOf wanted (u.routesThrough start leastHops mostHops 0) := by
    intro u
    rw [routesThrough_zero, Progress.wantedOf, Progress.wantedOf]
    split
    · rfl
    · exact List.map_take
  have hroutes := (hwanted s).trans ((congrArg _ (h ..)).trans (hwanted t).symm)
  have hcount := congrArg List.length hroutes
  rw [List.length_map, List.length_map] at hcount
  rw [search_eq, search_eq]
  simp only [hroutes, hcount]

namespace Turned

/-! ## What snapshots turned show -/

/-- A listing that takes at most one swap of each pool. -/
theorem filter_swaps (h : Turned s t) (hs : s.WellFormed) (ht : t.WellFormed) {q : Swap → Bool}
    (hq : ∀ v w, v.ShowsSame w → q v = q w)
    (hone : ∀ p : PoolEntry, p.Complete → (p.swaps.filter q).length ≤ 1) :
    List.Forall₂ Swap.ShowsSame (s.swaps.filter q) (t.swaps.filter q) := by
  rw [hs.offered, ht.offered, List.filter_flatMap, List.filter_flatMap]
  have hpools : List.Forall₂ (fun p p' => p.Complete ∧ p.Turned p') s.pools t.pools :=
    (List.forall₂_and_left ..).2 ⟨hs.complete, h.pools⟩
  exact List.rel_flatMap hpools fun p p' hp => forall₂_filter_swaps hp.2 hq (hone p hp.1)

theorem swapsFrom (h : Turned s t) (hs : s.WellFormed) (ht : t.WellFormed) (token : Token) :
    List.Forall₂ Swap.ShowsSame (s.swapsFrom token) (t.swapsFrom token) := by
  rw [hs.swapsFrom_eq, ht.swapsFrom_eq]
  refine h.filter_swaps hs ht (fun v w hvw => by rw [hvw.sells]) fun p hp => ?_
  exact length_le_one_of_map_pool (hp.map_pool_sells token)

theorem swapsTo (h : Turned s t) (hs : s.WellFormed) (ht : t.WellFormed) (token : Token) :
    List.Forall₂ Swap.ShowsSame (s.swapsTo token) (t.swapsTo token) := by
  rw [hs.swapsTo_eq, ht.swapsTo_eq]
  refine h.filter_swaps hs ht (fun v w hvw => by rw [hvw.buys]) fun p hp => ?_
  exact length_le_one_of_map_pool (hp.map_pool_buys token)

theorem swapsBetween (h : Turned s t) (hs : s.WellFormed) (ht : t.WellFormed)
    (source target : Token) :
    List.Forall₂ Swap.ShowsSame (s.swapsBetween source target) (t.swapsBetween source target) := by
  rw [(hs.swapsBetween_eq_filter ..).1, (ht.swapsBetween_eq_filter ..).1]
  refine List.rel_filter (fun v w hvw => ?_) (h.swapsFrom hs ht source)
  show (v.buys == target) = true ↔ (w.buys == target) = true
  rw [hvw.buys]

theorem tokens (h : Turned s t) (hs : s.WellFormed) (ht : t.WellFormed) : s.tokens = t.tokens := by
  have htraded : s.pools.map PoolEntry.hasToken = t.pools.map PoolEntry.hasToken := by
    refine map_eq_of_forall₂ h.pools fun p p' hp => ?_
    cases hp with
    | same => rfl
    | flipped => exact funext fun token => Bool.or_comm ..
  refine hs.ascending.eq_of_mem_iff ht.ascending fun token => ?_
  rw [hs.traded, ht.traded]
  have hmem : ∀ u : Snapshot, (∃ p ∈ u.pools, p.hasToken token = true) ↔
      ∃ f ∈ u.pools.map PoolEntry.hasToken, f token = true := by
    intro u
    simp
  rw [hmem, hmem, htraded]

theorem isEmpty_pools (h : Turned s t) : s.pools.isEmpty = t.pools.isEmpty := by
  have hlength := h.pools.length_eq
  rw [Bool.eq_iff_iff, List.isEmpty_iff_length_eq_zero, List.isEmpty_iff_length_eq_zero, hlength]

/-- **Snapshots turned have the same routes**, in the same order. -/
theorem routesThrough (h : Turned s t) (hs : s.WellFormed) (ht : t.WellFormed) (start : Token)
    (least most : Nat) :
    s.routesThrough start least most 0 = t.routesThrough start least most 0 := by
  rw [routesThrough_zero, routesThrough_zero]
  refine map_eq_of_forall₂ (forall₂_walk (h.swapsFrom hs ht) .nil) fun c d hcd => ?_
  exact map_eq_of_forall₂ hcd fun v w hvw => by rw [hvw.hop, h.rates.hop]

end Turned

/-- What a snapshot shows of a swap. -/
def shown (s : Snapshot) (w : Swap) : Token × Token × Nat × Hop :=
  (w.sells, w.buys, w.pool.tag, w.hop s.fees)

/-- **Snapshots that show the same**: the same swaps for a token or two, and the same routes, in
the same order. -/
structure ShowSame (s t : Snapshot) : Prop where
  swapsFrom : ∀ token, (s.swapsFrom token).map s.shown = (t.swapsFrom token).map t.shown
  swapsTo : ∀ token, (s.swapsTo token).map s.shown = (t.swapsTo token).map t.shown
  swapsBetween : ∀ source target,
    (s.swapsBetween source target).map s.shown = (t.swapsBetween source target).map t.shown
  search : ∀ {σ : Type} (take : σ → Route → σ) (state : σ) (start : Token)
    (leastHops mostHops : Nat) (wanted : UInt32),
    s.search take state start leastHops mostHops wanted =
      t.search take state start leastHops mostHops wanted

theorem Turned.showSame (h : Turned s t) (hs : s.WellFormed) (ht : t.WellFormed) :
    ShowSame s t := by
  have hshown : ∀ v w : Swap, v.ShowsSame w → s.shown v = t.shown w := by
    intro v w hvw
    rw [shown, shown, hvw.sells, hvw.buys, hvw.tag, hvw.hop, h.rates.hop]
  exact {
    swapsFrom := fun token => map_eq_of_forall₂ (h.swapsFrom hs ht token) hshown
    swapsTo := fun token => map_eq_of_forall₂ (h.swapsTo hs ht token) hshown
    swapsBetween := fun source target =>
      map_eq_of_forall₂ (h.swapsBetween hs ht source target) hshown
    search := search_congr (h.routesThrough hs ht) }

end Snapshot

namespace Scan

variable {s t : Snapshot} {mix : Mixing} {schedule : Schedule} {ctx : ScanContext}

/-! ## Scans -/

/-- What a scan asks of its snapshot: the tokens, whether there are pools, and the routes. -/
theorem withSchedule_congr (htokens : s.tokens = t.tokens)
    (hpools : s.pools.isEmpty = t.pools.isEmpty)
    (hroutes : ∀ start least most,
      s.routesThrough start least most 0 = t.routesThrough start least most 0) :
    withSchedule mix schedule (ctx.over s) = withSchedule mix schedule (ctx.over t) := by
  have hfound : ∀ start least most, s.found start least most 0 = t.found start least most 0 := by
    intro start least most
    rw [Snapshot.found_eq, Snapshot.found_eq, hroutes]
  have hfrom : ∀ c, candidatesFrom s c = candidatesFrom t c := by
    intro c
    funext token
    unfold candidatesFrom Snapshot.discover Snapshot.hasToken
    rw [htokens, hfound]
  have hcandidates : ∀ c, candidates s c = candidates t c := by
    intro c
    rw [candidates, candidates, startTokens, startTokens, htokens, hfrom]
  have hall : allCandidates (ctx.over s) = allCandidates (ctx.over t) := by
    simp only [allCandidates, ScanContext.over, hpools, hcandidates]
  have hrun : run mix schedule (ctx.over s) = run mix schedule (ctx.over t) := by
    unfold run
    rw [hall]
    rfl
  unfold withSchedule
  rw [hrun]
  rfl

/-- **Record orientation is irrelevant.** Feeds that report the same, each pool from whichever
side, lead to snapshots that list the same swaps and find the same routes in the same order, and
every scan of the one is that of the other, its order and its log included. -/
theorem record_orientation_is_irrelevant {steps steps' : List FeedStep}
    (h : List.Forall₂ FeedStep.Turned steps steps') :
    let s := Snapshot.ofFeed steps
    let t := Snapshot.ofFeed steps'
    s.ShowSame t ∧
      ∀ (mix : Mixing) (schedule : Schedule) (ctx : ScanContext),
        withSchedule mix schedule (ctx.over s) = withSchedule mix schedule (ctx.over t) := by
  intro s t
  have hs : s.WellFormed := Snapshot.wellFormed_ofFeed steps
  have ht : t.WellFormed := Snapshot.wellFormed_ofFeed steps'
  have hturned : s.Turned t := Snapshot.turned_ofFeed h
  exact ⟨hturned.showSame hs ht, fun mix schedule ctx =>
    withSchedule_congr (hturned.tokens hs ht) hturned.isEmpty_pools (hturned.routesThrough hs ht)⟩

/-- The first pool of the gap, reported from its other side, is entered differently, and neither the
listings nor the scan tell. -/
theorem orientation_of_gap :
    let r : PoolRecord :=
      ⟨"x", "B", "A", 2000000000000, 1000000000000, 30, "first", .constantProduct⟩
    let t := Snapshot.ofFeed (.pool r :: gapFeed.tail)
    gap.swaps ≠ t.swaps ∧ (gap.swapsFrom "A").map gap.shown = (t.swapsFrom "A").map t.shown ∧
      withSchedule rolling .still gapContext = withSchedule rolling .still (gapContext.over t) := by
  intro r t
  have hturned : List.Forall₂ FeedStep.Turned gapFeed (.pool r :: gapFeed.tail) :=
    .cons (.pool .flipped) (.cons (.pool .same) .nil)
  obtain ⟨hshown, hscan⟩ := record_orientation_is_irrelevant hturned
  exact ⟨by decide +kernel, hshown.swapsFrom "A", hscan rolling .still gapContext⟩

end Scan

end PoolArbitrage
