import Mathlib
import PoolArbitrage.Proofs.Feed

/-!
# The swaps listed for a token

A pool offers two swaps, one in each direction. Of these at most one sells a given token, since
the tokens of a pool differ, and one does exactly where the pool trades the token; so it is with
buying. A listing by token therefore names each pool that trades it once, in the order of the
pools (`Snapshot.OncePerPool`).

The three listings are read off three files, each in an order of its own. They agree because every
one of them is a selection from the swaps in the order they came
(`Snapshot.WellFormed.swapsFrom_eq` and its two neighbours).

**Theorem (`Snapshot.swap_listings_agree`).** This holds after every feed, and the hop of a swap
that is listed shows the reserves that the hop of the opposite swap shows, from the other side.
-/

namespace PoolArbitrage

variable {p : PoolEntry} {v w : Swap} {t : Token}

/-! ## The swaps of one pool -/

theorem pool_of_mem_swaps (h : w ∈ p.swaps) : w.pool = p := by
  simp only [PoolEntry.swaps, List.mem_cons, List.not_mem_nil, or_false] at h
  rcases h with rfl | rfl <;> rfl

theorem mem_swaps_pool (w : Swap) : w ∈ w.pool.swaps := by
  obtain ⟨p, forward⟩ := w
  cases forward <;> simp [PoolEntry.swaps]

namespace PoolEntry.Complete

/-- A pool offers one swap that sells a token it trades, and none that sells another. -/
theorem map_pool_sells (h : p.Complete) (t : Token) :
    (p.swaps.filter (·.sells == t)).map (·.pool) = if p.hasToken t then [p] else [] := by
  by_cases hA : p.tokenA = t
  · have hB : p.tokenB ≠ t := fun hB => h.distinct (hA.trans hB.symm)
    simp [PoolEntry.swaps, Swap.sells, hasToken, hA, hB]
  · by_cases hB : p.tokenB = t
    · simp [PoolEntry.swaps, Swap.sells, hasToken, hA, hB]
    · simp [PoolEntry.swaps, Swap.sells, hasToken, hA, hB, Ne.symm hA, Ne.symm hB]

/-- A pool offers one swap that buys a token it trades, and none that buys another. -/
theorem map_pool_buys (h : p.Complete) (t : Token) :
    (p.swaps.filter (·.buys == t)).map (·.pool) = if p.hasToken t then [p] else [] := by
  by_cases hB : p.tokenB = t
  · have hA : p.tokenA ≠ t := fun hA => h.distinct (hA.trans hB.symm)
    simp [PoolEntry.swaps, Swap.buys, hasToken, hA, hB]
  · by_cases hA : p.tokenA = t
    · simp [PoolEntry.swaps, Swap.buys, hasToken, hA, hB]
    · simp [PoolEntry.swaps, Swap.buys, hasToken, hA, hB, Ne.symm hA, Ne.symm hB]

end PoolEntry.Complete

/-- A swap buys the other token of its pool. -/
theorem Swap.buys_ne_sells (h : w.pool.Complete) : w.buys ≠ w.sells := by
  obtain ⟨p, forward⟩ := w
  cases forward
  · exact h.distinct
  · exact h.distinct.symm

theorem Swap.hasToken_sells (w : Swap) : w.pool.hasToken w.sells = true := by
  obtain ⟨p, forward⟩ := w
  cases forward <;> simp [Swap.sells, PoolEntry.hasToken]

theorem Swap.hasToken_buys (w : Swap) : w.pool.hasToken w.buys = true := by
  obtain ⟨p, forward⟩ := w
  cases forward <;> simp [Swap.buys, PoolEntry.hasToken]

@[simp] theorem Swap.sells_reversed (w : Swap) : w.reversed.sells = w.buys := by
  obtain ⟨p, forward⟩ := w
  cases forward <;> rfl

@[simp] theorem Swap.buys_reversed (w : Swap) : w.reversed.buys = w.sells := by
  obtain ⟨p, forward⟩ := w
  cases forward <;> rfl

namespace Snapshot

variable {s : Snapshot} {q : Swap → Bool}

/-- Swaps that name each pool trading a token once, in the order of the pools' tags. -/
structure OncePerPool (s : Snapshot) (t : Token) (ws : List Swap) : Prop where
  pools : ws.map (·.pool) = s.pools.filter (·.hasToken t)
  rises : ws.Pairwise fun v w => v.pool.tag < w.pool.tag

namespace WellFormed

/-! ## Selections from the swaps on offer -/

theorem pool_mem (h : s.WellFormed) (hw : w ∈ s.swaps) : w.pool ∈ s.pools := by
  rw [h.offered] at hw
  obtain ⟨p, hp, hw⟩ := List.mem_flatMap.1 hw
  rwa [pool_of_mem_swaps hw]

theorem complete_pool (h : s.WellFormed) (hw : w ∈ s.swaps) : w.pool.Complete :=
  h.complete w.pool (h.pool_mem hw)

theorem mem_swaps_iff (h : s.WellFormed) : w ∈ s.swaps ↔ w.pool ∈ s.pools := by
  refine ⟨h.pool_mem, fun hw => ?_⟩
  rw [h.offered]
  exact List.mem_flatMap.2 ⟨w.pool, hw, mem_swaps_pool w⟩

/-- A selection that takes one swap of each pool trading a token, and none of another pool. -/
theorem oncePerPool (h : s.WellFormed)
    (hone : ∀ p ∈ s.pools, (p.swaps.filter q).map (·.pool) = if p.hasToken t then [p] else []) :
    s.OncePerPool t (s.swaps.filter q) := by
  have hpools : (s.swaps.filter q).map (·.pool) = s.pools.filter (·.hasToken t) := by
    rw [h.offered]
    generalize s.pools = ps at hone
    induction ps with
    | nil => rfl
    | cons p ps ih =>
      rw [List.flatMap_cons, List.filter_append, List.map_append, hone p List.mem_cons_self,
        ih fun p' hp' => hone p' (List.mem_cons_of_mem _ hp'), List.filter_cons]
      split <;> rfl
  have hrises : ((s.swaps.filter q).map (·.pool)).Pairwise fun p q => p.tag < q.tag := by
    rw [hpools]
    exact h.pairwise_tag_lt.filter _
  rw [List.pairwise_map] at hrises
  exact ⟨hpools, hrises⟩

theorem oncePerPool_sells (h : s.WellFormed) (t : Token) :
    s.OncePerPool t (s.swaps.filter (·.sells == t)) :=
  h.oncePerPool fun p hp => (h.complete p hp).map_pool_sells t

theorem oncePerPool_buys (h : s.WellFormed) (t : Token) :
    s.OncePerPool t (s.swaps.filter (·.buys == t)) :=
  h.oncePerPool fun p hp => (h.complete p hp).map_pool_buys t

/-! ## What the files give -/

theorem swapsFrom_eq (h : s.WellFormed) (t : Token) :
    s.swapsFrom t = s.swaps.filter (·.sells == t) := by
  have hkey : s.swaps.filter (Swap.sourceKey · == [t]) = s.swaps.filter (·.sells == t) :=
    List.filter_congr fun w _ => by simp [Swap.sourceKey]
  rw [← hkey]
  refine h.swapsFiled.source.range_eq ?_
  rw [hkey]
  exact (h.oncePerPool_sells t).rises

theorem swapsTo_eq (h : s.WellFormed) (t : Token) :
    s.swapsTo t = s.swaps.filter (·.buys == t) := by
  have hkey : s.swaps.filter (Swap.targetKey · == [t]) = s.swaps.filter (·.buys == t) :=
    List.filter_congr fun w _ => by simp [Swap.targetKey]
  rw [← hkey]
  refine h.swapsFiled.target.range_eq ?_
  rw [hkey]
  exact (h.oncePerPool_buys t).rises

theorem swapsBetween_eq (h : s.WellFormed) (source target : Token) :
    s.swapsBetween source target =
      s.swaps.filter fun w => w.sells == source && w.buys == target := by
  have hkey : s.swaps.filter (Swap.pairKey · == [source, target]) =
      s.swaps.filter fun w => w.sells == source && w.buys == target :=
    List.filter_congr fun w _ => by simp [Swap.pairKey]
  have hpart : (s.swaps.filter fun w => w.sells == source && w.buys == target) =
      (s.swaps.filter (·.sells == source)).filter (·.buys == target) := by
    rw [List.filter_filter]
    exact List.filter_congr fun w _ => Bool.and_comm ..
  rw [← hkey]
  refine h.swapsFiled.pair.range_eq ?_
  rw [hkey, hpart]
  exact (h.oncePerPool_sells source).rises.filter _

theorem mem_swapsFrom (h : s.WellFormed) : w ∈ s.swapsFrom t ↔ w ∈ s.swaps ∧ w.sells = t := by
  simp [h.swapsFrom_eq]

theorem mem_swapsTo (h : s.WellFormed) : w ∈ s.swapsTo t ↔ w ∈ s.swaps ∧ w.buys = t := by
  simp [h.swapsTo_eq]

/-- The swaps that sell a token come in the order of their tags, one for each pool. -/
theorem pairwise_swapsFrom (h : s.WellFormed) (t : Token) :
    (s.swapsFrom t).Pairwise fun v w => v.pool.tag < w.pool.tag := by
  rw [h.swapsFrom_eq]
  exact (h.oncePerPool_sells t).rises

theorem reversed_mem_swaps (h : s.WellFormed) (hw : w ∈ s.swaps) : w.reversed ∈ s.swaps := by
  have hpool := h.pool_mem hw
  exact h.mem_swaps_iff.2 hpool

/-- Whatever is listed for some token, or between two, is on offer. -/
theorem mem_swaps_of_listed (h : s.WellFormed)
    (hw : (∃ t, w ∈ s.swapsFrom t) ∨ (∃ t, w ∈ s.swapsTo t) ∨
      ∃ source target, w ∈ s.swapsBetween source target) :
    w ∈ s.swaps := by
  rcases hw with ⟨t, hw⟩ | ⟨t, hw⟩ | ⟨source, target, hw⟩
  · exact (h.mem_swapsFrom.1 hw).1
  · exact (h.mem_swapsTo.1 hw).1
  · rw [h.swapsBetween_eq] at hw
    exact List.mem_of_mem_filter hw

/-- The swaps between two tokens are listed among those from the one, and among those to the
other. -/
theorem swapsBetween_eq_filter (h : s.WellFormed) (source target : Token) :
    s.swapsBetween source target = (s.swapsFrom source).filter (·.buys == target) ∧
      s.swapsBetween source target = (s.swapsTo target).filter (·.sells == source) := by
  rw [h.swapsBetween_eq, h.swapsFrom_eq, h.swapsTo_eq, List.filter_filter, List.filter_filter]
  exact ⟨List.filter_congr fun w _ => Bool.and_comm .., rfl⟩

end WellFormed

/-- The swap of a pool in the direction of a swap of it is that swap. -/
theorem swapFrom_sells (h : s.WellFormed) (hw : w ∈ s.swaps) :
    w.pool.swapFrom w.sells = .ok w := by
  have hdistinct := (h.complete_pool hw).distinct
  obtain ⟨p, forward⟩ := w
  cases forward
  · simp only [PoolEntry.swapFrom, Swap.sells, Bool.false_eq_true, if_false, if_neg hdistinct.symm,
      if_true]
  · simp only [PoolEntry.swapFrom, Swap.sells, if_true]

/-! ## The listings -/

/-- A pool of the pair that `twoPairs` reports twice, here from the side of its second token. -/
def turned : PoolRecord :=
  { address := "y", tokenA := "B", tokenB := "A", reserveA := 8, reserveB := 9 }

/-- Two pools of one pair, reported in either orientation, and one of another pair. -/
def twoPairs : List FeedStep :=
  [.pool { address := "x", tokenA := "A", tokenB := "B", reserveA := 5, reserveB := 7, fee := 30 },
    .pool { address := "z", tokenA := "A", tokenB := "C" }, .pool turned]

/-- **The listings agree.** The swaps that sell a token, and those that buy one, name each pool
that trades it once, in the order of the tags; those between two tokens are what the one listing
and the other have in common; and the two swaps of a pool see its reserves from either side. -/
theorem swap_listings_agree (steps : List FeedStep) :
    let s := ofFeed steps
    (∀ t, s.OncePerPool t (s.swapsFrom t) ∧
      ∀ w ∈ s.swapsFrom t, w.sells = t ∧ w.buys ≠ t ∧ w.pool.hasToken w.buys = true) ∧
    (∀ t, s.OncePerPool t (s.swapsTo t) ∧
      ∀ w ∈ s.swapsTo t, w.buys = t ∧ w.sells ≠ t ∧ w.pool.hasToken w.sells = true) ∧
    (∀ source target,
      s.swapsBetween source target = (s.swapsFrom source).filter (·.buys == target) ∧
      s.swapsBetween source target = (s.swapsTo target).filter (·.sells == source)) ∧
    ∀ w, ((∃ t, w ∈ s.swapsFrom t) ∨ (∃ t, w ∈ s.swapsTo t) ∨
        ∃ source target, w ∈ s.swapsBetween source target) →
      w.pool.swapFrom w.sells = .ok w ∧
        (w.hop s.fees).sells = w.sells ∧ (w.hop s.fees).buys = w.buys ∧
        (w.hop s.fees).address = w.pool.address ∧ (w.hop s.fees).exchange = w.pool.exchange ∧
        w.reversed ∈ s.swapsBetween w.buys w.sells ∧
        (w.hop s.fees).pool = (w.reversed.hop s.fees).pool.reversed := by
  intro s
  have h : s.WellFormed := wellFormed_ofFeed steps
  refine ⟨fun t => ⟨?_, fun w hw => ?_⟩, fun t => ⟨?_, fun w hw => ?_⟩, h.swapsBetween_eq_filter,
    fun w hw => ?_⟩
  · rw [h.swapsFrom_eq]
    exact h.oncePerPool_sells t
  · obtain ⟨hoffered, rfl⟩ := h.mem_swapsFrom.1 hw
    exact ⟨rfl, Swap.buys_ne_sells (h.complete_pool hoffered), w.hasToken_buys⟩
  · rw [h.swapsTo_eq]
    exact h.oncePerPool_buys t
  · obtain ⟨hoffered, rfl⟩ := h.mem_swapsTo.1 hw
    exact ⟨rfl, (Swap.buys_ne_sells (h.complete_pool hoffered)).symm, w.hasToken_sells⟩
  · have hoffered := h.mem_swaps_of_listed hw
    refine ⟨swapFrom_sells h hoffered, rfl, rfl, rfl, rfl, ?_, ?_⟩
    · rw [h.swapsBetween_eq]
      simpa using h.reversed_mem_swaps hoffered
    · rw [Swap.hop_reversed, Pool.reversed_reversed]

/-- The pool reported the other way round is listed last for either of its tokens, and its swap is
the opposite of the one between the tokens the other way. -/
theorem listings_agree_over_twoPairs :
    let s := ofFeed twoPairs
    let w : Swap := ⟨.ofRecord 3 turned, false⟩
    w ∈ s.swapsFrom "A" ∧ w.buys ≠ "A" ∧ w ∈ s.swapsTo "B" ∧ w.sells ≠ "B" ∧
      (w.hop s.fees).sells = "A" ∧ w.reversed ∈ s.swapsBetween "B" "A" ∧
      (w.hop s.fees).pool = (w.reversed.hop s.fees).pool.reversed := by
  intro s w
  obtain ⟨hfrom, hto, -, hhop⟩ := swap_listings_agree twoPairs
  have hA : w ∈ s.swapsFrom "A" := by decide +kernel
  have hB : w ∈ s.swapsTo "B" := by decide +kernel
  obtain ⟨-, hsells, -, -, -, hopposite, hreserves⟩ := hhop w (.inl ⟨"A", hA⟩)
  exact ⟨hA, ((hfrom "A").2 w hA).2.1, hB, ((hto "B").2 w hB).2.1, hsells, hopposite, hreserves⟩

end Snapshot

end PoolArbitrage
