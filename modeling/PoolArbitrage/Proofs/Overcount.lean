import Mathlib
import PoolArbitrage.Proofs.Contents
import PoolArbitrage.Proofs.Discovery

/-!
# More cycles than a word counts

Let some pools trade a token for a second one, and all others the second for a third. A cycle of
four hops through the first token goes out by a pool of either pair and comes back by another of
either (`Snapshot.isCycle_row_iff`). So there are `n * (n - 1) * (m * (m - 1))` of them, where `n`
and `m` are the numbers of the pools (`Snapshot.length_cycles_row`).

With a few hundred pools of each pair this is more than a word counts, and a search that wants all
routes returns what is left over. **Theorem (`Snapshot.row_is_undercounted`).** A search over 514
pools hands over 4328587264 routes and returns 33619968.
-/

namespace PoolArbitrage

namespace Snapshot

variable {s : Snapshot} {a b c : Token} {w : Swap} {p : PoolEntry} {cycle : List Swap}

/-! ## Pools in a row -/

/-- The pools of a pair of tokens, as they name them. -/
def joining (s : Snapshot) (a b : Token) : List PoolEntry :=
  s.pools.filter fun p => p.tokenA = a ∧ p.tokenB = b

theorem mem_joining : p ∈ s.joining a b ↔ p ∈ s.pools ∧ p.tokenA = a ∧ p.tokenB = b := by
  simp [joining]

/-- **Pools in a row**: they trade one token for a second one, or the second for a third. -/
structure Row (s : Snapshot) (a b c : Token) : Prop where
  near_ne : a ≠ b
  far_ne : b ≠ c
  ends_ne : a ≠ c
  pools : ∀ p ∈ s.pools, p ∈ s.joining a b ∨ p ∈ s.joining b c

/-- A swap of a pool of the pair, from its first token or to it. -/
structure Leg (s : Snapshot) (a b : Token) (forward : Bool) (w : Swap) : Prop where
  pool : w.pool ∈ s.joining a b
  forward : w.forward = forward

namespace Leg

theorem sells {forward : Bool} (h : s.Leg a b forward w) :
    w.sells = if forward then a else b := by
  obtain ⟨-, hA, hB⟩ := mem_joining.1 h.pool
  rw [Swap.sells, h.forward, hA, hB]

theorem buys {forward : Bool} (h : s.Leg a b forward w) :
    w.buys = if forward then b else a := by
  obtain ⟨-, hA, hB⟩ := mem_joining.1 h.pool
  rw [Swap.buys, h.forward, hA, hB]

theorem eq {forward : Bool} (h : s.Leg a b forward w) : w = ⟨w.pool, forward⟩ := by
  rw [← h.forward]

end Leg

namespace Row

/-- Each swap goes along the row or back. -/
theorem leg (h : s.Row a b c) (hw : w.pool ∈ s.pools) :
    (∃ forward, s.Leg a b forward w) ∨ ∃ forward, s.Leg b c forward w :=
  (h.pools w.pool hw).imp (fun hnear => ⟨_, hnear, rfl⟩) fun hfar => ⟨_, hfar, rfl⟩

/-- A swap of the first token goes out. -/
theorem leg_of_sells_first (h : s.Row a b c) (hw : w.pool ∈ s.pools) (hsells : w.sells = a) :
    s.Leg a b true w := by
  rcases h.leg hw with ⟨forward, hleg⟩ | ⟨forward, hleg⟩
  · cases forward with
    | true => exact hleg
    | false => exact absurd (hsells.symm.trans hleg.sells) h.near_ne
  · cases forward with
    | true => exact absurd (hsells.symm.trans hleg.sells) h.near_ne
    | false => exact absurd (hsells.symm.trans hleg.sells) h.ends_ne

/-- A swap of the second token goes on, unless it buys the first. -/
theorem leg_of_sells_second (h : s.Row a b c) (hw : w.pool ∈ s.pools) (hsells : w.sells = b)
    (hon : w.buys ≠ a) : s.Leg b c true w := by
  rcases h.leg hw with ⟨forward, hleg⟩ | ⟨forward, hleg⟩
  · cases forward with
    | true => exact absurd (hleg.sells.symm.trans hsells) h.near_ne
    | false => exact absurd hleg.buys hon
  · cases forward with
    | true => exact hleg
    | false => exact absurd (hsells.symm.trans hleg.sells) h.far_ne

/-- A swap that buys the first token is home. -/
theorem leg_of_buys_first (h : s.Row a b c) (hw : w.pool ∈ s.pools) (hbuys : w.buys = a) :
    s.Leg a b false w := by
  rcases h.leg hw with ⟨forward, hleg⟩ | ⟨forward, hleg⟩
  · cases forward with
    | true => exact absurd (hbuys.symm.trans hleg.buys) h.near_ne
    | false => exact hleg
  · cases forward with
    | true => exact absurd (hbuys.symm.trans hleg.buys) h.ends_ne
    | false => exact absurd (hbuys.symm.trans hleg.buys) h.near_ne

/-- A swap of the third token comes back. -/
theorem leg_of_sells_third (h : s.Row a b c) (hw : w.pool ∈ s.pools) (hsells : w.sells = c) :
    s.Leg b c false w := by
  rcases h.leg hw with ⟨forward, hleg⟩ | ⟨forward, hleg⟩
  · cases forward with
    | true => exact absurd (hleg.sells.symm.trans hsells) h.ends_ne
    | false => exact absurd (hleg.sells.symm.trans hsells) h.far_ne
  · cases forward with
    | true => exact absurd (hleg.sells.symm.trans hsells) h.far_ne
    | false => exact hleg

end Row

/-! ## Cycles of four hops -/

/-- Out by two pools and back by two others. -/
def outAndBack (p q r t : PoolEntry) : List Swap := [⟨p, true⟩, ⟨q, true⟩, ⟨r, false⟩, ⟨t, false⟩]

/-- **A cycle of four hops goes out by a pool of either pair and comes back by another of either.**
-/
theorem isCycle_row_iff (hs : s.WellFormed) (h : s.Row a b c) :
    s.IsCycle a cycle ∧ cycle.length = 4 ↔
      ∃ p ∈ s.joining a b, ∃ t ∈ s.joining a b, ∃ q ∈ s.joining b c, ∃ r ∈ s.joining b c,
        p ≠ t ∧ q ≠ r ∧ outAndBack p q r t = cycle := by
  constructor
  · intro hc
    obtain ⟨hcycle, hlength⟩ := hc
    match cycle, hlength with
    | [v, w, x, y], _ =>
      have hpool : ∀ u ∈ [v, w, x, y], u.pool ∈ s.pools := fun u hu =>
        hs.pool_mem (hcycle.offered u hu)
      have hlinks : v.buys = w.sells ∧ w.buys = x.sells ∧ x.buys = y.sells := by
        simpa using hcycle.chained
      obtain ⟨hvw, hwx, -⟩ := hlinks
      have hon : w.buys ≠ a := hcycle.inside w (by simp)
      have hback : y.buys = a := by simpa using hcycle.closes
      have hv : s.Leg a b true v :=
        h.leg_of_sells_first (hpool v (by simp)) (by simpa using hcycle.opens)
      have hw : s.Leg b c true w :=
        h.leg_of_sells_second (hpool w (by simp)) (hvw.symm.trans hv.buys) hon
      have hx : s.Leg b c false x :=
        h.leg_of_sells_third (hpool x (by simp)) (hwx.symm.trans hw.buys)
      have hy : s.Leg a b false y := h.leg_of_buys_first (hpool y (by simp)) hback
      have hpools : v.pool ≠ y.pool ∧ w.pool ≠ x.pool := by
        have honce : [v.pool, w.pool, x.pool, y.pool].Nodup := hcycle.once
        simp only [List.nodup_cons, List.mem_cons, List.not_mem_nil, or_false, not_or] at honce
        exact ⟨honce.1.2.2, honce.2.1.1⟩
      refine ⟨v.pool, hv.pool, y.pool, hy.pool, w.pool, hw.pool, x.pool, hx.pool, hpools.1,
        hpools.2, ?_⟩
      rw [outAndBack, ← hv.eq, ← hw.eq, ← hx.eq, ← hy.eq]
  · intro hpools
    obtain ⟨p, hp, t, ht, q, hq, r, hr, hpt, hqr, rfl⟩ := hpools
    obtain ⟨hp, hpA, hpB⟩ := mem_joining.1 hp
    obtain ⟨ht, htA, htB⟩ := mem_joining.1 ht
    obtain ⟨hq, hqA, hqB⟩ := mem_joining.1 hq
    obtain ⟨hr, hrA, hrB⟩ := mem_joining.1 hr
    have hnear := h.near_ne
    have hends := h.ends_ne
    -- Pools of different pairs are different, since they name different tokens first.
    have hcross : p ≠ q ∧ p ≠ r ∧ q ≠ t ∧ r ≠ t := by grind
    refine
      ⟨{ offered := ?_, opens := ?_, chained := ?_, closes := ?_, inside := ?_, once := ?_ }, rfl⟩
    · simp [outAndBack, hs.mem_swaps_iff, hp, hq, hr, ht]
    · exact ⟨_, rfl, hpA⟩
    · simp [outAndBack, Swap.buys, Swap.sells, *]
    · exact ⟨_, rfl, htA⟩
    · simp [outAndBack, Swap.buys, hpB, hqB, hrA, hnear.symm, hends.symm]
    · simp [outAndBack]
      tauto

/-- **The cycles of four hops are as many as there are ways out and back.** -/
theorem length_cycles_row (hs : s.WellFormed) (h : s.Row a b c) :
    (s.cycles a 4 4).length =
      (s.joining a b).length * ((s.joining a b).length - 1) *
        ((s.joining b c).length * ((s.joining b c).length - 1)) := by
  have hdistinct : ∀ a b, (s.joining a b).toFinset.offDiag.card =
      (s.joining a b).length * ((s.joining a b).length - 1) := by
    intro a b
    have hnodup : (s.joining a b).Nodup := (hs.nodup_tags.of_map _).filter _
    rw [Finset.offDiag_card, List.toFinset_card_of_nodup hnodup, Nat.mul_sub_one]
  let ways := (s.joining a b).toFinset.offDiag ×ˢ (s.joining b c).toFinset.offDiag
  let cycleOf := fun x : (PoolEntry × PoolEntry) × PoolEntry × PoolEntry =>
    outAndBack x.1.1 x.2.1 x.2.2 x.1.2
  have hinjective : cycleOf.Injective := by
    rintro ⟨⟨p, t⟩, q, r⟩ ⟨⟨p', t'⟩, q', r'⟩ heq
    simp only [cycleOf, outAndBack, List.cons.injEq, Swap.mk.injEq] at heq
    grind
  have hways : (s.cycles a 4 4).toFinset = ways.image cycleOf := by
    ext cycle
    have hfour : cycle ∈ s.cycles a 4 4 ↔ s.IsCycle a cycle ∧ cycle.length = 4 := by
      rw [mem_cycles hs]
      exact and_congr_right' (le_antisymm_iff.symm.trans eq_comm)
    rw [List.mem_toFinset, hfour, isCycle_row_iff hs h]
    simp only [ways, cycleOf, Finset.mem_image, Finset.mem_product, Finset.mem_offDiag,
      List.mem_toFinset, Prod.exists]
    grind
  have hnodup : (s.cycles a 4 4).Nodup := by
    refine (pairwise_cycles hs a 4 4).imp fun {c d} hlt heq => ?_
    rw [heq] at hlt
    exact lt_irrefl _ hlt
  rw [← List.toFinset_card_of_nodup hnodup, hways, Finset.card_image_of_injective _ hinjective,
    Finset.card_product, hdistinct, hdistinct]

/-! ## A search that counts too far -/

/-- The record of a pool of a pair, with a number for its address. -/
def numberedPool (a b : Token) (i : Nat) : PoolRecord :=
  { address := Nat.repr i, tokenA := a, tokenB := b, reserveA := 1000, reserveB := 1000 }

theorem proper_numberedPool {a b : Token} (ha : a ≠ "") (hb : b ≠ "") (hne : a ≠ b) (i : Nat) :
    (numberedPool a b i).Proper :=
  ⟨Nat.repr_ne_empty, ha, hb, hne⟩

/-- So many pools of one pair, and so many of another that goes on from it. -/
def rowRecords (n m : Nat) : List PoolRecord :=
  (List.range n).map (numberedPool "A" "B") ++
    (List.range m).map fun i => numberedPool "B" "C" (n + i)

/-- The feed that reports them. -/
def rowFeed (n m : Nat) : List FeedStep := (rowRecords n m).map .pool

theorem reported_rowFeed (n m : Nat) : reported (rowFeed n m) = rowRecords n m := by
  simp [reported, rowFeed, List.filterMap_map]

theorem nodup_addresses_rowRecords (n m : Nat) : ((rowRecords n m).map (·.address)).Nodup := by
  have haddresses : (rowRecords n m).map (·.address) = (List.range (n + m)).map Nat.repr := by
    rw [rowRecords, List.range_add, List.map_append, List.map_append, List.map_map, List.map_map,
      List.map_map]
    rfl
  rw [haddresses]
  exact List.nodup_range.map fun _ _ => Nat.repr_injective

/-- All of them are kept. -/
theorem kept_rowFeed (n m : Nat) : kept (rowFeed n m) = rowRecords n m := by
  have hdistinct := nodup_addresses_rowRecords n m
  rw [← reported_rowFeed] at hdistinct
  rw [kept_eq_filter hdistinct, reported_rowFeed, List.filter_eq_self]
  intro r hr
  rw [decide_eq_true_iff]
  rcases List.mem_append.1 hr with hnear | hfar
  · obtain ⟨i, -, rfl⟩ := List.mem_map.1 hnear
    exact proper_numberedPool (by decide) (by decide) (by decide) i
  · obtain ⟨i, -, rfl⟩ := List.mem_map.1 hfar
    exact proper_numberedPool (by decide) (by decide) (by decide) (n + i)

/-- The pairs of the pools. -/
def pairs (s : Snapshot) : List (Token × Token) := s.pools.map fun p => (p.tokenA, p.tokenB)

theorem length_joining (s : Snapshot) (a b : Token) :
    (s.joining a b).length = s.pairs.count (a, b) := by
  rw [joining, pairs, ← List.countP_eq_length_filter, List.count, List.countP_map]
  refine List.countP_congr fun p _ => ?_
  simp

theorem pairs_rowFeed (n m : Nat) :
    (ofFeed (rowFeed n m)).pairs =
      List.replicate n ("A", "B") ++ List.replicate m ("B", "C") := by
  rw [pairs, pools_ofFeed, kept_rowFeed,
    map_entries (g := fun r => (r.tokenA, r.tokenB)) fun _ _ => rfl]
  simp [rowRecords, numberedPool, Function.comp_def]

theorem row_rowFeed (n m : Nat) : (ofFeed (rowFeed n m)).Row "A" "B" "C" where
  near_ne := by decide
  far_ne := by decide
  ends_ne := by decide
  pools p hp := by
    have hpair : (p.tokenA, p.tokenB) ∈ (ofFeed (rowFeed n m)).pairs := List.mem_map_of_mem hp
    rw [pairs_rowFeed, List.mem_append, List.mem_replicate, List.mem_replicate, Prod.mk.injEq,
      Prod.mk.injEq] at hpair
    rw [mem_joining, mem_joining]
    exact hpair.imp (fun hnear => ⟨hp, hnear.2⟩) fun hfar => ⟨hp, hfar.2⟩

theorem length_cycles_rowFeed (n m : Nat) :
    ((ofFeed (rowFeed n m)).cycles "A" 4 4).length = n * (n - 1) * (m * (m - 1)) := by
  rw [length_cycles_row (wellFormed_ofFeed _) (row_rowFeed n m), length_joining, length_joining,
    pairs_rowFeed]
  simp [List.count_replicate]

/-- **A search over pools in a row** hands over a route for each way out and back, and returns their
number modulo the word. -/
theorem search_rowFeed (n m : Nat) :
    (ofFeed (rowFeed n m)).search (fun calls _ => calls + 1) 0 "A" 4 4 0 =
      { state := n * (n - 1) * (m * (m - 1)), count := .ofNat (n * (n - 1) * (m * (m - 1))) } := by
  have hcalls : ∀ (routes : List Route) (k : Nat),
      routes.foldl (fun calls _ => calls + 1) k = k + routes.length := by
    intro routes k
    induction routes generalizing k with
    | nil => rfl
    | cons r routes ih =>
      rw [List.foldl_cons, ih, List.length_cons]
      omega
  rw [search_eq]
  simp only [Progress.wantedOf, if_true, hcalls, List.length_map, length_cycles_rowFeed,
    Nat.zero_add]

/-- **More routes than the word counts.** With 257 pools of either pair more than four billion
routes are handed over, and the search returns less than a hundredth of their number. -/
theorem row_is_undercounted :
    (ofFeed (rowFeed 257 257)).search (fun calls _ => calls + 1) 0 "A" 4 4 0 =
      { state := 4328587264, count := 33619968 } :=
  search_rowFeed 257 257

end Snapshot

end PoolArbitrage
