import Mathlib
import PoolArbitrage.Proofs.Discovery
import PoolArbitrage.Proofs.Rates

/-!
# The routes found through a token

A route carries its hops by value, so it can be told without the snapshot it was found in. A round
trip over some hops is a chain of them that starts and ends on a token, passes it only at the end
and crosses no address twice (`Route.RoundTrip`). It says nothing of tags or of the order in which
pools came.

**Theorem (`Snapshot.mem_routesThrough`).** The routes found through a token are the round trips
over the hops on offer, of the lengths allowed.

**Theorem (`Snapshot.pairwise_routesThrough`).** No two of them cross the same addresses in the
same order. So which routes there are, and how often each comes out, depends on the hops on offer
alone.

Both are read off the cycles. The hop of a swap names the address of its pool, and in a well formed
snapshot an address names one pool; so what is said of pools and tags can be said of addresses.
-/

namespace PoolArbitrage

namespace Route

/-- **A round trip over some hops**: each sells what the one before bought, the last and no other
buys the token they start from, and no address is crossed twice. -/
structure RoundTrip (offered : List Hop) (start : Token) (r : Route) : Prop where
  offered : ∀ h ∈ r, h ∈ offered
  opens : ∃ h ∈ r.head?, h.sells = start
  chained : r.IsChain fun g h => g.buys = h.sells
  closes : ∃ h ∈ r.getLast?, h.buys = start
  inside : ∀ h ∈ r.dropLast, h.buys ≠ start
  once : r.addresses.Nodup

namespace RoundTrip

variable {offered : List Hop} {start : Token} {r : Route}

theorem start? (h : r.RoundTrip offered start) : r.start? = some start := by
  obtain ⟨hop, hhop, rfl⟩ := h.opens
  rw [Route.start?, Option.mem_def.1 hhop]
  rfl

theorem final? (h : r.RoundTrip offered start) : r.final? = some start := by
  obtain ⟨hop, hhop, rfl⟩ := h.closes
  rw [Route.final?, Option.mem_def.1 hhop]
  rfl

end RoundTrip

end Route

namespace Snapshot

variable {s t : Snapshot} {start : Token} {least most : Nat} {c d : List Swap} {r : Route}

/-- The hops on offer: one for each swap, at the rates in force. -/
def hops (s : Snapshot) : List Hop := s.swaps.map (·.hop s.fees)

theorem addresses_route (c : List Swap) : (s.route c).addresses = c.map (·.pool.address) := by
  simp only [route, Route.addresses, List.map_map]
  rfl

/-- All routes through a token are its cycles, hop by hop. -/
theorem routesThrough_zero :
    s.routesThrough start least most 0 = (s.cycles start least most).map s.route :=
  routesThrough_eq ..

/-- A route over hops on offer is some swaps, hop by hop. -/
theorem exists_swaps_of_offered (h : ∀ hop ∈ r, hop ∈ s.hops) :
    ∃ c : List Swap, (∀ w ∈ c, w ∈ s.swaps) ∧ s.route c = r := by
  induction r with
  | nil => exact ⟨[], by simp, rfl⟩
  | cons hop r ih =>
    obtain ⟨w, hw, rfl⟩ := List.mem_map.1 (h hop List.mem_cons_self)
    obtain ⟨c, hc, rfl⟩ := ih fun hop hhop => h hop (List.mem_cons_of_mem _ hhop)
    refine ⟨w :: c, ?_, rfl⟩
    intro v hv
    rcases List.mem_cons.1 hv with rfl | hv
    · exact hw
    · exact hc v hv

namespace WellFormed

/-! ## Pools and their addresses -/

/-- Pools with one address are one pool. -/
theorem eq_of_address_eq (h : s.WellFormed) {p q : PoolEntry} (hp : p ∈ s.pools)
    (hq : q ∈ s.pools) (haddress : p.address = q.address) : p = q :=
  List.inj_on_of_nodup_map h.addresses hp hq haddress

/-- Chains that cross the same addresses cross the same pools. -/
theorem map_pool_eq_of_addresses_eq (h : s.WellFormed) (hc : ∀ w ∈ c, w ∈ s.swaps)
    (hd : ∀ w ∈ d, w ∈ s.swaps) (heq : c.map (·.pool.address) = d.map (·.pool.address)) :
    c.map (·.pool) = d.map (·.pool) := by
  induction c generalizing d with
  | nil =>
    cases d with
    | nil => rfl
    | cons w d => cases heq
  | cons v c ih =>
    cases d with
    | nil => cases heq
    | cons w d =>
      obtain ⟨hhead, htail⟩ := List.cons.inj heq
      have hv := h.pool_mem (hc v List.mem_cons_self)
      have hw := h.pool_mem (hd w List.mem_cons_self)
      have hrest := ih (fun u hu => hc u (List.mem_cons_of_mem _ hu))
        (fun u hu => hd u (List.mem_cons_of_mem _ hu)) htail
      rw [List.map_cons, List.map_cons, h.eq_of_address_eq hv hw hhead, hrest]

/-- A chain crosses no pool twice exactly where it crosses no address twice. -/
theorem nodup_addresses_iff (h : s.WellFormed) (hc : ∀ w ∈ c, w ∈ s.swaps) :
    (s.route c).addresses.Nodup ↔ (c.map (·.pool)).Nodup := by
  have haddresses : (s.route c).addresses = (c.map (·.pool)).map (·.address) := by
    rw [addresses_route, List.map_map]
    rfl
  rw [haddresses]
  refine ⟨List.Nodup.of_map _, fun hpools => hpools.map_on fun p hp q hq haddress => ?_⟩
  obtain ⟨v, hv, rfl⟩ := List.mem_map.1 hp
  obtain ⟨w, hw, rfl⟩ := List.mem_map.1 hq
  exact h.eq_of_address_eq (h.pool_mem (hc v hv)) (h.pool_mem (hc w hw)) haddress

/-! ## Cycles as round trips -/

/-- **A cycle is a round trip, hop by hop.** -/
theorem roundTrip_route_iff (h : s.WellFormed) (hc : ∀ w ∈ c, w ∈ s.swaps) :
    (s.route c).RoundTrip s.hops start ↔ s.IsCycle start c := by
  have hoffered : ∀ hop ∈ s.route c, hop ∈ s.hops := by
    intro hop hhop
    obtain ⟨w, hw, rfl⟩ := List.mem_map.1 hhop
    exact List.mem_map.2 ⟨w, hc w hw, rfl⟩
  have hopens : (∃ hop ∈ (s.route c).head?, hop.sells = start) ↔
      ∃ w ∈ c.head?, w.sells = start := by
    simp [route, Swap.hop]
  have hchained : ((s.route c).IsChain fun g h => g.buys = h.sells) ↔
      c.IsChain fun v w => v.buys = w.sells := List.isChain_map _
  have hcloses : (∃ hop ∈ (s.route c).getLast?, hop.buys = start) ↔
      ∃ w ∈ c.getLast?, w.buys = start := by
    simp [route, Swap.hop]
  have hinside : (∀ hop ∈ (s.route c).dropLast, hop.buys ≠ start) ↔
      ∀ w ∈ c.dropLast, w.buys ≠ start := by
    simp [route, Swap.hop, ← List.map_dropLast]
  constructor
  · intro hr
    exact ⟨hc, hopens.1 hr.opens, hchained.1 hr.chained, hcloses.1 hr.closes,
      hinside.1 hr.inside, (h.nodup_addresses_iff hc).1 hr.once⟩
  · intro hcycle
    exact ⟨hoffered, hopens.2 hcycle.opens, hchained.2 hcycle.chained, hcloses.2 hcycle.closes,
      hinside.2 hcycle.inside, (h.nodup_addresses_iff hc).2 hcycle.once⟩

/-- **The routes found through a token are the round trips over the hops on offer**, of the lengths
allowed. -/
theorem mem_routesThrough (h : s.WellFormed) :
    r ∈ s.routesThrough start least most 0 ↔
      r.RoundTrip s.hops start ∧ max least minHops ≤ r.length ∧ r.length ≤ min most maxHops := by
  rw [routesThrough_zero, List.mem_map]
  constructor
  · intro hfound
    obtain ⟨c, hc, rfl⟩ := hfound
    obtain ⟨hcycle, hleast, hmost⟩ := (mem_cycles h).1 hc
    refine ⟨(h.roundTrip_route_iff hcycle.offered).2 hcycle, ?_⟩
    rw [route, List.length_map]
    exact ⟨hleast, hmost⟩
  · intro htrip
    obtain ⟨hr, hleast, hmost⟩ := htrip
    obtain ⟨c, hc, rfl⟩ : ∃ c : List Swap, (∀ w ∈ c, w ∈ s.swaps) ∧ s.route c = r :=
      exists_swaps_of_offered hr.offered
    have hcycle := (h.roundTrip_route_iff hc).1 hr
    rw [route, List.length_map] at hleast hmost
    exact ⟨c, (mem_cycles h).2 ⟨hcycle, hleast, hmost⟩, rfl⟩

/-- **No two routes found through a token cross the same addresses in the same order.** -/
theorem pairwise_routesThrough (h : s.WellFormed) (start : Token) (least most : Nat) :
    (s.routesThrough start least most 0).Pairwise fun a b => a.addresses ≠ b.addresses := by
  rw [routesThrough_zero, List.pairwise_map]
  refine (pairwise_cycles h start least most).imp_of_mem fun {c d} hc hd htags heq => ?_
  -- The same addresses are the same pools, and these have the same tags.
  rw [addresses_route, addresses_route] at heq
  have hpools := h.map_pool_eq_of_addresses_eq ((mem_cycles h).1 hc).1.offered
    ((mem_cycles h).1 hd).1.offered heq
  have hsame : tags c = tags d := by
    have hmap := congrArg (List.map (·.tag)) hpools
    rwa [List.map_map, List.map_map] at hmap
  rw [hsame] at htags
  exact absurd htags (lt_irrefl _)

theorem nodup_routesThrough (h : s.WellFormed) (start : Token) (least most : Nat) :
    (s.routesThrough start least most 0).Nodup :=
  (h.pairwise_routesThrough start least most).imp fun hne heq => hne (congrArg _ heq)

/-- Nothing is found through a token that no pool trades. -/
theorem routesThrough_of_not_hasToken (h : s.WellFormed) (hstart : ¬ s.hasToken start = true) :
    s.routesThrough start least most 0 = [] := by
  refine List.eq_nil_iff_forall_not_mem.2 fun r hr => hstart ?_
  rw [routesThrough_zero] at hr
  obtain ⟨c, hc, rfl⟩ := List.mem_map.1 hr
  have hcycle := ((mem_cycles h).1 hc).1
  obtain ⟨w, hw, rfl⟩ := hcycle.opens
  have hpool := h.pool_mem (hcycle.offered w (List.mem_of_mem_head? hw))
  exact List.contains_iff_mem.2 ((h.traded _).2 ⟨w.pool, hpool, w.hasToken_sells⟩)

end WellFormed

end Snapshot

end PoolArbitrage
