import Mathlib
import PoolArbitrage.Proofs.Filing

/-!
# What a feed makes of a snapshot

A feed reports pools and sets the rates of exchanges, in any order. A snapshot that a feed has
filled from nothing is well formed: its pools are numbered from one on, name themselves and two
different tokens, no two have one address, and all that is kept beside the pools holds what the
pools say.

A record is received in one of three ways (`Receipt`), and in a well formed snapshot each comes
with what speaks for it (`WellFormed.receipt`). The invariant holds of the empty snapshot and
either step keeps it: what a record must have to be taken in is what the invariant asks of the
pool it becomes. **Theorem (`Snapshot.wellFormed_ofFeed`).** It holds after every feed.
-/

namespace PoolArbitrage

/-- One report of a feed. -/
inductive FeedStep where
  | pool (r : PoolRecord)
  | fee (exchange : String) (fee : Int32)
  deriving DecidableEq, Inhabited

/-- A record names its pool and two tokens that differ. -/
structure PoolRecord.Proper (r : PoolRecord) : Prop where
  address : r.address ≠ ""
  tokenA : r.tokenA ≠ ""
  tokenB : r.tokenB ≠ ""
  distinct : r.tokenA ≠ r.tokenB

/-- A pool names itself and two tokens that differ. -/
structure PoolEntry.Complete (p : PoolEntry) : Prop where
  address : p.address ≠ ""
  tokenA : p.tokenA ≠ ""
  tokenB : p.tokenB ≠ ""
  distinct : p.tokenA ≠ p.tokenB

namespace PoolRecord

variable {r : PoolRecord}

theorem flaw?_eq_none_iff : r.flaw? = none ↔ r.Proper := by
  unfold flaw?
  constructor
  · intro h
    split_ifs at h with hnamed htokens
    push Not at hnamed
    exact ⟨hnamed.1, hnamed.2.1, hnamed.2.2, htokens⟩
  · intro h
    have hnamed : ¬ (r.address = "" ∨ r.tokenA = "" ∨ r.tokenB = "") := by
      push Not
      exact ⟨h.address, h.tokenA, h.tokenB⟩
    rw [if_neg hnamed, if_neg h.distinct]

theorem not_proper_of_flaw {why : Rejection} (h : r.flaw? = some why) : ¬ r.Proper := by
  rw [← flaw?_eq_none_iff, h]
  exact Option.some_ne_none why

instance (r : PoolRecord) : Decidable r.Proper :=
  decidable_of_iff (r.flaw? = none) flaw?_eq_none_iff

theorem Proper.complete (h : r.Proper) (tag : Nat) : (PoolEntry.ofRecord tag r).Complete :=
  ⟨h.address, h.tokenA, h.tokenB, h.distinct⟩

end PoolRecord

namespace Snapshot

variable {s : Snapshot} {r : PoolRecord}

/-- A snapshot after one more report. -/
def feed (s : Snapshot) : FeedStep → Snapshot
  | .pool r => s.add r
  | .fee exchange fee => s.setFee exchange fee

/-- The snapshot a feed makes from nothing. -/
def ofFeed (steps : List FeedStep) : Snapshot := steps.foldl feed {}

/-- **What holds of a snapshot that a feed has filled.** -/
structure WellFormed (s : Snapshot) : Prop where
  complete : ∀ p ∈ s.pools, p.Complete
  numbered : s.pools.map (·.tag) = List.range' 1 s.pools.length
  addresses : (s.pools.map (·.address)).Nodup
  offered : s.swaps = s.pools.flatMap (·.swaps)
  ascending : s.tokens.Pairwise (· < ·)
  traded : ∀ t, t ∈ s.tokens ↔ ∃ p ∈ s.pools, p.hasToken t = true
  poolsFiled : s.poolIndex.Holds s.pools
  swapsFiled : s.swapIndex.Holds s.swaps

/-! ## One report -/

/-- **The ways a record is received**, with what comes of each. -/
inductive Receipt (s : Snapshot) (r : PoolRecord) : Snapshot × Except Rejection PoolEntry → Prop
  | flawed {why : Rejection} : r.flaw? = some why → Receipt s r (s, .error why)
  | taken : r.Proper → r.address ∈ s.pools.map (·.address) →
      Receipt s r ({ s with fees := s.fees.mention r.exchange }, .error .duplicate)
  | new {poolIndex : PoolIndex} : r.Proper → r.address ∉ s.pools.map (·.address) →
      poolIndex.Holds (s.pools ++ [s.entryFor r]) →
      Receipt s r ({ s with fees := s.fees.mention r.exchange }.enter (s.entryFor r) poolIndex,
        .ok (s.entryFor r))

theorem wellFormed_empty : WellFormed {} where
  complete := by simp
  numbered := rfl
  addresses := List.nodup_nil
  offered := rfl
  ascending := List.Pairwise.nil
  traded := by simp
  poolsFiled := PoolIndex.holds_empty
  swapsFiled := SwapIndex.holds_empty

namespace WellFormed

/-- The number of the next pool is free. -/
theorem tag_entryFor_notMem (h : s.WellFormed) : (s.entryFor r).tag ∉ s.pools.map (·.tag) := by
  have hnext : (s.entryFor r).tag = s.pools.length + 1 := rfl
  rw [h.numbered, hnext, List.mem_range'_1]
  omega

/-- **A record is received in one of the ways it can be.** -/
theorem receipt (h : s.WellFormed) (r : PoolRecord) : Receipt s r (s.receive r) := by
  cases hflaw : r.flaw? with
  | some why =>
    rw [receive_of_flaw hflaw]
    exact .flawed hflaw
  | none =>
    have hproper := PoolRecord.flaw?_eq_none_iff.1 hflaw
    have hnone := h.poolsFiled.file?_eq_none (p := s.entryFor r)
    cases hfile : s.poolIndex.file? (s.entryFor r) with
    | none =>
      rw [receive_of_taken hflaw hfile]
      exact .taken hproper ((hnone.1 hfile).resolve_right h.tag_entryFor_notMem)
    | some poolIndex =>
      have hnew : r.address ∉ s.pools.map (·.address) := by
        intro hold
        rw [hnone.2 (.inl hold)] at hfile
        cases hfile
      rw [receive_of_new hflaw hfile]
      exact .new hproper hnew (h.poolsFiled.file? hfile)

/-- A snapshot that knows more rates is as well formed. -/
theorem withFees (h : s.WellFormed) (fees : FeeSchedule) : { s with fees }.WellFormed :=
  ⟨h.complete, h.numbered, h.addresses, h.offered, h.ascending, h.traded, h.poolsFiled,
    h.swapsFiled⟩

/-- **A new pool is entered everywhere.** -/
theorem enter (h : s.WellFormed) {poolIndex : PoolIndex} (hproper : r.Proper)
    (hnew : r.address ∉ s.pools.map (·.address))
    (hfiled : poolIndex.Holds (s.pools ++ [s.entryFor r])) :
    (s.enter (s.entryFor r) poolIndex).WellFormed where
  complete := by
    intro p hp
    rcases List.mem_append.1 hp with hold | hlast
    · exact h.complete p hold
    · rw [List.mem_singleton.1 hlast]
      exact hproper.complete _
  numbered := by
    simp only [Snapshot.enter]
    rw [List.map_append, h.numbered, List.length_append, List.length_singleton,
      List.range'_1_concat, Nat.add_comm 1]
    rfl
  addresses := by
    simp only [Snapshot.enter]
    rw [List.map_append]
    refine List.nodup_append.2 ⟨h.addresses, List.nodup_singleton _, fun a ha b hb => ?_⟩
    rw [List.map_singleton, List.mem_singleton] at hb
    rintro rfl
    have hsame : a = r.address := hb
    exact hnew (hsame ▸ ha)
  offered := by
    simp only [Snapshot.enter]
    rw [h.offered, List.flatMap_append, List.flatMap_singleton]
  ascending := pairwise_insertToken (pairwise_insertToken h.ascending _) _
  traded := by
    intro t
    simp only [Snapshot.enter, mem_insertToken, h.traded, List.mem_append, List.mem_singleton,
      or_and_right, exists_or, exists_eq_left, PoolEntry.hasToken_iff]
    exact or_assoc.symm.trans (or_comm.trans (or_congr_right or_comm))
  poolsFiled := hfiled
  swapsFiled := h.swapsFiled.foldl_insert _

theorem add (h : s.WellFormed) (r : PoolRecord) : (s.add r).WellFormed := by
  unfold Snapshot.add
  generalize hreceived : s.receive r = received
  have hreceipt : Receipt s r received := hreceived ▸ h.receipt r
  cases hreceipt with
  | flawed _ => exact h
  | taken _ _ => exact h.withFees _
  | new hproper hnew hfiled => exact (h.withFees _).enter hproper hnew hfiled

theorem setFee (h : s.WellFormed) (exchange : String) (fee : Int32) :
    (s.setFee exchange fee).WellFormed :=
  h.withFees _

theorem feed (h : s.WellFormed) (step : FeedStep) : (s.feed step).WellFormed := by
  cases step with
  | pool r => exact h.add r
  | fee exchange fee => exact h.setFee exchange fee

/-! ## Every feed -/

/-- **A snapshot stays well formed whatever a feed reports.** -/
theorem foldl_feed (h : s.WellFormed) (steps : List FeedStep) :
    (steps.foldl Snapshot.feed s).WellFormed := by
  induction steps generalizing s with
  | nil => exact h
  | cons step steps ih => exact ih (h.feed step)

end WellFormed

theorem wellFormed_ofFeed (steps : List FeedStep) : (ofFeed steps).WellFormed :=
  wellFormed_empty.foldl_feed steps

namespace WellFormed

/-! ## Looking pools up -/

/-- The tags rise along the pools. -/
theorem pairwise_tag_lt (h : s.WellFormed) : s.pools.Pairwise fun p q => p.tag < q.tag := by
  have hrises : (s.pools.map (·.tag)).Pairwise (· < ·) := by
    rw [h.numbered]
    exact List.pairwise_lt_range'
  exact List.pairwise_map.1 hrises

theorem nodup_tags (h : s.WellFormed) : (s.pools.map (·.tag)).Nodup := by
  rw [h.numbered]
  exact List.nodup_range'

/-- Pools with one tag are one pool. -/
theorem eq_of_tag_eq (h : s.WellFormed) {p q : PoolEntry} (hp : p ∈ s.pools) (hq : q ∈ s.pools)
    (htag : p.tag = q.tag) : p = q :=
  List.inj_on_of_nodup_map h.nodup_tags hp hq htag

theorem tag_of_getElem? (h : s.WellFormed) {i : Nat} {p : PoolEntry} (hp : s.pools[i]? = some p) :
    p.tag = i + 1 := by
  obtain ⟨hi, -⟩ := List.getElem?_eq_some_iff.1 hp
  have htag : (s.pools.map (·.tag))[i]? = some p.tag := by rw [List.getElem?_map, hp]; rfl
  rw [h.numbered, List.getElem?_range' hi, Option.some.injEq] at htag
  omega

theorem lookup?_eq_some_iff (h : s.WellFormed) {address : String} {p : PoolEntry} :
    s.lookup? address = some p ↔ p ∈ s.pools ∧ p.address = address := by
  rw [lookup?, h.poolsFiled.address]
  exact PoolIndex.find?_key_eq_some_iff h.addresses

theorem pool?_eq_some_iff (h : s.WellFormed) {tag : Nat} {p : PoolEntry} :
    s.pool? tag = some p ↔ p ∈ s.pools ∧ p.tag = tag := by
  rw [pool?, h.poolsFiled.tag]
  exact PoolIndex.find?_key_eq_some_iff h.nodup_tags

theorem hasPool_iff (h : s.WellFormed) {address : String} :
    s.hasPool address = true ↔ address ∈ s.pools.map (·.address) := by
  simp [hasPool, lookup?, h.poolsFiled.address]

/-- The tag of a pool is its place, counted from one. -/
theorem pool?_succ (h : s.WellFormed) (i : Nat) : s.pool? (i + 1) = s.pools[i]? := by
  refine Option.ext fun p => ?_
  rw [h.pool?_eq_some_iff]
  constructor
  · intro hp
    obtain ⟨hmem, htag⟩ := hp
    obtain ⟨j, hj⟩ := List.mem_iff_getElem?.1 hmem
    have hplace := h.tag_of_getElem? hj
    obtain rfl : j = i := by omega
    exact hj
  · intro hp
    exact ⟨List.mem_of_getElem? hp, h.tag_of_getElem? hp⟩

theorem pool?_zero (h : s.WellFormed) : s.pool? 0 = none := by
  refine Option.eq_none_iff_forall_ne_some.2 fun p hp => ?_
  obtain ⟨hmem, htag⟩ := h.pool?_eq_some_iff.1 hp
  obtain ⟨i, hi⟩ := List.mem_iff_getElem?.1 hmem
  have hplace := h.tag_of_getElem? hi
  omega

end WellFormed

end Snapshot

end PoolArbitrage
