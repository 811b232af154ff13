import Mathlib
import PoolArbitrage.Proofs.Feed

/-!
# What a snapshot holds of its feed

Of the records a feed reports, a snapshot keeps those that name their pool and two different
tokens, each address once, the first record of it. This is said of the records alone
(`Snapshot.kept`). Where no address is reported twice, nothing else is dropped
(`Snapshot.kept_eq_filter`).

**Theorem (`Snapshot.snapshot_represents_its_feed`).** After every feed the pools are the records
kept, numbered from one in the order they came; every lookup and every count answers from them
(`Snapshot.Represents`); and no later report changes a pool.

The pools follow the records step by step (`pools_feed`), since in a well formed snapshot a record
is taken in exactly where it is kept. Everything else is kept beside the pools, where the invariant
ties it to them.
-/

namespace PoolArbitrage

namespace Snapshot

variable {s : Snapshot} {r : PoolRecord} {rs : List PoolRecord} {steps : List FeedStep}

/-! ## The records kept -/

/-- The records kept after one more report: a proper one is kept, unless its address is taken. -/
def keep (rs : List PoolRecord) : FeedStep → List PoolRecord
  | .pool r => if r.Proper ∧ r.address ∉ rs.map (·.address) then rs ++ [r] else rs
  | .fee _ _ => rs

/-- The records a feed leaves behind. -/
def kept (steps : List FeedStep) : List PoolRecord := steps.foldl keep []

/-- The tokens of some records. -/
def tokensOf (rs : List PoolRecord) : List Token := rs.flatMap fun r => [r.tokenA, r.tokenB]

/-- The pools of some records, numbered from one. -/
def entries (rs : List PoolRecord) : List PoolEntry := rs.mapIdx fun i r => .ofRecord (i + 1) r

theorem length_entries (rs : List PoolRecord) : (entries rs).length = rs.length :=
  List.length_mapIdx

theorem entries_append_singleton (rs : List PoolRecord) (r : PoolRecord) :
    entries (rs ++ [r]) = entries rs ++ [.ofRecord (rs.length + 1) r] :=
  List.mapIdx_concat

/-- What does not depend on the tag can be read off the records. -/
theorem map_entries {α : Type} {f : PoolEntry → α} {g : PoolRecord → α}
    (h : ∀ tag r, f (.ofRecord tag r) = g r) (rs : List PoolRecord) :
    (entries rs).map f = rs.map g := by
  refine List.ext_getElem? fun i => ?_
  rw [List.getElem?_map, entries, List.getElem?_mapIdx, Option.map_map, List.getElem?_map]
  exact congrArg (rs[i]?.map ·) (funext fun r => h (i + 1) r)

/-! ## Feeds that report each address once -/

/-- The records a feed reports. -/
def reported (steps : List FeedStep) : List PoolRecord :=
  steps.filterMap fun
    | .pool r => some r
    | .fee _ _ => none

/-- Where no address is reported twice, all proper records are kept. -/
theorem foldl_keep (rs : List PoolRecord) (h : ((rs ++ reported steps).map (·.address)).Nodup) :
    steps.foldl keep rs = rs ++ (reported steps).filter fun r => r.Proper := by
  induction steps generalizing rs with
  | nil => simp [reported]
  | cons step steps ih =>
    cases step with
    | fee exchange fee => exact ih rs h
    | pool r =>
      have hreported : reported (.pool r :: steps) = r :: reported steps := rfl
      rw [hreported] at h ⊢
      have hnew : r.address ∉ rs.map (·.address) := by
        intro hold
        rw [List.map_append] at h
        exact (List.nodup_append.1 h).2.2 _ hold _ (by simp) rfl
      rw [List.foldl_cons, List.filter_cons]
      by_cases hproper : r.Proper
      · have hkeep : keep rs (.pool r) = rs ++ [r] := if_pos ⟨hproper, hnew⟩
        rw [hkeep, ih _ (by simpa using h), if_pos (by simpa using hproper)]
        simp
      · have hkeep : keep rs (.pool r) = rs := if_neg fun hkeep => hproper hkeep.1
        rw [hkeep, if_neg (by simpa using hproper), ih rs]
        exact h.sublist (((List.sublist_cons_self r _).append_left rs).map _)

theorem kept_eq_filter (h : ((reported steps).map (·.address)).Nodup) :
    kept steps = (reported steps).filter fun r => r.Proper :=
  foldl_keep [] h

/-! ## From the records to the pools -/

/-- **The pools follow the records**, report by report. -/
theorem pools_feed (h : s.WellFormed) (hs : s.pools = entries rs) (step : FeedStep) :
    (s.feed step).pools = entries (keep rs step) := by
  cases step with
  | fee exchange fee => exact hs
  | pool r =>
    have haddresses : s.pools.map (·.address) = rs.map (·.address) := by
      rw [hs]
      exact map_entries (fun _ _ => rfl) rs
    simp only [feed, add, keep]
    generalize hreceived : s.receive r = received
    have hreceipt : Receipt s r received := hreceived ▸ h.receipt r
    cases hreceipt with
    | flawed hflaw =>
      rw [if_neg fun hkeep => PoolRecord.not_proper_of_flaw hflaw hkeep.1]
      exact hs
    | taken _ hold =>
      rw [haddresses] at hold
      rw [if_neg fun hkeep => hkeep.2 hold]
      exact hs
    | new hproper hnew _ =>
      rw [haddresses] at hnew
      rw [if_pos ⟨hproper, hnew⟩, entries_append_singleton, ← hs, ← length_entries, ← hs]
      rfl

theorem pools_foldl_feed (h : s.WellFormed) (hs : s.pools = entries rs) (steps : List FeedStep) :
    (steps.foldl feed s).pools = entries (steps.foldl keep rs) := by
  induction steps generalizing s rs with
  | nil => exact hs
  | cons step steps ih => exact ih (h.feed step) (pools_feed h hs step)

/-- The pools after a feed are the records it leaves behind. -/
theorem pools_ofFeed (steps : List FeedStep) : (ofFeed steps).pools = entries (kept steps) :=
  pools_foldl_feed wellFormed_empty rfl steps

/-! ## Later reports -/

/-- **A report changes no pool** that is there already. -/
theorem prefix_pools_feed (h : s.WellFormed) (step : FeedStep) :
    s.pools <+: (s.feed step).pools := by
  cases step with
  | fee exchange fee => exact List.prefix_refl _
  | pool r =>
    simp only [feed, add]
    generalize hreceived : s.receive r = received
    have hreceipt : Receipt s r received := hreceived ▸ h.receipt r
    cases hreceipt with
    | flawed _ => exact List.prefix_refl _
    | taken _ _ => exact List.prefix_refl _
    | new _ _ _ => exact List.prefix_append _ _

theorem prefix_pools_foldl_feed (h : s.WellFormed) (steps : List FeedStep) :
    s.pools <+: (steps.foldl feed s).pools := by
  induction steps generalizing s with
  | nil => exact List.prefix_refl _
  | cons step steps ih => exact (prefix_pools_feed h step).trans (ih (h.feed step))

theorem ofFeed_append (steps later : List FeedStep) :
    ofFeed (steps ++ later) = later.foldl feed (ofFeed steps) :=
  List.foldl_append

/-! ## Every question is answered from the records -/

/-- **A snapshot of some records**, which answers each question from them. -/
structure Represents (s : Snapshot) (rs : List PoolRecord) : Prop where
  pools : s.pools = entries rs
  tags : s.pools.map (·.tag) = List.range' 1 rs.length
  poolOfTag : ∀ i, s.pool? (i + 1) = s.pools[i]?
  noTagZero : s.pool? 0 = none
  lookup : ∀ address p, s.lookup? address = some p ↔ p ∈ s.pools ∧ p.address = address
  onePerAddress : (s.pools.map (·.address)).Nodup
  hasPool : ∀ address, s.hasPool address = true ↔ ∃ p, s.lookup? address = some p
  swapCount : s.swaps.length = 2 * rs.length
  tokensAscend : s.tokens.Pairwise (· < ·)
  tokens : ∀ t, t ∈ s.tokens ↔ ∃ r ∈ rs, t = r.tokenA ∨ t = r.tokenB
  hasToken : ∀ t, s.hasToken t = true ↔ t ∈ s.tokens
  tokenCount : s.tokens.length = (tokensOf rs).toFinset.card

theorem length_flatMap_swaps (ps : List PoolEntry) :
    (ps.flatMap (·.swaps)).length = 2 * ps.length := by
  induction ps with
  | nil => rfl
  | cons p ps ih =>
    rw [List.flatMap_cons, List.length_append, ih, List.length_cons]
    simp only [PoolEntry.swaps, List.length_cons, List.length_nil]
    omega

/-- The tokens traded are those of the records. -/
theorem mem_tokens_iff (h : s.WellFormed) (hs : s.pools = entries rs) {t : Token} :
    t ∈ s.tokens ↔ t ∈ tokensOf rs := by
  have hpairs : s.pools.map (fun p => [p.tokenA, p.tokenB]) =
      rs.map fun r => [r.tokenA, r.tokenB] := by
    rw [hs]
    exact map_entries (fun _ _ => rfl) rs
  rw [tokensOf, List.flatMap_def, ← hpairs, ← List.flatMap_def, h.traded]
  simp [PoolEntry.hasToken_iff]

theorem WellFormed.represents (h : s.WellFormed) (hs : s.pools = entries rs) :
    s.Represents rs where
  pools := hs
  tags := by rw [h.numbered, hs, length_entries]
  poolOfTag := h.pool?_succ
  noTagZero := h.pool?_zero
  lookup := fun _ _ => h.lookup?_eq_some_iff
  onePerAddress := h.addresses
  hasPool := fun address => Option.isSome_iff_exists
  swapCount := by rw [h.offered, length_flatMap_swaps, hs, length_entries]
  tokensAscend := h.ascending
  tokens := fun t => by simp [mem_tokens_iff h hs, tokensOf]
  hasToken := fun t => List.contains_iff_mem
  tokenCount := by
    have hset : s.tokens.toFinset = (tokensOf rs).toFinset := by
      ext t
      rw [List.mem_toFinset, List.mem_toFinset, mem_tokens_iff h hs]
    rw [← hset, List.toFinset_card_of_nodup (h.ascending.imp ne_of_lt)]

/-- **A snapshot represents its feed.** -/
theorem snapshot_represents_its_feed (steps : List FeedStep) :
    (ofFeed steps).Represents (kept steps) ∧
      ∀ later, (ofFeed steps).pools <+: (ofFeed (steps ++ later)).pools := by
  have h := wellFormed_ofFeed steps
  refine ⟨h.represents (pools_ofFeed steps), fun later => ?_⟩
  rw [ofFeed_append]
  exact prefix_pools_foldl_feed h later

end Snapshot

end PoolArbitrage
