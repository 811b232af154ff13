import Mathlib
import PoolArbitrage.Proofs.Contents

/-!
# The fees in force

A pool without a rate of its own has that of its exchange, as it is when asked. The schedule is
written by two kinds of report: a rate that is set overwrites the one before, and a record makes
its exchange known, which gives it no rate. So the rate of an exchange is the one set last, and
the records, kept or not, have no part in it (`Snapshot.rate_foldl_feed`).

What the feed says of a rate is told of the reports alone, in exact integers
(`Snapshot.recordRate?`).

**Theorem (`Snapshot.fees_bind_late`).** After every feed each pool charges what the feed says of
its record, in its readings and in its hops. Where among the records a rate is set makes no
difference to any fee, since the schedule is the same and so are the records kept.
-/

namespace PoolArbitrage

/-- The rate a signed number stands for; a negative one stands for none. -/
def signedRate? (fee : Int32) : Option Int := if 0 ≤ fee then some fee.toInt else none

/-- A rate that may be unset, as a holder shows it. -/
def FeeReading.of? (rate : Option Int) : FeeReading := { bps := rate.getD 0, known := rate.isSome }

namespace Rate

/-- The number of a rate that a signed number sets is that number. -/
theorem map_toNat_ofSigned (fee : Int32) :
    (ofSigned fee).map (fun b => (b.toNat : Int)) = signedRate? fee := by
  unfold ofSigned signedRate?
  by_cases hneg : fee < 0
  · have hnot : ¬ 0 ≤ fee := Int32.not_le.2 hneg
    rw [if_pos hneg, if_neg hnot, Option.map_none]
  · have hnonneg : 0 ≤ fee := Int32.not_lt.1 hneg
    have hint : (0 : Int) ≤ fee.toInt := by simpa using Int32.le_iff_toInt_le.1 hnonneg
    rw [if_neg hneg, if_pos hnonneg, Option.map_some, Int32.toNat_toUInt32_of_le hnonneg,
      ← Int32.toNat_toInt, Int.toNat_of_nonneg hint]

theorem toNat_bps (r : Rate) : (r.bps.toNat : Int) = (r.map fun b => (b.toNat : Int)).getD 0 := by
  cases r <;> rfl

theorem reading_ofRate (r : Rate) :
    FeeReading.ofRate r = .of? (r.map fun b => (b.toNat : Int)) := by
  cases r <;> rfl

end Rate

namespace Snapshot

variable {s t : Snapshot}

/-! ## What a feed says of the rates -/

/-- The rates a feed sets for an exchange, one after the other. -/
def feesSet (steps : List FeedStep) (exchange : String) : List Int32 :=
  steps.filterMap fun
    | .fee e fee => if e = exchange then some fee else none
    | .pool _ => none

/-- The rate of an exchange after a feed is the one set last. -/
def exchangeRate? (steps : List FeedStep) (exchange : String) : Option Int :=
  (feesSet steps exchange).getLast?.bind signedRate?

/-- The rate of a record's pool after a feed: its own, or else that of its exchange. -/
def recordRate? (steps : List FeedStep) (r : PoolRecord) : Option Int :=
  signedRate? r.fee <|> exchangeRate? steps r.exchange

/-! ## The schedule -/

/-- **A record changes no rate**, whether it is taken in or not. -/
theorem rate_add (h : s.WellFormed) (r : PoolRecord) (exchange : String) :
    (s.add r).fees.rate exchange = s.fees.rate exchange := by
  unfold add
  generalize hreceived : s.receive r = received
  have hreceipt : Receipt s r received := hreceived ▸ h.receipt r
  cases hreceipt with
  | flawed _ => rfl
  | taken _ _ => exact s.fees.rate_mention r.exchange exchange
  | new _ _ _ => exact s.fees.rate_mention r.exchange exchange

/-- **The rate of an exchange is the one set last**, or the one it had. -/
theorem rate_foldl_feed (h : s.WellFormed) (steps : List FeedStep) (exchange : String) :
    (steps.foldl feed s).fees.rate exchange =
      ((feesSet steps exchange).getLast?.map Rate.ofSigned).getD (s.fees.rate exchange) := by
  induction steps generalizing s with
  | nil => rfl
  | cons step steps ih =>
    rw [List.foldl_cons, ih (h.feed step)]
    cases step with
    | pool r => rw [feed, rate_add h, feesSet, feesSet, List.filterMap_cons_none rfl]
    | fee e fee =>
      simp only [feed, setFee]
      by_cases he : e = exchange
      · subst he
        have hset : feesSet (.fee e fee :: steps) e = fee :: feesSet steps e := by simp [feesSet]
        rw [FeeSchedule.rate_set_self, hset, List.getLast?_cons]
        cases (feesSet steps e).getLast? <;> rfl
      · have hset : feesSet (.fee e fee :: steps) exchange = feesSet steps exchange := by
          simp [feesSet, he]
        rw [FeeSchedule.rate_set_of_ne _ (Ne.symm he), hset]

/-- After a feed an exchange has the rate the feed says it has. -/
theorem exchangeRate?_eq (steps : List FeedStep) (exchange : String) :
    ((ofFeed steps).fees.rate exchange).map (fun b => (b.toNat : Int)) =
      exchangeRate? steps exchange := by
  rw [ofFeed, rate_foldl_feed wellFormed_empty, exchangeRate?]
  cases (feesSet steps exchange).getLast? with
  | none => rfl
  | some fee => exact Rate.map_toNat_ofSigned fee

/-- After a feed a record's pool has the rate the feed says it has. -/
theorem recordRate?_eq (steps : List FeedStep) (tag : Nat) (r : PoolRecord) :
    ((PoolEntry.ofRecord tag r).rate (ofFeed steps).fees).map (fun b => (b.toNat : Int)) =
      recordRate? steps r := by
  rw [recordRate?, ← Rate.map_toNat_ofSigned, ← exchangeRate?_eq]
  simp only [PoolEntry.rate, PoolEntry.ofRecord, Rate.orElse]
  cases Rate.ofSigned r.fee <;> rfl

/-! ## Fees that are the same -/

/-- The snapshots know the same rates, though perhaps not the same exchanges. -/
def SameRates (s t : Snapshot) : Prop := ∀ exchange, s.fees.rate exchange = t.fees.rate exchange

theorem SameRates.feeReading (h : SameRates s t) (p : PoolEntry) :
    s.feeReading p = t.feeReading p := by
  simp only [Snapshot.feeReading, PoolEntry.rate, h p.exchange]

theorem SameRates.exchangeFee (h : SameRates s t) (exchange : String) :
    s.exchangeFee exchange = t.exchangeFee exchange := by
  simp only [Snapshot.exchangeFee, h exchange]

theorem SameRates.hop (h : SameRates s t) (w : Swap) : w.hop s.fees = w.hop t.fees := by
  simp only [Swap.hop, Swap.reserves, PoolEntry.rate, h w.pool.exchange]

/-- **Feeds that say the same of the rates leave the same rates.** -/
theorem sameRates_ofFeed {steps steps' : List FeedStep}
    (h : ∀ exchange, exchangeRate? steps exchange = exchangeRate? steps' exchange) :
    SameRates (ofFeed steps) (ofFeed steps') := by
  intro exchange
  have hinj : Function.Injective fun b : Bps => (b.toNat : Int) :=
    fun a b hab => UInt32.toNat_inj.1 (Int.ofNat.inj hab)
  apply Option.map_injective hinj
  rw [exchangeRate?_eq, exchangeRate?_eq, h]

/-- No fee of the snapshots is different. -/
structure SameFees (s t : Snapshot) : Prop where
  pools : s.pools = t.pools
  readings : ∀ p, s.feeReading p = t.feeReading p
  exchanges : ∀ exchange, s.exchangeFee exchange = t.exchangeFee exchange
  hops : ∀ w : Swap, w.hop s.fees = w.hop t.fees

theorem SameRates.sameFees (h : SameRates s t) (hpools : s.pools = t.pools) : SameFees s t :=
  ⟨hpools, h.feeReading, h.exchangeFee, h.hop⟩

/-- **Feeds that keep the same records and set the same rates leave the same fees.** -/
theorem sameFees_ofFeed {steps steps' : List FeedStep} (hkept : kept steps = kept steps')
    (hset : ∀ exchange, feesSet steps exchange = feesSet steps' exchange) :
    SameFees (ofFeed steps) (ofFeed steps') := by
  have hrates : SameRates (ofFeed steps) (ofFeed steps') := by
    apply sameRates_ofFeed
    intro exchange
    rw [exchangeRate?, exchangeRate?, hset]
  refine hrates.sameFees ?_
  rw [pools_ofFeed, pools_ofFeed, hkept]

theorem feesSet_append (steps later : List FeedStep) (exchange : String) :
    feesSet (steps ++ later) exchange = feesSet steps exchange ++ feesSet later exchange :=
  List.filterMap_append

theorem feesSet_map_pool (rs : List PoolRecord) (exchange : String) :
    feesSet (rs.map .pool) exchange = [] := by
  simp [feesSet, List.filterMap_map]

/-! ## Every pool charges what the feed says -/

/-- **A snapshot charges what its feed says**: in the readings of its pools, in both their hops and
in the rates of the exchanges. -/
structure Charges (s : Snapshot) (steps : List FeedStep) : Prop where
  pools : s.pools = entries (kept steps)
  readings : s.pools.map s.feeReading = (kept steps).map fun r => .of? (recordRate? steps r)
  hops : (s.pools.map fun p => p.swaps.map fun w => ((w.hop s.fees).pool.fee.toNat : Int)) =
    (kept steps).map fun r => List.replicate 2 ((recordRate? steps r).getD 0)
  exchanges : ∀ exchange,
    ((s.exchangeFee exchange).toNat : Int) = (exchangeRate? steps exchange).getD 0

theorem charges_ofFeed (steps : List FeedStep) : (ofFeed steps).Charges steps where
  pools := pools_ofFeed steps
  readings := by
    rw [pools_ofFeed]
    refine map_entries (fun tag r => ?_) _
    rw [feeReading, Rate.reading_ofRate, recordRate?_eq]
  hops := by
    rw [pools_ofFeed]
    refine map_entries (fun tag r => ?_) _
    rw [← recordRate?_eq steps tag r, ← Rate.toNat_bps]
    rfl
  exchanges := fun exchange => by
    rw [exchangeFee, Rate.toNat_bps, exchangeRate?_eq]

/-- **Fees bind late.** After every feed a pool charges its own rate, or else the rate last set for
its exchange, before or after the pool was reported, if that is a rate. A rate that is set before
some records could as well be set after them. -/
theorem fees_bind_late :
    (∀ steps, (ofFeed steps).Charges steps) ∧
      ∀ (before : List FeedStep) (exchange : String) (fee : Int32) (passed : List PoolRecord)
        (after : List FeedStep),
        SameFees (ofFeed (before ++ [.fee exchange fee] ++ passed.map .pool ++ after))
          (ofFeed (before ++ passed.map .pool ++ [.fee exchange fee] ++ after)) := by
  refine ⟨charges_ofFeed, fun before exchange fee passed after => sameFees_ofFeed ?_ fun e => ?_⟩
  · simp only [kept, List.foldl_append, List.foldl_cons, List.foldl_nil, keep]
  · simp only [feesSet_append, feesSet_map_pool, List.append_nil]

/-- A rate set for the exchange without a name reaches the pool that was there before it. -/
example :
    let s := ofFeed [.pool { address := "x", tokenA := "A", tokenB := "B" }, .fee "" 30]
    s.pools.map s.feeReading = [{ bps := 30, known := true }] := by
  decide +kernel

end Snapshot

end PoolArbitrage
