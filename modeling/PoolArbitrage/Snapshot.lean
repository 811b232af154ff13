import PoolArbitrage.Log
import PoolArbitrage.Snapshot.Index

/-!
# Snapshots of the known pools

A snapshot is filled from a feed, pool by pool, and then asked. It keeps the accepted pools and
their swaps in the order they came, the tokens they trade, the indexes they are looked up in and
the fee schedule of their exchanges. An accepted pool is entered into all of these; nothing is
worked out anew when it is asked for.

**Acceptance.** A record must name its pool and two different tokens, and its address must be
new (`Snapshot.receive`). Accepted pools are numbered from one on; the number is the pool's tag.
A rejected record uses no number.

**Exchanges.** A record that names a pool and two different tokens makes its exchange known to the
schedule, which it does before its address is looked at. So a duplicate leaves the schedule with
an exchange it may not have known before.

Main results: `Snapshot.receive_of_flaw`, `Snapshot.receive_of_taken` and `Snapshot.receive_of_new`
say what comes of a record.
-/

namespace PoolArbitrage

/-- The accepted pools, with all that is kept to answer questions about them. -/
structure Snapshot where
  pools : List PoolEntry := []
  swaps : List Swap := []
  tokens : List Token := []
  poolIndex : PoolIndex := {}
  swapIndex : SwapIndex := {}
  fees : FeeSchedule := {}
  deriving Inhabited

namespace Snapshot

/-! ## Filling -/

/-- A token put into an ascending list that holds no token twice. -/
def insertToken (t : Token) : List Token → List Token
  | [] => [t]
  | u :: us => if t < u then t :: u :: us else if t = u then u :: us else u :: insertToken t us

/-- The entry an accepted record becomes. -/
def entryFor (s : Snapshot) (r : PoolRecord) : PoolEntry := .ofRecord (s.pools.length + 1) r

/-- The snapshot with one more pool and its swaps; the pool is filed by `poolIndex` already. -/
def enter (s : Snapshot) (p : PoolEntry) (poolIndex : PoolIndex) : Snapshot :=
  { s with
    pools := s.pools ++ [p]
    swaps := s.swaps ++ p.swaps
    tokens := insertToken p.tokenB (insertToken p.tokenA s.tokens)
    poolIndex
    swapIndex := p.swaps.foldl SwapIndex.insert s.swapIndex }

/-- The snapshot after a record, and the pool taken in or why there is none. -/
def receive (s : Snapshot) (r : PoolRecord) : Snapshot × Except Rejection PoolEntry :=
  match r.flaw? with
  | some why => (s, .error why)
  | none =>
    let known := { s with fees := s.fees.mention r.exchange }
    let p := s.entryFor r
    match s.poolIndex.file? p with
    | none => (known, .error .duplicate)
    | some poolIndex => (known.enter p poolIndex, .ok p)

/-- Takes a record in, unless it is rejected. -/
def add (s : Snapshot) (r : PoolRecord) : Snapshot := (s.receive r).1

/-- Sets the rate of an exchange. -/
def setFee (s : Snapshot) (exchange : String) (fee : Int32) : Snapshot :=
  { s with fees := s.fees.set exchange (.ofSigned fee) }

/-- Takes a record in, with a statement if it is rejected or cannot be traded. The entry is the
pool taken in. -/
def addLogged (s : Snapshot) (r : PoolRecord) : Logged (Snapshot × Option PoolEntry) :=
  match s.receive r with
  | (t, .error why) => do
    Logged.note .warning (r.rejectionNote why)
    return (t, none)
  | (t, .ok p) => do
    Logged.noteIf (r.reserveA = 0 || r.reserveB = 0) .debug
      s!"add_pool(): pool {p.name} has zero reserves. Routes crossing it won't evaluate"
    return (t, some p)

/-- A snapshot of some records, with the statements made on the way. The first of them tells the
address the snapshot is kept at. -/
def ofRecords (address : String) (rs : List PoolRecord) : Logged Snapshot := do
  Logged.note .trace s!"PoolSnapshot created at {address}"
  fill {} rs
where
  fill (s : Snapshot) : List PoolRecord → Logged Snapshot
    | [] => pure s
    | r :: rs => do
      let (t, _) ← s.addLogged r
      fill t rs

variable {s : Snapshot} {r : PoolRecord}

/-- A flawed record changes nothing. -/
theorem receive_of_flaw {why : Rejection} (h : r.flaw? = some why) :
    s.receive r = (s, .error why) := by
  simp only [receive, h]

/-- A record whose pool is filed already only makes its exchange known. -/
theorem receive_of_taken (h : r.flaw? = none) (hfile : s.poolIndex.file? (s.entryFor r) = none) :
    s.receive r = ({ s with fees := s.fees.mention r.exchange }, .error .duplicate) := by
  simp only [receive, h, hfile]

/-- **Any other record becomes the last pool.** -/
theorem receive_of_new {poolIndex : PoolIndex} (h : r.flaw? = none)
    (hfile : s.poolIndex.file? (s.entryFor r) = some poolIndex) :
    s.receive r =
      ({ s with fees := s.fees.mention r.exchange }.enter (s.entryFor r) poolIndex,
        .ok (s.entryFor r)) := by
  simp only [receive, h, hfile]

theorem value_addLogged (s : Snapshot) (r : PoolRecord) :
    (s.addLogged r).value = ((s.receive r).1, (s.receive r).2.toOption) := by
  unfold addLogged
  rcases s.receive r with ⟨t, why | p⟩ <;> rfl

/-! ## Asking -/

def lookup? (s : Snapshot) (address : String) : Option PoolEntry :=
  s.poolIndex.byAddress.get? address

def hasPool (s : Snapshot) (address : String) : Bool := (s.lookup? address).isSome

/-- The pool of a tag. -/
def pool? (s : Snapshot) (tag : Nat) : Option PoolEntry := s.poolIndex.byTag.get? tag

def swapsFrom (s : Snapshot) (t : Token) : List Swap := s.swapIndex.bySource.range [t]

def swapsTo (s : Snapshot) (t : Token) : List Swap := s.swapIndex.byTarget.range [t]

def swapsBetween (s : Snapshot) (source target : Token) : List Swap :=
  s.swapIndex.byPair.range [source, target]

def hasToken (s : Snapshot) (t : Token) : Bool := s.tokens.contains t

/-- The rate of an exchange as a number. -/
def exchangeFee (s : Snapshot) (exchange : String) : Bps := (s.fees.rate exchange).bps

/-- The fee of one of the pools: the number, and whether it is known. -/
def feeReading (s : Snapshot) (p : PoolEntry) : FeeReading := .ofRate (p.rate s.fees)

end Snapshot

end PoolArbitrage
