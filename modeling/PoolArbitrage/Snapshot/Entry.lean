import PoolArbitrage.Fee
import PoolArbitrage.Route

/-!
# Pools as a feed reports them

A record reports a pool: its address, its two tokens and what it holds of them. A record that
names no pool or no two different tokens is refused whatever is known already
(`PoolRecord.flaw?`).

**Swaps.** A pool can be traded both ways, so it offers two directed swaps. They are the edges of
the token graph.

**Fees.** A pool without a rate of its own has its exchange's, as the schedule is when asked.

Main result: `Swap.hop_reversed`.
-/

namespace PoolArbitrage

/-- A pool as the feed reports it; which token comes first is arbitrary. -/
structure PoolRecord where
  address : String := ""
  tokenA : Token := ""
  tokenB : Token := ""
  reserveA : Amount := 0
  reserveB : Amount := 0
  fee : Int32 := -1
  exchange : String := ""
  kind : PoolKind := .constantProduct
  deriving DecidableEq, Inhabited

/-- A pool of a snapshot. -/
structure PoolEntry where
  tag : Nat
  address : String
  tokenA : Token
  tokenB : Token
  reserveA : Amount
  reserveB : Amount
  ownRate : Rate
  exchange : String
  kind : PoolKind
  deriving DecidableEq, Repr, Inhabited

def PoolEntry.ofRecord (tag : Nat) (r : PoolRecord) : PoolEntry :=
  { tag, address := r.address, tokenA := r.tokenA, tokenB := r.tokenB, reserveA := r.reserveA,
    reserveB := r.reserveB, ownRate := .ofSigned r.fee, exchange := r.exchange, kind := r.kind }

/-- A pool and the direction it is traded in: `forward` sells its first token. -/
structure Swap where
  pool : PoolEntry
  forward : Bool
  deriving DecidableEq, Repr, Inhabited

namespace PoolEntry

def hasToken (p : PoolEntry) (t : Token) : Bool := t == p.tokenA || t == p.tokenB

theorem hasToken_iff {p : PoolEntry} {t : Token} :
    p.hasToken t = true ↔ t = p.tokenA ∨ t = p.tokenB := by
  simp [hasToken]

/-- The two directions a pool is traded in. -/
def swaps (p : PoolEntry) : List Swap := [⟨p, true⟩, ⟨p, false⟩]

/-- The rate in force for a pool. -/
def rate (fees : FeeSchedule) (p : PoolEntry) : Rate := p.ownRate.orElse (fees.rate p.exchange)

def name (p : PoolEntry) : String := s!"{p.exchange}({p.tokenA}-{p.tokenB}, {p.address})"

end PoolEntry

namespace Swap

def sells (w : Swap) : Token := if w.forward then w.pool.tokenA else w.pool.tokenB

def buys (w : Swap) : Token := if w.forward then w.pool.tokenB else w.pool.tokenA

/-- The same pool traded the other way. -/
def reversed (w : Swap) : Swap := { w with forward := !w.forward }

/-- The pool as this swap sees it. -/
def reserves (fees : FeeSchedule) (w : Swap) : Pool :=
  let fee := (w.pool.rate fees).bps
  if w.forward then ⟨w.pool.reserveA, w.pool.reserveB, fee, w.pool.kind⟩
  else ⟨w.pool.reserveB, w.pool.reserveA, fee, w.pool.kind⟩

/-- The hop of a route that uses this swap. -/
def hop (fees : FeeSchedule) (w : Swap) : Hop :=
  { sells := w.sells, buys := w.buys, pool := w.reserves fees, exchange := w.pool.exchange,
    address := w.pool.address }

/-- **The two swaps of a pool see its reserves from either side.** -/
theorem hop_reversed (fees : FeeSchedule) (w : Swap) :
    (w.reversed.hop fees).pool = (w.hop fees).pool.reversed := by
  obtain ⟨p, forward⟩ := w
  cases forward <;> rfl

end Swap

/-- A token was asked of a pool that does not trade it. -/
structure UntradedToken where
  token : Token
  address : String
  deriving DecidableEq, Repr

def UntradedToken.message (e : UntradedToken) : String :=
  s!"token {e.token} is not traded by pool {e.address}"

/-- The swap of a pool that sells a token. -/
def PoolEntry.swapFrom (p : PoolEntry) (t : Token) : Except UntradedToken Swap :=
  if t = p.tokenA then .ok ⟨p, true⟩
  else if t = p.tokenB then .ok ⟨p, false⟩
  else .error ⟨t, p.address⟩

/-- Why a record is not taken into a snapshot. -/
inductive Rejection where
  | incomplete
  | sameToken
  | duplicate
  deriving DecidableEq, Repr

/-- The statement about a rejected record. -/
def PoolRecord.rejectionNote (r : PoolRecord) : Rejection → String
  | .incomplete =>
    s!"add_pool(): incomplete pool record (address \"{r.address}\", tokens \"{r.tokenA}\", " ++
      s!"\"{r.tokenB}\") ignored"
  | .sameToken => s!"add_pool(): pool {r.address} swaps {r.tokenA} with itself, ignored"
  | .duplicate => s!"add_pool(): duplicate pool address {r.address} ignored"

/-- What speaks against a record by itself, if anything does. -/
def PoolRecord.flaw? (r : PoolRecord) : Option Rejection :=
  if r.address = "" ∨ r.tokenA = "" ∨ r.tokenB = "" then some .incomplete
  else if r.tokenA = r.tokenB then some .sameToken
  else none

end PoolArbitrage
