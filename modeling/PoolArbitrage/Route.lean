import PoolArbitrage.Pool

/-!
# Routes

A hop sells one token and buys another through a pool; a route is a chain of hops that is meant
to come back to the token it started from. Hops are carried by value, so a route outlives the
snapshot it was found in.

**Labels.** The names of the exchange and of the pool are labels: swaps do not depend on them,
and two hops that differ in the exchange alone are the same hop (`Hop.same`).

**Identity.** A route is told from others by its start token and the pools it crosses, in order
(`Route.key`).
-/

namespace PoolArbitrage

/-- A token's name, opaque to the library; names are ordered character by character. -/
abbrev Token := String

/-- One directed swap of a route. -/
structure Hop where
  sells : Token := ""
  buys : Token := ""
  pool : Pool := {}
  exchange : String := ""
  address : String := ""
  deriving DecidableEq, Repr, Inhabited

namespace Hop

/-- The same swap, whatever the exchange is called. -/
def same (a b : Hop) : Bool :=
  a.sells == b.sells && a.buys == b.buys && a.address == b.address && a.pool == b.pool

def text (h : Hop) : String :=
  let label := if h.exchange.isEmpty then "" else "@" ++ h.exchange
  s!"{h.sells}->{h.buys}{label}{h.pool.text}"

end Hop

/-- A chain of hops. -/
abbrev Route := List Hop

namespace Route

/-- The token the first hop sells. -/
def start? (r : Route) : Option Token := r.head?.map (·.sells)

/-- The token the last hop buys. -/
def final? (r : Route) : Option Token := r.getLast?.map (·.buys)

/-- The last hop buys what the first one sold. -/
def closed (r : Route) : Bool :=
  match r.start?, r.final? with
  | some s, some f => s == f
  | _, _ => false

/-- Some hop trades on another exchange than the first. -/
def crossExchange (r : Route) : Bool :=
  match r with
  | [] => false
  | h :: rest => rest.any (·.exchange != h.exchange)

/-- The tokens sold, in order, and the token bought last. -/
def tokens (r : Route) : List Token := r.map (·.sells) ++ r.final?.toList

/-- The tokens in passing order. -/
def symbols (r : Route) : String := "-".intercalate r.tokens

/-- The addresses of the pools crossed. -/
def addresses (r : Route) : List String := r.map (·.address)

/-- The addresses in quotes. -/
def addressText (r : Route) : String :=
  ", ".intercalate (r.addresses.map fun a => "\"" ++ a ++ "\"")

def text (r : Route) : String := s!"{r.length}-hop route {r.symbols}"

/-- Hop by hop the same route. -/
def same (a b : Route) : Bool := a.length == b.length && (a.zip b).all fun (x, y) => x.same y

/-- What tells a route from others: its start token and the pools it crosses. -/
def key (r : Route) : Option Token × List String := (r.start?, r.addresses)

end Route

end PoolArbitrage
