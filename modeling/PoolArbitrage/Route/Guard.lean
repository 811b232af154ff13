import PoolArbitrage.Route

/-!
# The route guard

A candidate route is checked before anything is computed on it: its length, how often it visits
each token, and that each hop sells what the one before bought, back to the start. The first
fault in this order is reported (`Route.check`), or raised with an account of it
(`Route.validate`).

**Visits.** A route visits the token it starts from and the token each hop buys. No token may be
visited more often than the allowance; the start token of a closed route may be visited once
more. The allowance is a 32-bit word, and so is the one after it.
-/

namespace PoolArbitrage

/-- The least number of hops of a route. -/
def minHops : Nat := 2

/-- The greatest number of hops of a route. -/
def maxHops : Nat := 4

/-- How reports name the outcome of the guard. -/
inductive RouteErrorKind where
  | ok
  | tooShort
  | tooLong
  | circular
  | disconnected
  deriving DecidableEq, Repr

def RouteErrorKind.all : List RouteErrorKind := [.ok, .tooShort, .tooLong, .circular, .disconnected]

def RouteErrorKind.name : RouteErrorKind → String
  | .ok => "Ok"
  | .tooShort => "TooShort"
  | .tooLong => "TooLong"
  | .circular => "CircularRoute"
  | .disconnected => "Disconnected"

/-- What the guard finds wrong with a route. -/
inductive RouteFault where
  | tooShort
  | tooLong
  | overvisited (token : Token)
  | brokenAfter (hop : Nat)
  | unclosed (token : Token)
  deriving DecidableEq, Repr

def RouteFault.kind : RouteFault → RouteErrorKind
  | tooShort => .tooShort
  | tooLong => .tooLong
  | overvisited _ => .circular
  | brokenAfter _ | unclosed _ => .disconnected

/-- The least of some tokens. -/
def leastToken? : List Token → Option Token
  | [] => none
  | t :: ts =>
    match leastToken? ts with
    | none => some t
    | some u => some (if u < t then u else t)

namespace Route

/-- The tokens visited, in order: the start and what each hop buys. -/
def visits (r : Route) : List Token := r.start?.toList ++ r.map (·.buys)

/-- How often a token may be visited. -/
def allowance (r : Route) (repeats : UInt32) (t : Token) : UInt32 :=
  if r.closed && r.start? == some t then repeats + 1 else repeats

/-- The tokens visited too often. -/
def overvisited (r : Route) (repeats : UInt32) : List Token :=
  r.visits.filter fun t => (r.allowance repeats t).toNat < r.visits.count t

/-- The first hop that does not buy what the next one sells. -/
def brokenAfter? : Route → Option Nat
  | a :: b :: rest => if a.buys = b.sells then (brokenAfter? (b :: rest)).map (· + 1) else some 0
  | _ => none

/-- The first fault of a route: length, then visits, then chaining. -/
def fault? (r : Route) (repeats : UInt32) : Option RouteFault :=
  if r.length < minHops then some .tooShort
  else if maxHops < r.length then some .tooLong
  else
    match leastToken? (r.overvisited repeats) with
    | some t => some (.overvisited t)
    | none =>
      match r.brokenAfter? with
      | some i => some (.brokenAfter i)
      | none => if r.closed then none else some (.unclosed (r.final?.getD ""))

/-- The outcome of the guard, as reports name it. -/
def check (r : Route) (repeats : UInt32) : RouteErrorKind :=
  match r.fault? repeats with
  | none => .ok
  | some f => f.kind

/-- The account of a fault found in this route under this allowance. -/
def faultMessage (r : Route) (repeats : UInt32) : RouteFault → String
  | .tooShort => s!"route too short: {r.length} hops, must be >= {minHops}"
  | .tooLong => s!"route too long: {r.length} hops, must be <= {maxHops}"
  | .overvisited t => s!"token {t} repeats more than {repeats} time(s) in {r.symbols}"
  | .brokenAfter i => s!"route {r.symbols} is broken or not circular (at {i})"
  | .unclosed t => s!"route {r.symbols} is broken or not circular (at {t})"

/-- What is raised for a route the guard does not accept. -/
structure Violation where
  kind : RouteErrorKind
  message : String
  deriving DecidableEq, Repr

/-- The guard for callers who take only what it accepts: any other route is raised for its first
fault, with an account of it. -/
def validate (r : Route) (repeats : UInt32) : Except Violation Unit :=
  match r.fault? repeats with
  | none => .ok ()
  | some f => .error { kind := f.kind, message := r.faultMessage repeats f }

end Route

end PoolArbitrage
