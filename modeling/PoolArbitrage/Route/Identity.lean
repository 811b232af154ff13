import PoolArbitrage.Route

/-!
# The number of a route

Routes are numbered, so that they can be told apart and put into an order. The number takes in the
names of the key one after the other: the start token, then the addresses of the pools.

**Mixing.** How a name is mixed into a number is left open (`Mixing`). Numbers have 64 bits, so
different routes may share one.

**The empty route** has no names; its number is zero.
-/

namespace PoolArbitrage

/-- A way to mix a name into a number. -/
abbrev Mixing := UInt64 → String → UInt64

namespace Route

/-- The number of a route. -/
def id (mix : Mixing) (r : Route) : UInt64 :=
  match r.start? with
  | none => 0
  | some start => r.addresses.foldl mix (mix 0 start)

end Route

end PoolArbitrage
