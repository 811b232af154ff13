import PoolArbitrage.Scan

/-!
# What a script handles

A script holds data and objects. Data are numbers, texts, truth values and members of
enumerations; they are copied wherever they go. Objects are the library's values under their class
names, and are shared.

**Pools and swaps of a snapshot** are handled by reference: a script holds the number of the
snapshot and the tag of the pool, and sees the pool as the snapshot has it at that time.

**Fitting.** A parameter has a type. A datum of the wrong kind does not fit; a number of the right
kind that is out of range fits, but cannot be converted (`Ty.fits`, `Ty.convert`).

**The host** gives a step what it does not compute itself (`Host`): a mixing for route ids, how a
scan goes on, the moment at hand, and an address for what is newly made.
-/

namespace PoolArbitrage.Script

/-- The enumerations a script can name. -/
inductive Enumeration where
  | poolKind
  | verdict
  | evalError
  | routeError
  | logLevel
  deriving DecidableEq, Repr

namespace Enumeration

def all : List Enumeration := [poolKind, verdict, evalError, routeError, logLevel]

def name : Enumeration → String
  | poolKind => "PoolKind"
  | verdict => "Verdict"
  | evalError => "EvalError"
  | routeError => "RouteError"
  | logLevel => "log_level"

/-- The names of the members, in order. -/
def members : Enumeration → List String
  | poolKind => ["constant_product"]
  | verdict => ["profitable", "below_threshold", "not_profitable"]
  | evalError => ["ok", "invalid_reserves", "insufficient_liquidity"]
  | routeError => ["ok", "too_short", "too_long", "circular", "disconnected"]
  | logLevel => ["trace", "debug", "info", "warning", "error"]

def ofName? (n : String) : Option Enumeration := all.find? (·.name == n)

/-- The enumeration whose members are also constants of the library. -/
def exported : Enumeration := logLevel

end Enumeration

/-- The classes of objects. -/
inductive Class where
  | amountList
  | stringList
  | tradeAmounts
  | pool
  | hop
  | route
  | routeList
  | record
  | entry
  | entryList
  | swap
  | swapList
  | snapshot
  | costParameters
  | costBreakdown
  | assessment
  | evaluation
  | constraints
  | opportunity
  | opportunityList
  | report
  deriving DecidableEq, Repr, Inhabited

namespace Class

def all : List Class :=
  [amountList, stringList, tradeAmounts, pool, hop, route, routeList, record, entry, entryList,
   swap, swapList, snapshot, costParameters, costBreakdown, assessment, evaluation, constraints,
   opportunity, opportunityList, report]

def name : Class → String
  | amountList => "AmountList"
  | stringList => "StringList"
  | tradeAmounts => "TradeAmounts"
  | pool => "PoolReserves"
  | hop => "Hop"
  | route => "Route"
  | routeList => "RouteList"
  | record => "PoolRecord"
  | entry => "PoolEntry"
  | entryList => "PoolEntries"
  | swap => "DirectedSwap"
  | swapList => "DirectedSwaps"
  | snapshot => "PoolSnapshot"
  | costParameters => "CostParameters"
  | costBreakdown => "CostBreakdown"
  | assessment => "ProfitabilityVerdict"
  | evaluation => "RouteResult"
  | constraints => "ScanConstraints"
  | opportunity => "Opportunity"
  | opportunityList => "OpportunityList"
  | report => "ScanReport"

def ofName? (n : String) : Option Class := all.find? (·.name == n)

end Class

/-- A pool of the snapshot that is the script's object of this number. -/
structure EntryRef where
  home : Nat
  tag : Nat
  deriving DecidableEq, Repr, Inhabited

/-- One of the two swaps of such a pool. -/
structure SwapRef where
  entry : EntryRef
  forward : Bool
  deriving DecidableEq, Repr, Inhabited

/-- An object. A pool or swap of a snapshot is shown with the number and the schedule of its
snapshot. -/
inductive Object where
  | amountList (items : List Amount)
  | stringList (items : List String)
  | tradeAmounts (m : TradeAmounts)
  | pool (p : Pool)
  | hop (h : Hop)
  | route (r : Route)
  | routeList (items : List Route)
  | record (r : PoolRecord)
  | entry (home : Nat) (fees : FeeSchedule) (p : PoolEntry)
  | entryList (items : List (Option EntryRef))
  | swap (home : Nat) (fees : FeeSchedule) (w : Swap)
  | swapList (items : List (Option SwapRef))
  | snapshot (s : Snapshot)
  | costParameters (p : CostParameters)
  | costBreakdown (c : CostBreakdown)
  | assessment (a : Assessment)
  | evaluation (e : Evaluation)
  | constraints (c : Constraints)
  | opportunity (o : Opportunity)
  | opportunityList (items : List Opportunity)
  | report (r : Report)
  deriving Inhabited

def Object.cls : Object → Class
  | .amountList _ => .amountList
  | .stringList _ => .stringList
  | .tradeAmounts _ => .tradeAmounts
  | .pool _ => .pool
  | .hop _ => .hop
  | .route _ => .route
  | .routeList _ => .routeList
  | .record _ => .record
  | .entry .. => .entry
  | .entryList _ => .entryList
  | .swap .. => .swap
  | .swapList _ => .swapList
  | .snapshot _ => .snapshot
  | .costParameters _ => .costParameters
  | .costBreakdown _ => .costBreakdown
  | .assessment _ => .assessment
  | .evaluation _ => .evaluation
  | .constraints _ => .constraints
  | .opportunity _ => .opportunity
  | .opportunityList _ => .opportunityList
  | .report _ => .report

/-- Where the log lines of a script go: to whoever runs it, to the console, to a collector, to a
receiver that always fails, or to something that receives no lines at all. -/
inductive Outlet where
  | host
  | console
  | collector
  | broken
  | unfit
  deriving DecidableEq, Repr, Inhabited

/-- What a script computes with. Of a moment nothing is known but that it is one. -/
inductive Datum where
  | null
  | bool (b : Bool)
  | int (n : Int)
  | float (x : Float)
  | text (s : String)
  | member (e : Enumeration) (i : Nat)
  | object (o : Object)
  | entry (r : EntryRef)
  | swap (r : SwapRef)
  | outlet (o : Outlet)
  | moment
  deriving Inhabited

/-- What a step gets from outside: how names are mixed into ids, how a scan goes on, the moment it
is, and the address a new object is kept at. -/
structure Host where
  mix : Mixing
  schedule : Schedule
  now : Moment
  address : String

/-- Why a step of a script fails. -/
inductive ScriptError where
  | noAttribute
  | noOverload
  | overflow
  | noName
  | outOfRange
  | noKey
  | value (message : String)
  | zeroDivision (message : String)
  deriving DecidableEq, Repr

namespace ScriptError

def ofSwap (e : SwapError) : ScriptError := .value s!"{e.kind.name}: {e.message}"

def ofUntraded (e : UntradedToken) : ScriptError := .value e.message

end ScriptError

namespace Datum

def ofAmount (a : Amount) : Datum := .int a.toNat

def ofWord (w : UInt32) : Datum := .int w.toNat

def ofId (n : UInt64) : Datum := .int n.toNat

def ofNat (n : Nat) : Datum := .int n

/-- A converted number as an integer. -/
def toInt : Datum → Int
  | .int n => n
  | _ => 0

def toAmount (d : Datum) : Amount := .ofNat d.toInt.toNat

def toWord (d : Datum) : UInt32 := .ofNat d.toInt.toNat

def toFloat : Datum → Float
  | .float x => x
  | _ => 0

def toBool : Datum → Bool
  | .bool b => b
  | _ => false

def toText : Datum → String
  | .text s => s
  | _ => ""

end Datum

/-! ## Types of parameters -/

/-- The type of a parameter or an attribute. -/
inductive Ty where
  | bool
  | word (bits : Nat)
  | signed (bits : Nat)
  | float
  | text
  | member (e : Enumeration)
  | object (c : Class)
  | entry
  | swap
  | any
  deriving DecidableEq, Repr

namespace Ty

/-- The integer a datum stands for, if it stands for one. -/
def integer? : Datum → Option Int
  | .int n => some n
  | .bool b => some (if b then 1 else 0)
  | _ => none

/-- A datum is of the right kind. -/
def fits (t : Ty) (d : Datum) : Bool :=
  match t, d with
  | .bool, d | .word _, d | .signed _, d => (integer? d).isSome
  | .float, .float _ | .float, .moment => true
  | .float, d => (integer? d).isSome
  | .text, .text _ => true
  | .member e, .member f _ => e = f
  | .object c, .object o => o.cls = c
  | .entry, .entry _ | .entry, .null => true
  | .swap, .swap _ | .swap, .null => true
  | .any, _ => true
  | _, _ => false

/-- How many values a word of so many bits has. -/
def values (bits : Nat) : Int := Int.ofNat (Nat.pow 2 bits)

/-- A datum is of the type, and in its range. -/
def Holds : Ty → Datum → Prop
  | .bool, .bool _ => True
  | .word bits, .int n => 0 ≤ n ∧ n < values bits
  | .signed bits, .int n => -values bits ≤ 2 * n ∧ 2 * n < values bits
  | .float, .float _ => True
  | .text, .text _ => True
  | .member e, .member f i => e = f ∧ i < e.members.length
  | .object c, .object o => o.cls = c
  | .entry, .entry _ => True
  | .entry, .null => True
  | .swap, .swap _ => True
  | .swap, .null => True
  | .any, _ => True
  | _, _ => False

/-- The double nearest to an integer. -/
def floatOfInt (n : Int) : Float :=
  if n < 0 then -(Float.ofNat n.natAbs) else Float.ofNat n.natAbs

/-- A fitting datum as the type wants it, unless it is out of range. -/
def convert (t : Ty) (d : Datum) : Except ScriptError Datum :=
  match t, integer? d with
  | .bool, some n => .ok (.bool (n ≠ 0))
  | .word bits, some n => if 0 ≤ n ∧ n < values bits then .ok (.int n) else .error .overflow
  | .signed bits, some n =>
    if -values bits ≤ 2 * n ∧ 2 * n < values bits then .ok (.int n) else .error .overflow
  | .float, some n => .ok (.float (floatOfInt n))
  | _, _ => .ok d

/-- All data as a list of types wants them. -/
def convertAll : List Ty → List Datum → Except ScriptError (List Datum)
  | t :: ts, d :: ds => do
    let a ← t.convert d
    let as ← convertAll ts ds
    return a :: as
  | _, _ => .ok []

/-- As many data as types, each of the right kind. -/
def fitAll : List Ty → List Datum → Bool
  | [], [] => true
  | t :: ts, d :: ds => t.fits d && fitAll ts ds
  | _, _ => false

end Ty

end PoolArbitrage.Script
