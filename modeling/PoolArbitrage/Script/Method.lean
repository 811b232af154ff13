import PoolArbitrage.Script.Attribute

/-!
# The methods of objects

A method takes an object and converted arguments, and gives a datum and the object afterwards. The
only thing it takes from the host is the mixing, for the id of a route. Several methods of one name
are overloads. Lists and maps have the methods of their kind besides those of their class
(`listMethods`, `mapMethods`).

Constructors take converted arguments and make an object.
-/

namespace PoolArbitrage.Script

/-- What a method call gives: a datum and the value afterwards. -/
abbrev Returned (σ : Type) := Except ScriptError (σ × Datum)

/-- A method, or one overload of it. -/
structure Method (σ : Type) where
  name : String
  params : List Ty
  run : Host → σ → List Datum → Logged (Returned σ)

namespace Method

variable {σ : Type}

/-- A method that only asks. -/
def query (name : String) (params : List Ty) (f : σ → List Datum → Except ScriptError Datum) :
    Method σ :=
  ⟨name, params, fun _ s args => pure ((f s args).map fun d => (s, d))⟩

/-- A method without arguments that only asks and always answers. -/
def view (name : String) (f : σ → Datum) : Method σ := query name [] fun s _ => .ok (f s)

/-- A method of the value inside an object. -/
def lift (m : Method σ) (shape : Shape σ) : Method Object :=
  ⟨m.name, m.params, fun host o args =>
    match shape.view o with
    | none => pure (.error .noAttribute)
    | some s => do
      let r ← m.run host s args
      return r.map fun (t, d) => (shape.wrap t, d)⟩

end Method

open Method

/-- A text that may be out of range. -/
def textOrRange (t : Option String) : Except ScriptError Datum :=
  match t with
  | some s => .ok (.text s)
  | none => .error .outOfRange

/-! ## The methods of each class -/

def poolMethods : List (Method Pool) :=
  [view "usable" fun p => .bool p.usable,
   view "reversed" fun p => .object (.pool p.reversed)]

def hopMethods : List (Method Hop) := [view "__repr__" fun h => .text h.text]

def routeMethods : List (Method Route) :=
  [⟨"id", [], fun host r _ => pure (.ok (r, .ofId (Route.id host.mix r)))⟩,
   query "initial_token" [] fun r _ => textOrRange (Route.start? r),
   query "final_token" [] fun r _ => textOrRange (Route.final? r),
   view "is_closed" fun r => .bool (Route.closed r),
   view "is_cross_exchange" fun r => .bool (Route.crossExchange r),
   view "print_addr" fun r => .text (Route.addressText r),
   view "get_symbols" fun r => .text (Route.symbols r),
   view "__repr__" fun r => .text (Route.text r)]

def entryMethods : List (Method (Nat × FeeSchedule × PoolEntry)) :=
  [view "feesBPS" fun (_, fees, p) => .ofWord (p.rate fees).bps,
   query "hop_from" [.text] fun (_, fees, p) args =>
     match args with
     | [.text t] =>
       match p.swapFrom t with
       | .ok w => .ok (.object (.hop (w.hop fees)))
       | .error e => .error (.ofUntraded e)
     | _ => .error .noOverload,
   view "get_name" fun (_, _, p) => .text p.name]

def swapMethods : List (Method (Nat × FeeSchedule × Swap)) :=
  [view "hop" fun (_, fees, w) => .object (.hop (w.hop fees))]

/-- A pool of snapshot `home` as a datum. -/
def entryDatum (home : Nat) (p : Option PoolEntry) : Datum :=
  p.elim .null fun q => .entry ⟨home, q.tag⟩

/-- Swaps of snapshot `home` as a datum. -/
def swapList (home : Nat) (ws : List Swap) : Datum :=
  .object (.swapList (ws.map fun w => some ⟨⟨home, w.pool.tag⟩, w.forward⟩))

/-- Takes a record into snapshot `home`. -/
def addPool (home : Nat) (s : Snapshot) (r : PoolRecord) : Logged (Returned Snapshot) := do
  let (t, p) ← s.addLogged r
  return .ok (t, entryDatum home p)

/-- The methods of the snapshot that is the script's object of this number. -/
def snapshotMethods (home : Nat) : List (Method Snapshot) :=
  [⟨"set_dex_fee", [.text, .signed 32], fun _ s args =>
     match args with
     | [.text exchange, .int fee] => pure (.ok (s.setFee exchange (.ofInt fee), .null))
     | _ => pure (.error .noOverload)⟩,
   query "dex_fee" [.text] fun s args =>
     .ok (.ofWord (s.exchangeFee (args.headD .null).toText)),
   ⟨"add_pool", [.object .record], fun _ s args =>
     match args with
     | [.object (.record r)] => addPool home s r
     | _ => pure (.error .noOverload)⟩,
   ⟨"add_pool", [.text, .text, .text, .word 64, .word 64, .signed 32, .text], fun _ s args =>
     match args with
     | [.text address, .text tokenA, .text tokenB, a, b, .int fee, .text exchange] =>
       addPool home s
         { address, tokenA, tokenB, reserveA := a.toAmount, reserveB := b.toAmount,
           fee := .ofInt fee, exchange }
     | _ => pure (.error .noOverload)⟩,
   query "lookup_pool" [.text] fun s args =>
     .ok (entryDatum home (s.lookup? (args.headD .null).toText)),
   query "lookup_pool" [.word 64] fun s args =>
     .ok (entryDatum home (s.pool? (args.headD .null).toInt.toNat)),
   query "has_pool" [.text] fun s args => .ok (.bool (s.hasPool (args.headD .null).toText)),
   query "has_token" [.text] fun s args => .ok (.bool (s.hasToken (args.headD .null).toText)),
   query "swaps_from" [.text] fun s args =>
     .ok (swapList home (s.swapsFrom (args.headD .null).toText)),
   query "swaps_to" [.text] fun s args =>
     .ok (swapList home (s.swapsTo (args.headD .null).toText)),
   query "lookup_swap" [.text, .text] fun s args =>
     match args with
     | [.text source, .text target] => .ok (swapList home (s.swapsBetween source target))
     | _ => .error .noOverload,
   view "pools" fun s => .object (.entryList (s.pools.map fun p => some ⟨home, p.tag⟩)),
   view "tokens" fun s => .object (.stringList s.tokens),
   view "pools_count" fun s => .ofNat s.pools.length,
   view "tokens_count" fun s => .ofNat s.tokens.length,
   view "swaps_count" fun s => .ofNat s.swaps.length]

def evaluationMethods : List (Method Evaluation) :=
  [query "amount_before_hop" [.word 32] fun e args =>
     match e.amountBefore? (args.headD .null).toInt.toNat with
     | some a => .ok (.ofAmount a)
     | none => .error .outOfRange,
   view "yield_ratio" fun e => .float e.yieldRatio,
   view "infos" fun e => .text e.text]

def constraintMethods : List (Method Constraints) :=
  [query "trade_amount_for" [.text] fun c args =>
     .ok (.ofAmount (c.amountFor (args.headD .null).toText)),
   query "check_consistency" [] fun c _ =>
     match c.fault? with
     | none => .ok .null
     | some f => .error (.value f.message)]

/-- The methods of a class, given those of the values its objects hold. -/
def liftMethods {σ : Type} (shape : Shape σ) (ms : List (Method σ)) : List (Method Object) :=
  ms.map (·.lift shape)

/-- The methods of a class; the number of the object tells where pools are found again. -/
def classMethods (home : Nat) : Class → List (Method Object)
  | .pool => liftMethods .pool poolMethods
  | .hop => liftMethods .hop hopMethods
  | .route => liftMethods .route routeMethods
  | .entry => liftMethods .entry entryMethods
  | .swap => liftMethods .swap swapMethods
  | .snapshot => liftMethods .snapshot (snapshotMethods home)
  | .costBreakdown => liftMethods .costBreakdown [view "infos" fun c => .text c.text]
  | .evaluation => liftMethods .evaluation evaluationMethods
  | .constraints => liftMethods .constraints constraintMethods
  | .opportunity =>
    liftMethods .opportunity [query "describe" [] fun o _ => textOrRange o.describe?]
  | .report => liftMethods .report [view "summary" fun r => .text r.summary]
  | _ => []

/-! ## Lists and maps -/

/-- The position an index names in a list of so many elements; negative ones count from the end. -/
def position? (length : Nat) (i : Int) : Option Nat :=
  let j := if i < 0 then i + length else i
  if 0 ≤ j ∧ j < length then some j.toNat else none

/-- A method of a list that works on the element its first argument names. -/
def indexed (name : String) (params : List Ty) (f : Object → List Datum → Nat → Object × Datum) :
    Method Object :=
  ⟨name, params, fun _ o args =>
    match position? o.elements.length (args.headD .null).toInt with
    | some n => pure (.ok (f o args n))
    | none => pure (.error .outOfRange)⟩

/-- The methods of a list of elements of a type, as far as they need no reference. -/
def listMethods (ty : Ty) : List (Method Object) :=
  [view "__len__" fun o => .ofNat o.elements.length,
   indexed "__getitem__" [.signed 64] fun o _ n => (o, o.elements.getD n .null),
   indexed "__setitem__" [.signed 64, ty] fun o args n =>
     (o.withElements (o.elements.set n (args.getD 1 .null)), .null),
   indexed "__delitem__" [.signed 64] fun o _ n => (o.withElements (o.elements.eraseIdx n), .null),
   query "__contains__" [ty] fun o args => .ok (.bool (o.elements.any (·.same (args.headD .null)))),
   ⟨"append", [ty], fun _ o args => pure (.ok (o.withElements (o.elements ++ args), .null))⟩]

/-- The methods of a map from tokens to amounts. -/
def amountMapMethods : List (Method TradeAmounts) :=
  [view "__len__" fun m => .ofNat (List.length m),
   query "__getitem__" [.text] fun m args =>
     match m.get? (args.headD .null).toText with
     | some a => .ok (.ofAmount a)
     | none => .error .noKey,
   ⟨"__setitem__", [.text, .word 64], fun _ m args =>
     pure (.ok (m.insert (args.headD .null).toText (args.getD 1 .null).toAmount, .null))⟩,
   ⟨"__delitem__", [.text], fun _ m args =>
     let t := (args.headD .null).toText
     pure (if m.contains t then .ok (m.erase t, .null) else .error .noKey)⟩,
   query "__contains__" [.text] fun m args => .ok (.bool (m.contains (args.headD .null).toText))]

def mapMethods : List (Method Object) := liftMethods .tradeAmounts amountMapMethods

/-- How the objects of a class are indexed. -/
inductive Indexing where
  | none
  | list
  | map
  deriving DecidableEq, Repr

/-- How a class is indexed: lists by position, the map of amounts by token. -/
def indexing (c : Class) : Indexing :=
  if c = .tradeAmounts then .map else if (elementTy? c).isSome then .list else .none

/-- All methods of an object. -/
def Object.methods (o : Object) (home : Nat) : List (Method Object) :=
  let indexed := match elementTy? o.cls with
    | some ty => listMethods ty
    | none => if o.cls = .tradeAmounts then mapMethods else []
  classMethods home o.cls ++ indexed

/-! ## Constructors -/

/-- A way to make an object of a class. -/
structure Constructor where
  params : List Ty
  make : Host → List Datum → Logged Object

/-- A constructor without arguments. -/
def plainConstructor (o : Object) : Constructor := ⟨[], fun _ _ => pure o⟩

/-- A pool of its two reserves and its fee. -/
def makePool (args : List Datum) : Object :=
  match args with
  | i :: o :: f :: _ => .pool { reserveIn := i.toAmount, reserveOut := o.toAmount, fee := f.toWord }
  | _ => .pool {}

/-- A hop of two tokens, a pool and up to two labels. -/
def makeHop (args : List Datum) : Object :=
  match args with
  | s :: b :: .object (.pool pool) :: labels =>
    .hop { sells := s.toText, buys := b.toText, pool, exchange := (labels.headD .null).toText,
           address := (labels.getD 1 .null).toText }
  | _ => .hop {}

/-- The constructors of a class. Pools and swaps of a snapshot are not made by scripts. -/
def constructors : Class → List Constructor
  | .amountList => [plainConstructor (.amountList [])]
  | .stringList => [plainConstructor (.stringList [])]
  | .tradeAmounts => [plainConstructor (.tradeAmounts [])]
  | .pool =>
    let three := [Ty.word 64, .word 64, .word 32]
    [⟨three, fun _ args => pure (makePool args)⟩,
     ⟨three ++ [.member .poolKind], fun _ args => pure (makePool args)⟩]
  | .hop =>
    let three := [Ty.text, .text, .object .pool]
    [⟨three, fun _ args => pure (makeHop args)⟩,
     ⟨three ++ [.text], fun _ args => pure (makeHop args)⟩,
     ⟨three ++ [.text, .text], fun _ args => pure (makeHop args)⟩]
  | .route => [plainConstructor (.route [])]
  | .routeList => [plainConstructor (.routeList [])]
  | .record => [plainConstructor (.record {})]
  | .entry | .swap => []
  | .entryList => [plainConstructor (.entryList [])]
  | .swapList => [plainConstructor (.swapList [])]
  | .snapshot => [⟨[], fun host _ => do return .snapshot (← Snapshot.ofRecords host.address [])⟩]
  | .costParameters => [plainConstructor (.costParameters {})]
  | .costBreakdown => [plainConstructor (.costBreakdown {})]
  | .assessment => [plainConstructor (.assessment {})]
  | .evaluation => [plainConstructor (.evaluation {})]
  | .constraints => [plainConstructor (.constraints {})]
  | .opportunity => [plainConstructor (.opportunity {})]
  | .opportunityList => [plainConstructor (.opportunityList [])]
  | .report => [plainConstructor (.report {})]

end PoolArbitrage.Script
