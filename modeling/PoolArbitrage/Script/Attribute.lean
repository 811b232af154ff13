import PoolArbitrage.Script.Object

/-!
# The attributes of objects

An attribute is read from an object and, if a script may write it, written into it. An attribute
that is an object itself is a part: what a script does to the part happens to the whole, so parts
can be put back whether or not the attribute as such may be written.

**Shapes.** The objects of a class are the values of a type, wrapped (`Shape`).

**Codecs.** The values of a type are shown as data and read back from them (`Codec`). A value comes
back as it was, and so does a datum of the right type and range.

Each class lists its attributes over the type of its values (`Attribute`), and `attributes` brings
the lists together over objects. A list class is told by the codec of its elements (`ListShape`).
-/

namespace PoolArbitrage.Script

/-! ## Shapes -/

/-- The objects of a class are the values of a type, wrapped. -/
structure Shape (σ : Type) where
  cls : Class
  wrap : σ → Object
  view : Object → Option σ
  cls_wrap : ∀ s, (wrap s).cls = cls := by intro s; rfl
  view_wrap : ∀ s, view (wrap s) = some s := by intro s; rfl
  exists_wrap : ∀ o, o.cls = cls → ∃ s, wrap s = o := by
    intro o h; cases o <;> first | exact ⟨_, rfl⟩ | cases h

namespace Shape

def pool : Shape Pool where
  cls := .pool
  wrap := .pool
  view := fun | .pool p => some p | _ => none

def hop : Shape Hop where
  cls := .hop
  wrap := .hop
  view := fun | .hop h => some h | _ => none

def route : Shape Route where
  cls := .route
  wrap := .route
  view := fun | .route r => some r | _ => none

def record : Shape PoolRecord where
  cls := .record
  wrap := .record
  view := fun | .record r => some r | _ => none

def snapshot : Shape Snapshot where
  cls := .snapshot
  wrap := .snapshot
  view := fun | .snapshot s => some s | _ => none

/-- A pool of a snapshot, with the number of the snapshot and its schedule. -/
def entry : Shape (Nat × FeeSchedule × PoolEntry) where
  cls := .entry
  wrap := fun (home, fees, p) => .entry home fees p
  view := fun | .entry home fees p => some (home, fees, p) | _ => none
  exists_wrap o h := by cases o <;> first | exact ⟨(_, _, _), rfl⟩ | cases h

/-- A swap of a snapshot, with the number of the snapshot and its schedule. -/
def swap : Shape (Nat × FeeSchedule × Swap) where
  cls := .swap
  wrap := fun (home, fees, w) => .swap home fees w
  view := fun | .swap home fees w => some (home, fees, w) | _ => none
  exists_wrap o h := by cases o <;> first | exact ⟨(_, _, _), rfl⟩ | cases h

def costParameters : Shape CostParameters where
  cls := .costParameters
  wrap := .costParameters
  view := fun | .costParameters p => some p | _ => none

def costBreakdown : Shape CostBreakdown where
  cls := .costBreakdown
  wrap := .costBreakdown
  view := fun | .costBreakdown c => some c | _ => none

def assessment : Shape Assessment where
  cls := .assessment
  wrap := .assessment
  view := fun | .assessment a => some a | _ => none

def evaluation : Shape Evaluation where
  cls := .evaluation
  wrap := .evaluation
  view := fun | .evaluation e => some e | _ => none

def constraints : Shape Constraints where
  cls := .constraints
  wrap := .constraints
  view := fun | .constraints c => some c | _ => none

def opportunity : Shape Opportunity where
  cls := .opportunity
  wrap := .opportunity
  view := fun | .opportunity o => some o | _ => none

def report : Shape Report where
  cls := .report
  wrap := .report
  view := fun | .report r => some r | _ => none

def tradeAmounts : Shape TradeAmounts where
  cls := .tradeAmounts
  wrap := .tradeAmounts
  view := fun | .tradeAmounts m => some m | _ => none

def amountList : Shape (List Amount) where
  cls := .amountList
  wrap := .amountList
  view := fun | .amountList l => some l | _ => none

def stringList : Shape (List String) where
  cls := .stringList
  wrap := .stringList
  view := fun | .stringList l => some l | _ => none

def routeList : Shape (List Route) where
  cls := .routeList
  wrap := .routeList
  view := fun | .routeList l => some l | _ => none

def entryList : Shape (List (Option EntryRef)) where
  cls := .entryList
  wrap := .entryList
  view := fun | .entryList l => some l | _ => none

def swapList : Shape (List (Option SwapRef)) where
  cls := .swapList
  wrap := .swapList
  view := fun | .swapList l => some l | _ => none

def opportunityList : Shape (List Opportunity) where
  cls := .opportunityList
  wrap := .opportunityList
  view := fun | .opportunityList l => some l | _ => none

end Shape

/-! ## Codecs -/

/-- How the values of a type are shown as data of one type, and read back from them. -/
structure Codec (τ : Type) where
  ty : Ty
  toDatum : τ → Datum
  ofDatum : Datum → Option τ
  ofDatum_toDatum : ∀ t, ofDatum (toDatum t) = some t
  exists_toDatum : ∀ d, ty.Holds d → ∃ t, toDatum t = d
  cls_eq : ∀ t o, toDatum t = .object o → ty = .object o.cls

namespace Codec

def amount : Codec Amount where
  ty := .word 64
  toDatum := .ofAmount
  ofDatum d := some d.toAmount
  ofDatum_toDatum a := by simp [Datum.ofAmount, Datum.toAmount, Datum.toInt]
  exists_toDatum d h := by
    cases d with
    | int n =>
      obtain ⟨hlo, hhi⟩ : 0 ≤ n ∧ n < 18446744073709551616 := h
      have hlt : n.toNat < 18446744073709551616 := by omega
      refine ⟨.ofNat n.toNat, congrArg Datum.int ?_⟩
      rw [UInt64.toNat_ofNat_of_lt' hlt, Int.toNat_of_nonneg hlo]
    | _ => cases h
  cls_eq _ _ h := by cases h

def word : Codec UInt32 where
  ty := .word 32
  toDatum := .ofWord
  ofDatum d := some d.toWord
  ofDatum_toDatum w := by simp [Datum.ofWord, Datum.toWord, Datum.toInt]
  exists_toDatum d h := by
    cases d with
    | int n =>
      obtain ⟨hlo, hhi⟩ : 0 ≤ n ∧ n < 4294967296 := h
      have hlt : n.toNat < 4294967296 := by omega
      refine ⟨.ofNat n.toNat, congrArg Datum.int ?_⟩
      rw [UInt32.toNat_ofNat_of_lt' hlt, Int.toNat_of_nonneg hlo]
    | _ => cases h
  cls_eq _ _ h := by cases h

def signed32 : Codec Int32 where
  ty := .signed 32
  toDatum n := .int n.toInt
  ofDatum d := some (.ofInt d.toInt)
  ofDatum_toDatum n := by simp [Datum.toInt]
  exists_toDatum d h := by
    cases d with
    | int n =>
      obtain ⟨hlo, hhi⟩ : -4294967296 ≤ 2 * n ∧ 2 * n < 4294967296 := h
      exact ⟨.ofInt n, congrArg Datum.int (Int32.toInt_ofInt_of_le (by omega) (by omega))⟩
    | _ => cases h
  cls_eq _ _ h := by cases h

def signed64 : Codec Int64 where
  ty := .signed 64
  toDatum n := .int n.toInt
  ofDatum d := some (.ofInt d.toInt)
  ofDatum_toDatum n := by simp [Datum.toInt]
  exists_toDatum d h := by
    cases d with
    | int n =>
      obtain ⟨hlo, hhi⟩ : -18446744073709551616 ≤ 2 * n ∧ 2 * n < 18446744073709551616 := h
      exact ⟨.ofInt n, congrArg Datum.int (Int64.toInt_ofInt_of_le (by omega) (by omega))⟩
    | _ => cases h
  cls_eq _ _ h := by cases h

def bool : Codec Bool where
  ty := .bool
  toDatum := .bool
  ofDatum d := some d.toBool
  ofDatum_toDatum _ := rfl
  exists_toDatum d h := by
    cases d with
    | bool b => exact ⟨b, rfl⟩
    | _ => cases h
  cls_eq _ _ h := by cases h

def text : Codec String where
  ty := .text
  toDatum := .text
  ofDatum d := some d.toText
  ofDatum_toDatum _ := rfl
  exists_toDatum d h := by
    cases d with
    | text t => exact ⟨t, rfl⟩
    | _ => cases h
  cls_eq _ _ h := by cases h

def float : Codec Float where
  ty := .float
  toDatum := .float
  ofDatum d := some d.toFloat
  ofDatum_toDatum _ := rfl
  exists_toDatum d h := by
    cases d with
    | float x => exact ⟨x, rfl⟩
    | _ => cases h
  cls_eq _ _ h := by cases h

/-- The kind of a pool, of which there is one. -/
def kind : Codec PoolKind where
  ty := .member .poolKind
  toDatum | .constantProduct => .member .poolKind 0
  ofDatum _ := some .constantProduct
  ofDatum_toDatum _ := rfl
  exists_toDatum d h := by
    cases d with
    | member e i =>
      obtain ⟨rfl, hi⟩ := h
      exact ⟨.constantProduct, by rw [Nat.lt_one_iff.1 hi]⟩
    | _ => cases h
  cls_eq _ _ h := by cases h

/-- A pool of a snapshot, if there is one. -/
def entry : Codec (Option EntryRef) where
  ty := .entry
  toDatum r := r.elim .null .entry
  ofDatum
    | .entry r => some (some r)
    | _ => some none
  ofDatum_toDatum r := by cases r <;> rfl
  exists_toDatum d h := by
    cases d with
    | null => exact ⟨none, rfl⟩
    | entry r => exact ⟨some r, rfl⟩
    | _ => cases h
  cls_eq r _ h := by cases r <;> cases h

/-- A swap of a snapshot, if there is one. -/
def swap : Codec (Option SwapRef) where
  ty := .swap
  toDatum r := r.elim .null .swap
  ofDatum
    | .swap r => some (some r)
    | _ => some none
  ofDatum_toDatum r := by cases r <;> rfl
  exists_toDatum d h := by
    cases d with
    | null => exact ⟨none, rfl⟩
    | swap r => exact ⟨some r, rfl⟩
    | _ => cases h
  cls_eq r _ h := by cases r <;> cases h

/-- The objects of a shape. -/
def object {σ : Type} (shape : Shape σ) : Codec σ where
  ty := .object shape.cls
  toDatum s := .object (shape.wrap s)
  ofDatum
    | .object o => shape.view o
    | _ => none
  ofDatum_toDatum := shape.view_wrap
  exists_toDatum d h := by
    cases d with
    | object o => exact (shape.exists_wrap o h).imp fun _ => congrArg Datum.object
    | _ => cases h
  cls_eq s o h := by
    cases h
    rw [shape.cls_wrap]

/-- A datum of the type is read as the value that is shown as it. -/
theorem toDatum_ofDatum {τ : Type} (c : Codec τ) {d : Datum} (h : c.ty.Holds d) :
    ∃ t, c.ofDatum d = some t ∧ c.toDatum t = d := by
  obtain ⟨t, rfl⟩ := c.exists_toDatum d h
  exact ⟨t, c.ofDatum_toDatum t, rfl⟩

end Codec

/-! ## Attributes -/

/-- What a script may do with an attribute. -/
inductive Access where
  | readWrite
  | readOnly
  | property
  deriving DecidableEq, Repr

/-- An attribute of a value: how it is read, and how a converted datum or a changed part is put
back. -/
structure Attribute (σ : Type) where
  name : String
  access : Access
  ty : Ty
  get : σ → Datum
  put : σ → Datum → σ

namespace Attribute

variable {σ τ : Type}

/-- An attribute that is only shown. -/
def shown (name : String) (get : σ → Datum) : Attribute σ :=
  ⟨name, .readOnly, .text, get, fun s _ => s⟩

/-- An attribute that is computed for whoever reads it. -/
def property (name : String) (get : σ → Datum) : Attribute σ :=
  { shown name get with access := .property }

/-- An attribute that a script may write. -/
def field (name : String) (c : Codec τ) (get : σ → τ) (put : σ → τ → σ) : Attribute σ :=
  ⟨name, .readWrite, c.ty, fun s => c.toDatum (get s), fun s d => (c.ofDatum d).elim s (put s)⟩

/-- A part that a script may change but not replace. -/
def part (name : String) (shape : Shape τ) (get : σ → τ) (put : σ → τ → σ) : Attribute σ :=
  { field name (.object shape) get put with access := .readOnly }

/-- An attribute of the value inside an object. -/
def lift (f : Attribute σ) (shape : Shape σ) : Attribute Object :=
  { f with
    get := fun o => (shape.view o).elim .null f.get
    put := fun o d => (shape.view o).elim o fun s => shape.wrap (f.put s d) }

end Attribute

open Attribute

def verdictIndex : Verdict → Nat
  | .profitable => 0
  | .belowThreshold => 1
  | .notProfitable => 2

def evalErrorIndex : EvalErrorKind → Nat
  | .ok => 0
  | .invalidReserves => 1
  | .insufficientLiquidity => 2

def routeErrorIndex : RouteErrorKind → Nat
  | .ok => 0
  | .tooShort => 1
  | .tooLong => 2
  | .circular => 3
  | .disconnected => 4

/-! ## The attributes of each class -/

def poolAttributes : List (Attribute Pool) :=
  [field "reserve_in" .amount (·.reserveIn) fun p a => { p with reserveIn := a },
   field "reserve_out" .amount (·.reserveOut) fun p a => { p with reserveOut := a },
   field "fee_bps" .word (·.fee) fun p w => { p with fee := w },
   field "kind" .kind (·.kind) fun p k => { p with kind := k }]

def hopAttributes : List (Attribute Hop) :=
  [field "from_token" .text (·.sells) fun h t => { h with sells := t },
   field "to_token" .text (·.buys) fun h t => { h with buys := t },
   field "pool" (.object .pool) (·.pool) fun h p => { h with pool := p },
   field "dex_name" .text (·.exchange) fun h t => { h with exchange := t },
   field "pool_address" .text (·.address) fun h t => { h with address := t }]

def recordAttributes : List (Attribute PoolRecord) :=
  [field "pool_address" .text (·.address) fun r t => { r with address := t },
   field "token_a" .text (·.tokenA) fun r t => { r with tokenA := t },
   field "token_b" .text (·.tokenB) fun r t => { r with tokenB := t },
   field "reserve_a" .amount (·.reserveA) fun r a => { r with reserveA := a },
   field "reserve_b" .amount (·.reserveB) fun r a => { r with reserveB := a },
   field "fee_bps" .signed32 (·.fee) fun r n => { r with fee := n },
   field "dex_name" .text (·.exchange) fun r t => { r with exchange := t },
   field "kind" .kind (·.kind) fun r k => { r with kind := k }]

/-- A pool of a snapshot, with the number of the snapshot and its schedule. -/
def entryAttributes : List (Attribute (Nat × FeeSchedule × PoolEntry)) :=
  [shown "tag" fun (_, _, p) => .ofNat p.tag,
   shown "address" fun (_, _, p) => .text p.address,
   shown "token_a" fun (_, _, p) => .text p.tokenA,
   shown "token_b" fun (_, _, p) => .text p.tokenB,
   shown "reserve_a" fun (_, _, p) => .ofAmount p.reserveA,
   shown "reserve_b" fun (_, _, p) => .ofAmount p.reserveB,
   shown "dex_name" fun (_, _, p) => .text p.exchange]

/-- A swap is shown with the number of its snapshot, which its pool is found by. -/
def swapAttributes : List (Attribute (Nat × FeeSchedule × Swap)) :=
  [shown "tokenSrc" fun (_, _, w) => .text w.sells,
   shown "tokenDest" fun (_, _, w) => .text w.buys,
   property "pool" fun (home, _, w) => .entry ⟨home, w.pool.tag⟩]

def costParameterAttributes : List (Attribute CostParameters) :=
  [field "network_base_fee" .amount (·.networkFee) fun p a => { p with networkFee := a },
   field "priority_fee" .amount (·.priorityFee) fun p a => { p with priorityFee := a },
   field "safety_margin_pct" .float (·.safetyMarginPct) fun p x => { p with safetyMarginPct := x }]

def costBreakdownAttributes : List (Attribute CostBreakdown) :=
  [shown "network_base_fee" fun c => .ofAmount c.networkFee,
   shown "priority_fee" fun c => .ofAmount c.priorityFee,
   shown "dex_fees_total" fun c => .ofAmount c.exchangeFees,
   shown "slippage_cost" fun c => .ofAmount c.slippageCost,
   shown "price_impact_cost" fun c => .ofAmount c.impactCost,
   shown "safety_margin" fun c => .ofAmount c.safetyMargin,
   shown "total_cost" fun c => .ofAmount c.total]

def assessmentAttributes : List (Attribute Assessment) :=
  [shown "gross_profit" fun a => .ofAmount a.grossProfit,
   shown "net_profit" fun a => .ofAmount a.netProfit,
   shown "net_profit_bps" fun a => .ofAmount a.netBps,
   shown "profitable" fun a => .bool a.profitable,
   shown "verdict" fun a => .member .verdict (verdictIndex a.verdict)]

def evaluationAttributes : List (Attribute Evaluation) :=
  [shown "amount_in" fun e => .ofAmount e.amountIn,
   part "per_hop_outputs" .amountList (·.outputs) fun e l => { e with outputs := l },
   shown "final_amount_out" fun e => .ofAmount e.finalOut,
   shown "failed" fun e => .bool e.failed,
   shown "error" fun e => .member .evalError (evalErrorIndex e.error),
   shown "failed_hop" fun e => .ofNat e.failedHop,
   shown "error_message" fun e => .text e.errorMessage]

def constraintAttributes : List (Attribute Constraints) :=
  [field "min_profit_bps" .signed64 (·.minProfitBps) fun c n => { c with minProfitBps := n },
   field "max_same_token_repeats" .word (·.maxTokenRepeats) fun c w =>
     { c with maxTokenRepeats := w },
   field "min_hops" .word (·.minHops) fun c w => { c with minHops := w },
   field "max_hops" .word (·.maxHops) fun c w => { c with maxHops := w },
   field "costs" (.object .costParameters) (·.costs) fun c p => { c with costs := p },
   field "default_trade_amount" .amount (·.defaultAmount) fun c a => { c with defaultAmount := a },
   field "trade_amounts" (.object .tradeAmounts) (·.amounts) fun c m => { c with amounts := m },
   field "start_tokens" (.object .stringList) (·.startTokens) fun c l =>
     { c with startTokens := l },
   field "max_lp_reserves_stress" .float (·.maxStress) fun c x => { c with maxStress := x },
   field "optimize_amount" .bool (·.optimize) fun c b => { c with optimize := b },
   field "trade_amount_min" .amount (·.searchMin) fun c a => { c with searchMin := a },
   field "trade_amount_max" .amount (·.searchMax) fun c a => { c with searchMax := a },
   field "match_limit" .word (·.matchLimit) fun c w => { c with matchLimit := w },
   field "limit" .word (·.limit) fun c w => { c with limit := w },
   field "threads" .word (·.threads) fun c w => { c with threads := w }]

def opportunityAttributes : List (Attribute Opportunity) :=
  [part "route" .route (·.route) fun o r => { o with route := r },
   shown "route_id" fun o => .ofId o.id,
   shown "buy_dex" fun o => .text o.buyExchange,
   shown "sell_dex" fun o => .text o.sellExchange,
   shown "buy_price" fun o => .float o.buyPrice,
   shown "sell_price" fun o => .float o.sellPrice,
   shown "amount_in" fun o => .ofAmount o.amountIn,
   shown "gross_amount_out" fun o => .ofAmount o.grossOut,
   shown "gross_profit" fun o => .ofAmount o.grossProfit,
   part "total_cost" .costBreakdown (·.cost) fun o c => { o with cost := c },
   shown "net_profit" fun o => .ofAmount o.netProfit,
   shown "net_profit_bps" fun o => .ofAmount o.netBps,
   shown "profitable" fun o => .bool o.profitable,
   shown "verdict" fun o => .member .verdict (verdictIndex o.verdict),
   part "per_hop_outputs" .amountList (·.outputs) fun o l => { o with outputs := l },
   shown "confidence_score" fun o => .float o.confidence,
   property "timestamp" fun _ => .moment]

def reportAttributes : List (Attribute Report) :=
  [part "opportunities" .opportunityList (·.opportunities) fun r l => { r with opportunities := l },
   shown "candidates" fun r => .ofNat r.candidates,
   shown "rejected_by_guard" fun r => .ofNat r.rejectedByGuard,
   shown "skipped_no_amount" fun r => .ofNat r.noAmount,
   shown "failed_evaluation" fun r => .ofNat r.failed,
   shown "rejected_by_stress" fun r => .ofNat r.rejectedByStress,
   shown "unprofitable" fun r => .ofNat r.unprofitable,
   shown "evaluated" fun r => .ofNat r.evaluated,
   shown "deadline_hit" fun r => .bool r.deadlineHit,
   shown "config_error" fun r => .bool r.configError,
   part "diagnostics" .stringList (·.diagnostics) fun r l => { r with diagnostics := l }]

/-- The attributes of a class, given those of the values its objects hold. -/
def liftAll {σ : Type} (shape : Shape σ) (fs : List (Attribute σ)) : List (Attribute Object) :=
  fs.map (·.lift shape)

/-- The attributes of a class. -/
def attributes : Class → List (Attribute Object)
  | .pool => liftAll .pool poolAttributes
  | .hop => liftAll .hop hopAttributes
  | .record => liftAll .record recordAttributes
  | .entry => liftAll .entry entryAttributes
  | .swap => liftAll .swap swapAttributes
  | .costParameters => liftAll .costParameters costParameterAttributes
  | .costBreakdown => liftAll .costBreakdown costBreakdownAttributes
  | .assessment => liftAll .assessment assessmentAttributes
  | .evaluation => liftAll .evaluation evaluationAttributes
  | .constraints => liftAll .constraints constraintAttributes
  | .opportunity => liftAll .opportunity opportunityAttributes
  | .report => liftAll .report reportAttributes
  | .amountList | .stringList | .tradeAmounts | .route | .routeList | .entryList | .swapList
  | .snapshot | .opportunityList => []

/-- An attribute of an object by its name. -/
def Object.attribute? (o : Object) (name : String) : Option (Attribute Object) :=
  (attributes o.cls).find? (·.name == name)

/-! ## Elements of lists -/

/-- How the objects of a class are lists, and their elements data. -/
structure ListShape where
  {σ : Type}
  codec : Codec σ
  shape : Shape (List σ)

/-- The list classes. -/
def listShape? : Class → Option ListShape
  | .amountList => some ⟨.amount, .amountList⟩
  | .stringList => some ⟨.text, .stringList⟩
  | .route => some ⟨.object .hop, .route⟩
  | .routeList => some ⟨.object .route, .routeList⟩
  | .entryList => some ⟨.entry, .entryList⟩
  | .swapList => some ⟨.swap, .swapList⟩
  | .opportunityList => some ⟨.object .opportunity, .opportunityList⟩
  | _ => none

/-- The type of the elements of a list class; none for other classes. -/
def elementTy? (c : Class) : Option Ty := (listShape? c).map (·.codec.ty)

namespace ListShape

def elements (l : ListShape) (o : Object) : List Datum :=
  ((l.shape.view o).getD []).map l.codec.toDatum

def ofElements (l : ListShape) (ds : List Datum) : Object :=
  l.shape.wrap (ds.filterMap l.codec.ofDatum)

end ListShape

namespace Object

/-- The elements of a list object. -/
def elements (o : Object) : List Datum := (listShape? o.cls).elim [] (·.elements o)

/-- The list object of the same class with other elements. -/
def withElements (o : Object) (ds : List Datum) : Object :=
  (listShape? o.cls).elim o (·.ofElements ds)

end Object

/-- Two elements of a list are the same. -/
def Datum.same : Datum → Datum → Bool
  | .int a, .int b => a == b
  | .text a, .text b => a == b
  | .null, .null => true
  | .entry a, .entry b => a == b
  | .swap a, .swap b => a == b
  | .object (.hop a), .object (.hop b) => a.same b
  | .object (.route a), .object (.route b) => a.same b
  | .object (.opportunity a), .object (.opportunity b) => a.same b
  | _, _ => false

end PoolArbitrage.Script
