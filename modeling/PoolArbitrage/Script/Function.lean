import PoolArbitrage.Script.Method

/-!
# The functions of the library as a script calls them

A function takes arguments by position and, if it names its parameters, by keyword; a parameter
may have a default. It may read and change the log settings of the script (`LogSettings`), which
most functions leave alone, and take something from the host, which only the scans do.

**Scans** are given a timeout in milliseconds. One above zero sets a deadline, counted from the
moment of the call; zero sets none.
-/

namespace PoolArbitrage.Script

/-- The threshold of a script's log and where its lines go. -/
structure LogSettings where
  limit : Level := .info
  outlet : Outlet := .host
  deriving Inhabited

/-- A function; `keywords` names the parameters, with their defaults, or is empty. -/
structure Function where
  name : String
  params : List Ty
  keywords : List (String × Option Datum) := []
  run : Host → LogSettings → List Datum → Logged (Except ScriptError (LogSettings × Datum))

namespace Function

/-- A function that does not touch the log settings. -/
def hosted (name : String) (params : List Ty)
    (f : Host → List Datum → Logged (Except ScriptError Datum)) : Function where
  name
  params
  run host settings args := do
    let r ← f host args
    return r.map fun d => (settings, d)

/-- A function of its arguments alone. -/
def plain (name : String) (params : List Ty)
    (f : List Datum → Logged (Except ScriptError Datum)) : Function :=
  hosted name params fun _ => f

/-- A function of a pool's reserves, an amount and a fee. -/
def ofPool {α : Type} (name : String) (f : Pool → Amount → Except SwapError α) (show_ : α → Datum) :
    Function :=
  plain name [.word 64, .word 64, .word 64, .word 32] fun args =>
    match args with
    | [i, o, a, fee] =>
      let pool : Pool := { reserveIn := i.toAmount, reserveOut := o.toAmount, fee := fee.toWord }
      match f pool a.toAmount with
      | .ok x => pure (.ok (show_ x))
      | .error e => pure (.error (.ofSwap e))
    | _ => pure (.error .noOverload)

/-- The deadline that a timeout called for at a moment sets. -/
def deadlineOf (now : Moment) (timeout : Int) : Deadline :=
  if 0 < timeout then .after now timeout else none

/-- A scan as scripts start it. -/
def scanned (host : Host) (snapshot : Option Snapshot) (routes : List Route) (c : Constraints)
    (timeout : Int) : Logged (Except ScriptError Datum) := do
  let deadline := deadlineOf host.now timeout
  let report ← Scan.withSchedule host.mix host.schedule
    { snapshot, routes, constraints := c, deadline }
  return .ok (.object (.report report))

/-- The parameters of a scan of some subject. -/
def scanKeywords (subject : String) : List (String × Option Datum) :=
  [(subject, none), ("constraints", none), ("timeout_ms", some (.int 0))]

/-- The functions of the library. -/
def all : List Function :=
  [ofPool "amm_output" Pool.output .ofAmount,
   ofPool "amm_input_for_exact_output" Pool.inputFor .ofAmount,
   ofPool "price_impact" Pool.priceImpact .float,
   ofPool "slippage" Pool.slippage .float,
   plain "total_arbitrage_costs" [.word 64, .object .route, .object .costParameters] fun
     | [a, .object (.route r), .object (.costParameters p)] => do
       let c ← Cost.breakdownLogged p a.toAmount r
       return .ok (.object (.costBreakdown c))
     | _ => pure (.error .noOverload),
   plain "assess_profitability" [.word 64, .word 64, .object .costBreakdown, .word 64] fun
     | [a, g, .object (.costBreakdown c), m] => do
       let decision ← assessLogged a.toAmount g.toAmount c.total m.toAmount
       match decision with
       | .ok v => return .ok (.object (.assessment v))
       | .error e => return .error (.zeroDivision e.message)
     | _ => pure (.error .noOverload),
   plain "check_route" [.object .route, .word 32] fun
     | [.object (.route r), k] =>
       pure (.ok (.member .routeError (routeErrorIndex (Route.check r k.toWord))))
     | _ => pure (.error .noOverload),
   plain "validate_route" [.object .route, .word 32] fun
     | [.object (.route r), k] =>
       match Route.validate r k.toWord with
       | .ok () => pure (.ok .null)
       | .error e => pure (.error (.value s!"{e.kind.name}: {e.message}"))
     | _ => pure (.error .noOverload),
   plain "evaluate_route" [.object .route, .word 64] fun
     | [.object (.route r), a] => pure (.ok (.object (.evaluation (Route.evaluate r a.toAmount))))
     | _ => pure (.error .noOverload),
   plain "evaluate_route_max_yield"
     [.object .route, .word 64, .word 64, .object .costParameters] fun
     | [.object (.route r), lo, hi, .object (.costParameters p)] => do
       let e ← Search.evaluateBest p r lo.toAmount hi.toAmount Search.defaultLevels
       return .ok (.object (.evaluation e))
     | _ => pure (.error .noOverload),
   plain "find_routes" [.object .snapshot, .text, .word 32, .word 32] fun
     | [.object (.snapshot s), .text start, least, most] => do
       let found ← s.discover start least.toInt.toNat most.toInt.toNat 0
       return .ok (.object (.routeList found.state.toList))
     | _ => pure (.error .noOverload),
   { hosted "scan" [.object .snapshot, .object .constraints, .word 32] fun
       | host, [.object (.snapshot s), .object (.constraints c), timeout] =>
         scanned host (some s) [] c timeout.toInt
       | _, _ => pure (.error .noOverload) with
     keywords := scanKeywords "snapshot" },
   { hosted "scan_routes" [.object .routeList, .object .constraints, .word 32] fun
       | host, [.object (.routeList rs), .object (.constraints c), timeout] =>
         scanned host none rs c timeout.toInt
       | _, _ => pure (.error .noOverload) with
     keywords := scanKeywords "routes" },
   { name := "log_get_level"
     params := []
     run := fun _ settings _ => pure (.ok (settings, .member .logLevel settings.limit.rank)) },
   { name := "log_set_level"
     params := [.member .logLevel]
     run := fun _ settings args =>
       match args with
       | [.member _ i] =>
         pure (.ok ({ settings with limit := (Level.ofRank? i).getD settings.limit }, .null))
       | _ => pure (.error .noOverload) },
   { name := "log_register_sink"
     params := [.any]
     run := fun _ settings args =>
       match args with
       | [.outlet o] => pure (.ok ({ settings with outlet := o }, .null))
       | [.null] => pure (.ok ({ settings with outlet := .console }, .null))
       | _ => pure (.ok ({ settings with outlet := .unfit }, .null)) }]

def ofName? (n : String) : Option Function := all.find? (·.name == n)

/-- The arguments of a call in the order of the parameters: those given by position, then those
given by keyword or left to their defaults. -/
def arrange (f : Function) (args : List Datum) (named : List (String × Datum)) :
    Except ScriptError (List Datum) :=
  if f.keywords.isEmpty then
    if named.isEmpty then .ok args else .error .noOverload
  else
    let rest := f.keywords.drop args.length
    if named.any fun (n, _) => !rest.any (·.1 == n) then .error .noOverload
    else do
      let filled ← rest.mapM fun (n, default) =>
        match (named.lookup n).or default with
        | some d => Except.ok d
        | none => .error ScriptError.noOverload
      return args ++ filled

end Function

end PoolArbitrage.Script
