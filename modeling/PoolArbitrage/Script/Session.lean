import PoolArbitrage.Script.Function

/-!
# Running a script

A session holds the objects a script made, numbered in the order they came to be, the variables,
and the log settings. Steps run one after the other; a step that fails changes nothing, and the next
one runs. What a step does not compute itself it gets from its host.

**References.** A variable holds a datum or a reference: the number of an object and the way to
one of its parts, through attributes and list positions. Parts are read and changed in place, so
two references to one object see each other's changes.

**Copies.** What is passed to a function, appended to a list or written to an attribute is the
object as it is then. What a function gives is a new object.

**Order.** A call looks up the variable it is on, then its arguments, and only then what is called.
A write looks up the attribute first and its value last.
-/

namespace PoolArbitrage.Script

/-- One stretch of the way to a part. -/
inductive Stretch where
  | field (name : String)
  | item (i : Nat)
  deriving DecidableEq, Repr

/-- An object of a session, or a part of one. -/
structure Reference where
  object : Nat
  way : List Stretch := []
  deriving DecidableEq, Repr

/-- What a variable holds. -/
inductive Value where
  | datum (d : Datum)
  | reference (r : Reference)
  deriving Inhabited

/-- The part of an object at the end of a way. -/
def Object.part? (o : Object) : List Stretch → Option Object
  | [] => some o
  | .field name :: way =>
    match o.attribute? name with
    | none => none
    | some f =>
      match f.get o with
      | .object p => p.part? way
      | _ => none
  | .item i :: way =>
    match o.elements[i]? with
    | some (.object p) => p.part? way
    | _ => none

/-- The object with the part at the end of a way exchanged for another. -/
def Object.withPart (o new : Object) : List Stretch → Object
  | [] => new
  | .field name :: way =>
    match o.attribute? name with
    | none => o
    | some f =>
      match f.get o with
      | .object p => f.put o (.object (p.withPart new way))
      | _ => o
  | .item i :: way =>
    match o.elements[i]? with
    | some (.object p) => o.withElements (o.elements.set i (.object (p.withPart new way)))
    | _ => o

/-- The state between two steps. -/
structure Session where
  objects : List Object := []
  bindings : List (String × Value) := []
  settings : LogSettings := {}
  deriving Inhabited

/-- An argument as a step gives it. -/
inductive Argument where
  | datum (d : Datum)
  | named (name : String)
  | member (enumeration name : String)
  | constant (name : String)

/-- A step of a script; a result may be bound to a variable. -/
inductive Step where
  | make (cls : String) (args : List Argument) (bound : Option String)
  | call (function : String) (args : List Argument) (named : List (String × Argument))
      (bound : Option String)
  | invoke (on method : String) (args : List Argument) (bound : Option String)
  | read (on field : String) (bound : Option String)
  | write (on field : String) (value : Argument)
  | list (on : String) (bound : Option String)

/-- What a step answers: one value, or the elements of a list. -/
inductive Reply where
  | one (v : Value)
  | many (vs : List Value)

namespace Session

/-! ## Values -/

/-- What a variable holds; the latest binding counts. -/
def valueOf? (s : Session) (name : String) : Except ScriptError Value :=
  match s.bindings.lookup name with
  | some v => .ok v
  | none => .error .noName

/-- The object a reference leads to. -/
def deref? (s : Session) (r : Reference) : Option Object :=
  (s.objects[r.object]?).bind (·.part? r.way)

/-- A pool of one of the session's snapshots, with the schedule of the snapshot. -/
def entry? (s : Session) (r : EntryRef) : Option (FeeSchedule × PoolEntry) :=
  match s.objects[r.home]? with
  | some (.snapshot shot) => (shot.pool? r.tag).map fun p => (shot.fees, p)
  | _ => none

/-- The object behind a value, and the number of the object it belongs to. -/
def object? (s : Session) (v : Value) : Option (Nat × Object) :=
  match v with
  | .reference r => (s.deref? r).map fun o => (r.object, o)
  | .datum (.entry r) => (s.entry? r).map fun (fees, p) => (r.home, .entry r.home fees p)
  | .datum (.swap r) =>
    (s.entry? r.entry).map fun (fees, p) => (r.entry.home, .swap r.entry.home fees ⟨p, r.forward⟩)
  | .datum _ => none

/-- The datum that is passed on for a value: objects are passed as they are now. -/
def passed (s : Session) (v : Value) : Datum :=
  match v with
  | .datum d => d
  | .reference r => (s.deref? r).elim .null .object

/-- The value of an argument. -/
def argument (s : Session) : Argument → Except ScriptError Datum
  | .datum d => .ok d
  | .named name => do return s.passed (← s.valueOf? name)
  | .member enumeration name =>
    match Enumeration.ofName? enumeration with
    | none => .error .noAttribute
    | some e =>
      match e.members.findIdx? (· == name) with
      | some i => .ok (.member e i)
      | none => .error .noAttribute
  | .constant name =>
    match Enumeration.exported.members.findIdx? (· == name) with
    | some i => .ok (.member Enumeration.exported i)
    | none => .error .noAttribute

/-- The class name a value is shown by, if it is an object. -/
def className? (s : Session) (v : Value) : Option String := (s.object? v).map (·.2.cls.name)

/-- Keeps a result: a new object gets a number, anything else stays a datum. -/
def keep (s : Session) (d : Datum) : Session × Value :=
  match d with
  | .object o =>
    ({ s with objects := s.objects ++ [o] }, .reference { object := s.objects.length })
  | d => (s, .datum d)

/-- Binds a value to a variable, if a name is given. -/
def bind (s : Session) (bound : Option String) (v : Value) : Session :=
  match bound with
  | none => s
  | some name => { s with bindings := (name, v) :: s.bindings }

/-- Puts a changed object back where a value refers to it. -/
def store (s : Session) (v : Value) (o : Object) : Session :=
  match v with
  | .reference r =>
    { s with objects := s.objects.modify r.object fun whole => whole.withPart o r.way }
  | .datum _ => s

/-- The value of an attribute of an object: a part is referred to. -/
def partValue (v : Value) (stretch : Stretch) (d : Datum) : Value :=
  match v, d with
  | .reference r, .object _ => .reference { r with way := r.way ++ [stretch] }
  | _, d => .datum d

/-- The last registered overload that the arguments fit, with the arguments converted. -/
def overload {α : Type} (params : α → List Ty) (candidates : List α) (args : List Datum) :
    Except ScriptError (α × List Datum) :=
  match candidates.reverse.find? fun m => Ty.fitAll (params m) args with
  | none => .error .noOverload
  | some m => do return (m, ← Ty.convertAll (params m) args)

/-! ## Steps -/

/-- Keeps and binds a result. -/
def conclude (s : Session) (d : Datum) (bound : Option String) :
    Session × Except ScriptError Reply :=
  let (t, v) := s.keep d
  (t.bind bound v, .ok (.one v))

/-- Makes an object of a class. -/
def make (host : Host) (s : Session) (cls : String) (args : List Argument) (bound : Option String) :
    Logged (Session × Except ScriptError Reply) :=
  let prepared : Except ScriptError (Constructor × List Datum) := do
    let ds ← args.mapM s.argument
    let some c := Class.ofName? cls | throw .noAttribute
    overload Constructor.params (constructors c) ds
  match prepared with
  | .error e => pure (s, .error e)
  | .ok (k, ds) => do
    let o ← k.make host ds
    return s.conclude (.object o) bound

/-- Calls a function of the library; what it gives is a new object or a datum. -/
def call (host : Host) (s : Session) (function : String) (args : List Argument)
    (named : List (String × Argument)) (bound : Option String) :
    Logged (Session × Except ScriptError Reply) :=
  let prepared : Except ScriptError (Function × List Datum) := do
    let ds ← args.mapM s.argument
    let ns ← named.mapM fun (n, a) => do return (n, ← s.argument a)
    let some f := Function.ofName? function | throw .noAttribute
    overload Function.params [f] (← f.arrange ds ns)
  match prepared with
  | .error e => pure (s, .error e)
  | .ok (f, ds) => do
    let r ← f.run host s.settings ds
    match r with
    | .error e => return (s, .error e)
    | .ok (settings, d) => return { s with settings }.conclude d bound

/-- Calls a method of the object behind a value with data as arguments. -/
def invokeOn (host : Host) (s : Session) (v : Value) (method : String)
    (args : Session → Except ScriptError (List Datum)) :
    Logged (Except ScriptError (Session × Value)) :=
  let prepared : Except ScriptError (Object × Method Object × List Datum) := do
    let given ← args s
    let some (home, o) := s.object? v | throw .noAttribute
    let overloads := (o.methods home).filter (·.name == method)
    if overloads.isEmpty then throw .noAttribute
    let (m, ds) ← overload Method.params overloads given
    return (o, m, ds)
  match prepared with
  | .error e => pure (.error e)
  | .ok (o, m, ds) => do
    let r ← m.run host o ds
    match r with
    | .error e => return .error e
    | .ok (after, d) =>
      let t := s.store v after
      if method == "__getitem__" then
        let i := (position? o.elements.length (ds.headD .null).toInt).getD 0
        return .ok (t, partValue v (.item i) d)
      else return .ok (t.keep d)

/-- Calls a method of what a variable holds. -/
def invoke (host : Host) (s : Session) (on method : String) (args : List Argument)
    (bound : Option String) : Logged (Session × Except ScriptError Reply) :=
  match s.valueOf? on with
  | .error e => pure (s, .error e)
  | .ok v => do
    let r ← s.invokeOn host v method fun s => args.mapM s.argument
    match r with
    | .error e => return (s, .error e)
    | .ok (t, w) => return (t.bind bound w, .ok (.one w))

/-- The value of an attribute of what a variable holds; a part is referred to, anything else is
copied. -/
def fieldValue (s : Session) (on field : String) : Except ScriptError Value := do
  let v ← s.valueOf? on
  let some (_, o) := s.object? v | throw .noAttribute
  let some f := o.attribute? field | throw .noAttribute
  return partValue v (.field field) (f.get o)

/-- Reads an attribute. -/
def read (s : Session) (on field : String) (bound : Option String) :
    Session × Except ScriptError Reply :=
  match s.fieldValue on field with
  | .error e => (s, .error e)
  | .ok w => (s.bind bound w, .ok (.one w))

/-- The session with an attribute written, which changes the whole the object is a part of. -/
def written (s : Session) (on field : String) (value : Argument) : Except ScriptError Session := do
  let v ← s.valueOf? on
  let some (_, o) := s.object? v | throw .noAttribute
  let some f := o.attribute? field | throw .noAttribute
  if f.access ≠ .readWrite then throw .noAttribute
  let d ← s.argument value
  if !f.ty.fits d then throw .noOverload
  return s.store v (f.put o (← f.ty.convert d))

/-- Writes an attribute. -/
def write (s : Session) (on field : String) (value : Argument) :
    Session × Except ScriptError Reply :=
  match s.written on field value with
  | .error e => (s, .error e)
  | .ok t => (t, .ok (.one (.datum .null)))

/-- The elements from position `i` on, `n` in all. -/
def itemsFrom (host : Host) (v : Value) (s : Session) :
    Nat → Nat → Logged (Except ScriptError (Session × List Value))
  | _, 0 => pure (.ok (s, []))
  | i, n + 1 => do
    let r ← s.invokeOn host v "__getitem__" fun _ => .ok [.int i]
    match r with
    | .error e => return .error e
    | .ok (t, w) =>
      let rest ← itemsFrom host v t (i + 1) n
      return rest.map fun (u, ws) => (u, w :: ws)

/-- Asks for the length and then for each element in order. -/
def list (host : Host) (s : Session) (on : String) (bound : Option String) :
    Logged (Session × Except ScriptError Reply) :=
  match s.valueOf? on with
  | .error e => pure (s, .error e)
  | .ok v => do
    let counted ← s.invokeOn host v "__len__" fun _ => .ok []
    match counted with
    | .error e => return (s, .error e)
    | .ok (t, w) =>
      let items ← itemsFrom host v t 0 (t.passed w).toInt.toNat
      match items with
      | .error e => return (t, .error e)
      | .ok (u, vs) => return (u.bind bound w, .ok (.many vs))

/-- Runs one step. -/
def step (host : Host) (s : Session) : Step → Logged (Session × Except ScriptError Reply)
  | .make cls args bound => s.make host cls args bound
  | .call function args named bound => s.call host function args named bound
  | .invoke on method args bound => s.invoke host on method args bound
  | .read on field bound => pure (s.read on field bound)
  | .write on field value => pure (s.write on field value)
  | .list on bound => s.list host on bound

/-- What a step did: the session it left, its answer, the lines it logged, and where they went. -/
structure Record where
  after : Session
  reply : Except ScriptError Reply
  lines : List Message
  outlet : Outlet

/-- Runs one step under the log settings in force when it starts. -/
def advance (host : Host) (s : Session) (st : Step) : Record :=
  let ((after, reply), lines) := (s.step host st).run s.settings.limit
  { after, reply, lines, outlet := s.settings.outlet }

/-- Runs steps one after the other, each with a host of its own. -/
def run (s : Session) : List (Host × Step) → List Record
  | [] => []
  | (host, st) :: rest =>
    let record := s.advance host st
    record :: run record.after rest

/-- The session that steps leave. -/
def ended (s : Session) (steps : List (Host × Step)) : Session :=
  steps.foldl (fun s step => (s.advance step.1 step.2).after) s

end Session

end PoolArbitrage.Script
