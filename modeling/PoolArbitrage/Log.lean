/-!
# Log statements and their threshold

A computation that writes log statements is a function of the threshold in force: a statement
below the threshold writes nothing. What is written comes out beside the value, in order.

**Levels** are ordered by `Level.rank`. A statement is triggered when its rank is at least the
threshold's. Ranks past the last level have no name but still compare.

**Value.** `Logged.value` is what a computation returns. It goes through `>>=`
(`Logged.value_bind`), so a logged computation is reasoned about as the plain one it wraps.

Main results: `Logged.value_bind` and `Logged.value_each`, `Logged.messages_bind` and
`Logged.messages_each`.
-/

namespace PoolArbitrage

/-- The importance of a log statement. -/
inductive Level where
  | trace
  | debug
  | info
  | warning
  | error
  deriving DecidableEq, Repr, Inhabited

namespace Level

/-- The levels in increasing order. -/
def all : List Level := [trace, debug, info, warning, error]

def name : Level → String
  | trace => "trace"
  | debug => "debug"
  | info => "info"
  | warning => "warning"
  | error => "error"

/-- The position of a level in the order. -/
def rank : Level → Nat
  | trace => 0
  | debug => 1
  | info => 2
  | warning => 3
  | error => 4

/-- The level of a rank, if there is one. -/
def ofRank? (r : Nat) : Option Level := all[r]?

/-- The name of a rank; a rank past the levels has none to show. -/
def rankName (r : Nat) : String := ((ofRank? r).map name).getD "?"

/-- A statement of rank `r` passes the threshold `limit`. -/
def triggers (limit : Level) (r : Nat) : Bool := limit.rank ≤ r

theorem ofRank?_rank (l : Level) : ofRank? l.rank = some l := by cases l <;> rfl

end Level

/-- A log line that passed the threshold. -/
structure Message where
  level : Level
  text : String
  deriving DecidableEq, Repr

/-- The line with its level, as a collected log shows it. -/
def Message.line (m : Message) : String := s!"{m.level.name}: {m.text}"

/-- A computation that writes log statements, run under a threshold. -/
def Logged (α : Type) := Level → α × List Message

namespace Logged

variable {α β : Type}

/-- Runs under a threshold: the value and the lines that passed. -/
def run (x : Logged α) (limit : Level) : α × List Message := x limit

instance : Monad Logged where
  pure a := fun _ => (a, [])
  bind x f := fun limit =>
    let r := x limit
    let s := f r.1 limit
    (s.1, r.2 ++ s.2)

/-- What the computation returns. -/
def value (x : Logged α) : α := (x.run .trace).1

/-- The lines written under a threshold. -/
def messages (x : Logged α) (limit : Level) : List Message := (x.run limit).2

/-- One log statement; its text is put together only where it passes the threshold. -/
def note (level : Level) (text : Thunk String) : Logged Unit := fun limit =>
  ((), if limit.triggers level.rank then [⟨level, text.get⟩] else [])

/-- One log statement, under a condition. -/
def noteIf (condition : Bool) (level : Level) (text : Thunk String) : Logged Unit :=
  if condition then note level text else pure ()

/-- Runs `f` on each element in order and keeps the results. -/
def each (f : α → Logged β) (as : List α) : Logged (List β) := fun limit =>
  let done := as.map fun a => (f a).run limit
  (done.map (·.1), done.flatMap (·.2))

/-- Writes one statement for each element in order. -/
def noteEach (level : Level) (text : α → String) (as : List α) : Logged Unit := fun limit =>
  ((), if limit.triggers level.rank then as.map fun a => ⟨level, text a⟩ else [])

@[simp] theorem value_pure (a : α) : value (pure a : Logged α) = a := rfl

@[simp] theorem value_bind (x : Logged α) (f : α → Logged β) :
    value (x >>= f) = value (f (value x)) := rfl

@[simp] theorem value_note (level : Level) (text : Thunk String) : value (note level text) = () :=
  rfl

@[simp] theorem value_each (f : α → Logged β) (as : List α) :
    value (each f as) = as.map fun a => value (f a) := by
  simp [value, run, each]

theorem messages_bind (x : Logged α) (f : α → Logged β) (limit : Level) :
    messages (x >>= f) limit = messages x limit ++ messages (f (x.run limit).1) limit := rfl

theorem messages_each (f : α → Logged β) (as : List α) (limit : Level) :
    messages (each f as) limit = as.flatMap fun a => messages (f a) limit := by
  simp [messages, run, each, List.flatMap_map]

end Logged

end PoolArbitrage
