import PoolArbitrage.Log.Sink

/-!
# Log templates

The text of a statement may be a template: `%1%` stands for its first argument, `%2%` for the
second, and so on, in any order and any number of times; `%%` is a percent sign. Arguments are
put in as they are, whatever signs they hold themselves.

A statement that is not triggered never looks at its arguments (`Logger.statement`).
-/

namespace PoolArbitrage

namespace Template

/-- The template over its characters; `pending` holds the digits read since an open `%`. -/
def fillChars (args : List String) : Option (List Char) → List Char → List Char
  | none, [] => []
  | some digits, [] => '%' :: digits
  | none, '%' :: cs => fillChars args (some []) cs
  | none, c :: cs => c :: fillChars args none cs
  | some [], '%' :: cs => '%' :: fillChars args none cs
  | some digits, '%' :: cs =>
    let n := digits.foldl (fun n c => 10 * n + (c.toNat - '0'.toNat)) 0
    (args[n - 1]?.getD "").toList ++ fillChars args none cs
  | some digits, c :: cs =>
    if c.isDigit then fillChars args (some (digits ++ [c])) cs
    else '%' :: digits ++ c :: fillChars args none cs

/-- The template with its arguments put in. -/
def fill (template : String) (args : List String) : String :=
  String.ofList (fillChars args none template.toList)

example : fillChars ["a", "b"] none "%2% before %1%".toList = "b before a".toList := by
  decide +kernel
example : fillChars [] none "plain 100%%".toList = "plain 100%".toList := by decide +kernel
example : fillChars ["%2%", "b"] none "%1%".toList = "%2%".toList := by decide +kernel

end Template

/-- Emits a template of rank `r`, and tells how many arguments were looked at. -/
def Logger.statement (l : Logger) (r : Nat) (template : String) (args : List String) :
    Nat × Emission :=
  if l.triggers r then (args.length, l.emit r (Template.fill template args)) else (0, {})

end PoolArbitrage
