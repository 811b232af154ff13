import PoolArbitrage.Script.Session

/-!
# What the library offers to scripts

The catalogue lists what a name of the library stands for: a class with its constructors,
attributes and methods, an enumeration with its members, or a function with its parameters. It
is read off the tables that scripts are run by, so it cannot differ from what they do.
-/

namespace PoolArbitrage.Script

/-- The catalogue entry of a name. -/
inductive Listing where
  /-- How many arguments each constructor takes, each attribute's access, how many arguments the
  overloads of each method take, and how the class is indexed. -/
  | cls (constructors : List Nat) (fields : List (String × Access))
      (methods : List (String × List Nat)) (indexing : Indexing)
  /-- The members with their numbers. -/
  | enumeration (members : List (String × Nat))
  /-- How many arguments, and the named parameters with their defaults. -/
  | function (arguments : Nat) (keywords : List (String × Option Datum))
  /-- All names. -/
  | library (classes enumerations functions constants : List String)

namespace Listing

def sortNames (l : List String) : List String := l.mergeSort fun a b => a ≤ b

def sortCounts (l : List Nat) : List Nat := l.mergeSort fun a b => a ≤ b

/-- The names of methods, each once, with the argument counts of their overloads. -/
def ofMethods (ms : List (Method Object)) : List (String × List Nat) :=
  (ms.map (·.name)).eraseDups.map fun n =>
    (n, sortCounts ((ms.filter (·.name == n)).map (·.params.length)))

def ofClass (c : Class) : Listing :=
  .cls (sortCounts ((constructors c).map (·.params.length)))
    ((attributes c).map fun f => (f.name, f.access)) (ofMethods (classMethods 0 c)) (indexing c)

def ofEnumeration (e : Enumeration) : Listing := .enumeration e.members.zipIdx

def whole : Listing :=
  .library (sortNames (Class.all.map (·.name))) (sortNames (Enumeration.all.map (·.name)))
    (sortNames (Function.all.map (·.name))) (sortNames Enumeration.exported.members)

/-- What a name stands for; the empty name stands for the library. -/
def ofName? (n : String) : Option Listing :=
  if n = "" then some whole
  else
    ((Class.ofName? n).map ofClass).or <|
      ((Enumeration.ofName? n).map ofEnumeration).or <|
        (Function.ofName? n).map fun f => .function f.params.length f.keywords

end Listing

end PoolArbitrage.Script
