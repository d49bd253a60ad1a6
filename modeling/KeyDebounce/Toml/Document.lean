/-!
# TOML documents

A document is a tree of tables. Every key and value remembers the byte range it was written at,
so that a later complaint about it can point there. Tables keep their entries in the order they
were first created. A table made only to hold a dotted key or a deeper header is implicit; one made
by a dotted key is also dotted. Inline tables and arrays are values; an array of tables is not.
-/

set_option autoImplicit false

namespace KeyDebounce.Toml

structure Span where
  start : Nat
  stop : Nat
  deriving DecidableEq, Repr

structure Key where
  name : String
  span : Span
  deriving DecidableEq, Repr

structure Date where
  year : Nat
  month : Nat
  day : Nat
  deriving DecidableEq, Repr

structure Time where
  hour : Nat
  minute : Nat
  second : Nat
  nanosecond : Nat
  deriving DecidableEq, Repr

inductive Offset where
  | utc
  | minutes (m : Int)
  deriving DecidableEq, Repr

structure Datetime where
  date : Option Date
  time : Option Time
  offset : Option Offset
  deriving DecidableEq, Repr

inductive Scalar where
  | string (s : String)
  | integer (n : Int)
  | float (x : Float)
  | boolean (b : Bool)
  | datetime (d : Datetime)

/-- A value written after `=` or inside an array. Inline tables made for a dotted key inside an
inline table are dotted and have no span. -/
inductive Value where
  | scalar (s : Scalar) (span : Span)
  | array (items : List Value) (span : Span)
  | inline (entries : List (Key × Value)) (dotted : Bool) (span : Option Span)

mutual
inductive Item where
  | value (v : Value)
  | table (t : Table)
  | tables (ts : List Table) (span : Option Span)

/-- A table: entries in creation order, how it came to be, and its range (the header to the last
value of its body). -/
inductive Table where
  | mk (entries : List (Key × Item)) (implicit dotted : Bool) (span : Option Span)
end

def Value.typeName : Value → String
  | .scalar (.string _) _ => "string"
  | .scalar (.integer _) _ => "integer"
  | .scalar (.float _) _ => "float"
  | .scalar (.boolean _) _ => "boolean"
  | .scalar (.datetime _) _ => "datetime"
  | .array _ _ => "array"
  | .inline _ _ _ => "inline table"

def Value.span? : Value → Option Span
  | .scalar _ s => some s
  | .array _ s => some s
  | .inline _ _ s => s

namespace Table

def empty : Table := .mk [] false false none

def entries : Table → List (Key × Item)
  | .mk e _ _ _ => e

def implicit : Table → Bool
  | .mk _ i _ _ => i

def dotted : Table → Bool
  | .mk _ _ d _ => d

def span : Table → Option Span
  | .mk _ _ _ s => s

def withEntries (t : Table) (e : List (Key × Item)) : Table := .mk e t.implicit t.dotted t.span

def withSpan (t : Table) (s : Option Span) : Table := .mk t.entries t.implicit t.dotted s

def find? (t : Table) (name : String) : Option (Key × Item) :=
  t.entries.find? (·.1.name == name)

def put (t : Table) (k : Key) (i : Item) : Table :=
  if t.entries.any (·.1.name == k.name) then
    t.withEntries (t.entries.map fun (k', i') => if k'.name == k.name then (k', i) else (k', i'))
  else t.withEntries (t.entries ++ [(k, i)])

def remove (t : Table) (name : String) : Table :=
  t.withEntries (t.entries.filter (·.1.name != name))

end Table

def Item.typeName : Item → String
  | .value v => v.typeName
  | .table _ => "table"
  | .tables _ _ => "array of tables"

def Item.span? : Item → Option Span
  | .value v => v.span?
  | .table t => t.span
  | .tables _ s => s

end KeyDebounce.Toml
