import KeyDebounce.Config.Basic
import KeyDebounce.Toml.Syntax.Document
import KeyDebounce.Decimal.Shortest
import KeyDebounce.Text.Quoted
/-!
# Reading the configuration from a document

The root table is read as a record whose only field is `debounce`; other keys are ignored. The
section is a record whose fields must all be known. A record may also be given as an array, its
items filling the fields in order. A mismatch is reported at the offending value (or at its key,
when the value was never written), naming what was found and what was expected.
-/

set_option autoImplicit false

namespace KeyDebounce

open Toml

structure Mismatch where
  message : String
  span : Option Span
  deriving DecidableEq, Repr

namespace Mismatch

def orAt (e : Mismatch) (span : Option Span) : Mismatch :=
  if e.span.isSome then e else { e with span }

end Mismatch

def locate {α : Type} (span : Option Span) (r : Except Mismatch α) : Except Mismatch α :=
  match r with
  | .ok a => .ok a
  | .error e => .error (e.orAt span)

def floatText (x : Float) : String :=
  let text := Decimal.render x
  if x.isNaN || x.isInf || text.contains '.' then text else text ++ ".0"

def Toml.Item.unexpected : Item → String
  | .value (.scalar (.string s) _) => "string " ++ Text.quoted s
  | .value (.scalar (.integer n) _) => s!"integer `{n}`"
  | .value (.scalar (.float x) _) => s!"floating point `{floatText x}`"
  | .value (.scalar (.boolean b) _) => s!"boolean `{b}`"
  | .value (.scalar (.datetime _) _) => "map"
  | .value (.array _ _) => "sequence"
  | .value (.inline _ _ _) => "map"
  | .table _ => "map"
  | .tables _ _ => "sequence"

def invalidType (i : Item) (expected : String) : Mismatch :=
  ⟨s!"invalid type: {i.unexpected}, expected {expected}", none⟩

def oneOf (names : List String) : String :=
  match names with
  | [a] => s!"`{a}`"
  | [a, b] => s!"`{a}` or `{b}`"
  | _ => "one of " ++ ", ".intercalate (names.map fun n => s!"`{n}`")

def readByte (i : Item) : Except Mismatch Nat :=
  locate i.span? <|
    match i with
    | .value (.scalar (.integer n) _) =>
      if 0 ≤ n && n ≤ 255 then .ok n.toNat
      else .error ⟨s!"invalid value: integer `{n}`, expected u8", none⟩
    | _ => .error (invalidType i "u8")

def readBool (i : Item) : Except Mismatch Bool :=
  locate i.span? <|
    match i with
    | .value (.scalar (.boolean b) _) => .ok b
    | _ => .error (invalidType i "a boolean")

def algorithmNamed (name : String) : Except Mismatch Algorithm :=
  match Algorithm.ofConfigName? name with
  | some a => .ok a
  | none => .error ⟨s!"unknown variant `{name}`, expected {oneOf Algorithm.names}", none⟩

/-- The payload of a named algorithm must be empty. An array of tables is refused as an array,
and any other array or table as a table that should have been empty. -/
def emptyPayload (i : Item) : Except Mismatch Unit :=
  match i with
  | .tables ts span => if ts.isEmpty then .ok () else .error ⟨"expected empty array", span⟩
  | .value (.array items span) => if items.isEmpty then .ok () else .error ⟨"expected empty table", some span⟩
  | .table t => if t.entries.isEmpty then .ok () else .error ⟨"expected empty table", t.span⟩
  | .value (.inline es _ span) => if es.isEmpty then .ok () else .error ⟨"expected empty table", span⟩
  | _ => .error ⟨s!"expected table, found {i.typeName}", i.span?⟩

def algorithmOfEntries (entries : List (Key × Item)) (span : Option Span) : Except Mismatch Algorithm :=
  match entries with
  | [] => .error ⟨"wanted exactly 1 element, found 0 elements", span⟩
  | [(k, v)] => do
    let a ← locate (some k.span) (algorithmNamed k.name)
    emptyPayload v
    pure a
  | _ => .error ⟨"wanted exactly 1 element, more than 1 element", span⟩

def readAlgorithm (i : Item) : Except Mismatch Algorithm :=
  locate i.span? <|
    match i with
    | .value (.scalar (.string s) _) => algorithmNamed s
    | .value (.inline es _ span) => algorithmOfEntries (es.map fun (k, v) => (k, .value v)) span
    | .table t => algorithmOfEntries t.entries t.span
    | _ => .error ⟨"wanted string or table", none⟩

def DebounceConfig.fields : List String :=
  ["algorithm", "debounce_time", "debounce_down", "debounce_up", "quiesce_time", "use_frames"]

def DebounceConfig.setField (c : DebounceConfig) (name : String) (i : Item) :
    Except Mismatch DebounceConfig :=
  match name with
  | "algorithm" => do pure { c with algorithm := ← readAlgorithm i }
  | "debounce_time" => do pure { c with debounceTime := ← readByte i }
  | "debounce_down" => do pure { c with debounceDown := some (← readByte i) }
  | "debounce_up" => do pure { c with debounceUp := some (← readByte i) }
  | "quiesce_time" => do pure { c with quiesceTime := ← readByte i }
  | "use_frames" => do pure { c with useFrames := ← readBool i }
  | _ => .ok c

def DebounceConfig.ofEntries : List (Key × Item) → DebounceConfig → Except Mismatch DebounceConfig
  | [], c => .ok c
  | (k, i) :: rest, c =>
    if DebounceConfig.fields.contains k.name then do
      let c ← locate (some k.span) (c.setField k.name i)
      DebounceConfig.ofEntries rest c
    else
      .error ⟨s!"unknown field `{k.name}`, expected {oneOf DebounceConfig.fields}", some k.span⟩

/-- The section from items filling the fields in order; the press and release overrides have no
default in this form. -/
def DebounceConfig.ofItems (items : List Item) : Except Mismatch DebounceConfig :=
  let missing (n : Nat) : Mismatch :=
    ⟨s!"invalid length {n}, expected struct DebounceConfig with 6 elements", none⟩
  let field (n : Nat) : Option Item := items[n]?
  do
    let c : DebounceConfig := {}
    let c ← match field 0 with
      | some i => do pure { c with algorithm := ← readAlgorithm i }
      | none => pure c
    let c ← match field 1 with
      | some i => do pure { c with debounceTime := ← readByte i }
      | none => pure c
    let c ← match field 2 with
      | some i => do pure { c with debounceDown := some (← readByte i) }
      | none => throw (missing 2)
    let c ← match field 3 with
      | some i => do pure { c with debounceUp := some (← readByte i) }
      | none => throw (missing 3)
    let c ← match field 4 with
      | some i => do pure { c with quiesceTime := ← readByte i }
      | none => pure c
    match field 5 with
      | some i => do pure { c with useFrames := ← readBool i }
      | none => pure c

def datetimeFieldName : String := "$__toml_private_datetime"

def DebounceConfig.ofItem (i : Item) : Except Mismatch DebounceConfig :=
  locate i.span? <|
    match i with
    | .table t => DebounceConfig.ofEntries t.entries {}
    | .value (.inline es _ _) => DebounceConfig.ofEntries (es.map fun (k, v) => (k, .value v)) {}
    | .value (.array items _) => DebounceConfig.ofItems (items.map Item.value)
    | .tables ts _ => DebounceConfig.ofItems (ts.map Item.table)
    | .value (.scalar (.datetime _) _) =>
      .error ⟨s!"unknown field `{datetimeFieldName}`, expected {oneOf DebounceConfig.fields}", none⟩
    | _ => .error (invalidType i "struct DebounceConfig")

def DebounceConfig.ofRoot (root : Table) : Except Mismatch DebounceConfig :=
  match root.find? "debounce" with
  | some (k, i) => locate (some k.span) (DebounceConfig.ofItem i)
  | none => .ok {}

/-- Read and check the configuration in the text of a keyboard description. -/
def readConfig (src : String) : Except ConfigError DebounceConfig :=
  let spanPair (s : Option Span) : Option (Nat × Nat) := s.map fun s => (s.start, s.stop)
  match readDocument src with
  | .error e => .error (.tomlParse (report src e.message (spanPair e.span)))
  | .ok root =>
    match DebounceConfig.ofRoot root with
    | .error e => .error (.tomlParse (report src e.message (spanPair e.span)))
    | .ok c => c.validate

end KeyDebounce
