import KeyDebounce.Toml.Syntax.Key
import KeyDebounce.Toml.Syntax.Numbers
import KeyDebounce.Toml.Syntax.Datetime
/-!
# Values

A value is recognised by its first character: a quote starts a string, `[` an array, `{` an
inline table, a sign or digit a date, time or number, `t`, `f`, `i`, `n` the words `true`,
`false`, `inf`, `nan`. Arrays and inline tables nest at most 79 deep. An inline table's pairs are
placed as in a table body, except that every conflict is reported without a table path.
-/

set_option autoImplicit false

namespace KeyDebounce.Toml

/-- Walk the dotted prefix `path` inside inline-table entries, creating dotted inline tables,
and apply `f` to the entries reached. -/
def descendInline {α : Type} (whole : List Key)
    (f : List (Key × Value) → Bool → Except Conflict (List (Key × Value) × α)) :
    Nat → List Key → List (Key × Value) → Bool → Except Conflict (List (Key × Value) × α)
  | _, [], entries, dotted => f entries dotted
  | i, k :: rest, entries, _ => do
    let v := match entries.find? (·.1.name == k.name) with
      | some (_, v) => v
      | none => .inline [] true none
    match v with
    | .inline inner innerDotted span =>
      if !innerDotted then throw (.duplicateKey k.name none)
      else
        let (inner', a) ← descendInline whole f (i + 1) rest inner innerDotted
        let v' := Value.inline inner' innerDotted span
        let entries' :=
          if entries.any (·.1.name == k.name) then
            entries.map fun (k', x) => if k'.name == k.name then (k', v') else (k', x)
          else entries ++ [(k, v')]
        pure (entries', a)
    | other => throw (.extendsNonTable ((whole.take (i + 1)).map (·.name)) other.typeName)

def inlineEntries : List (List Key × Key × Value) → List (Key × Value) → Except Conflict (List (Key × Value))
  | [], entries => pure entries
  | (path, key, v) :: more, entries => do
    let place (es : List (Key × Value)) (dotted : Bool) : Except Conflict (List (Key × Value) × Unit) :=
      if dotted == path.isEmpty then throw (.duplicateKey key.name none)
      else
        match es.find? (·.1.name == key.name) with
        | some (k', _) => throw (.duplicateKey k'.name none)
        | none => pure (es ++ [(key, v)], ())
    let (entries, ()) ← descendInline path place 0 path entries false
    inlineEntries more entries

namespace Parse

def tooDeep {α : Type} : Parse α := cut (failBecause Conflict.recursionLimit.message)

def asUnquotedString {α : Type} (p : Parse α) : Parse α :=
  expecting (.char '\'') (expecting (.char '"') (label "string" p))

def array (item : Parse Value) : Parse (List Value) := do
  byte (ascii '[')
  let items ← cut (do
    match ← lookAhead (attempt (byte (ascii ']'))) with
    | some () => pure []
    | none =>
      let items ← separated0 (do blanksCommentsNewlines; let v ← item; blanksCommentsNewlines; pure v)
        (byte (ascii ','))
      if !items.isEmpty then
        let _ ← attempt (byte (ascii ','))
      blanksCommentsNewlines
      pure items)
  expecting (.char ']') (label "array" (cut (byte (ascii ']'))))
  pure items

def inlinePair (item : Parse Value) : Parse (List Key × Key × Value) := do
  let keys ← key
  let v ← cut (do
    expecting (.char '=') (expecting (.char '.') (byte (ascii '=')))
    blanks
    let v ← item
    blanks
    pure v)
  pure (keys.dropLast, keys.getLast?.getD ⟨"", ⟨0, 0⟩⟩, v)

def inlineTable (item : Parse Value) : Parse (List (Key × Value)) := do
  byte (ascii '{')
  let entries ← cut (do
    let start ← get
    let pairs ← separated0 (inlinePair item) (byte (ascii ','))
    blanks
    match inlineEntries pairs [] with
    | .ok entries => pure entries
    | .error c => do set start; failBecause c.message)
  expecting (.char '}') (label "inline table" (cut (byte (ascii '}'))))
  pure entries

def valueWith (nested : Parse Value) (nestedTable : Parse Value) : Parse Value := do
  let start ← get
  let b ← lookAhead anyByte
  let scalar (p : Parse Scalar) : Parse Value := do
    let s ← p
    pure (.scalar s ⟨start, ← get⟩)
  if b = ascii '"' || b = ascii '\'' then scalar (.string <$> string)
  else if b = ascii '[' then nested
  else if b = ascii '{' then nestedTable
  else if b = ascii '+' || b = ascii '-' || isDigit b then
    scalar (orElse (.datetime <$> datetime) (orElse (.float <$> float) (.integer <$> integer)))
  else if b = ascii '_' then
    scalar (expecting (.description "leading digit") (.integer <$> integer))
  else if b = ascii '.' then
    scalar (expecting (.description "leading digit") (.float <$> float))
  else if b = ascii 't' then
    scalar (asUnquotedString (do let _ ← cut (literal "true"); pure (.boolean true)))
  else if b = ascii 'f' then
    scalar (asUnquotedString (do let _ ← cut (literal "false"); pure (.boolean false)))
  else if b = ascii 'i' then
    scalar (asUnquotedString (do literal "inf"; pure (.float Decimal.infinity)))
  else if b = ascii 'n' then
    scalar (asUnquotedString (do literal "nan"; pure (.float Decimal.nan)))
  else asUnquotedString backtrack

/-- A value, with `room` levels of nesting left. -/
def value : Nat → Parse Value
  | 0 => valueWith tooDeep tooDeep
  | room + 1 =>
    valueWith
      (do
        let start ← get
        let items ← array (value room)
        pure (.array items ⟨start, ← get⟩))
      (do
        let start ← get
        let entries ← inlineTable (value room)
        pure (.inline entries false (some ⟨start, ← get⟩)))

end Parse

end KeyDebounce.Toml
