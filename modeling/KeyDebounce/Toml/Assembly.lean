import KeyDebounce.Toml.Document
/-!
# Assembling tables

Statements are read in order and placed into the document. Key/value pairs go into the table
opened by the last header (the root before any), their dotted prefixes creating implicit dotted
tables. A header closes the open table, writing it into the tree, and opens the next: a table that
was so far only implied by a deeper header may be opened once, anything else defined twice is a
conflict. Headers of an array of tables append a new table each time.
-/

set_option autoImplicit false

namespace KeyDebounce.Toml

inductive Conflict where
  /-- A key defined twice; `table` is the path of the table it was defined in, if known. -/
  | duplicateKey (key : String) (table : Option (List String))
  /-- A dotted key or header passing through a value that is not a table. -/
  | extendsNonTable (path : List String) (actual : String)
  /-- A number outside its range. -/
  | outOfRange
  /-- Nesting deeper than the reader allows. -/
  | recursionLimit
  deriving DecidableEq, Repr

def Conflict.message : Conflict → String
  | .duplicateKey key none => s!"duplicate key `{key}`"
  | .duplicateKey key (some []) => s!"duplicate key `{key}` in document root"
  | .duplicateKey key (some path) =>
    let joined := ".".intercalate path
    s!"duplicate key `{key}` in table `{joined}`"
  | .extendsNonTable path actual =>
    let joined := ".".intercalate path
    s!"dotted key `{joined}` attempted to extend non-table type ({actual})"
  | .outOfRange => "value is out of range"
  | .recursionLimit => "recursion limit exceeded"

def isBareKeyByte (b : UInt8) : Bool :=
  (b ≥ 65 && b ≤ 90) || (b ≥ 97 && b ≤ 122) || (b ≥ 48 && b ≤ 57) || b = 45 || b = 95

def escapeBasic (c : Char) : String :=
  match c with
  | '\x08' => "\\b"
  | '\t' => "\\t"
  | '\n' => "\\n"
  | '\x0c' => "\\f"
  | '\r' => "\\r"
  | '"' => "\\\""
  | '\\' => "\\\\"
  | c =>
    if c.toNat ≤ 0x1f || c.toNat = 0x7f then
      let hex := (Nat.toDigits 16 c.toNat).map Char.toUpper
      "\\u" ++ String.ofList (List.replicate (4 - hex.length) '0' ++ hex)
    else c.toString

def needsEscapeCode (c : Char) : Bool :=
  c ≠ '\t' && c ≠ '\n' && (c.toNat ≤ 0x1f || c.toNat = 0x7f)

/-- How a key is written: bare when it can be; between single quotes when it holds a backslash or
a double quote, which a basic string would have to escape, and no apostrophe, newline or control
character; else between double quotes, escaped. -/
def keyText (name : String) : String :=
  let cs := name.toList
  let oneLine := !cs.any fun c => c = '\n' || needsEscapeCode c
  if !name.isEmpty && name.toUTF8.toList.all isBareKeyByte then name
  else if oneLine && (cs.contains '\\' || cs.contains '"') && !cs.contains '\'' then
    "'" ++ name ++ "'"
  else "\"" ++ String.join (cs.map escapeBasic) ++ "\""

def duplicateAt (path : List Key) (i : Nat) : Conflict :=
  .duplicateKey (keyText ((path[i]?.map (·.name)).getD "")) (some ((path.take i).map (·.name)))

/-- Walk `path` from table `t` (`i` keys of `whole` already walked), creating missing tables as
implicit (and dotted when `dotted`), entering the last table of an array of tables, and apply `f`
to the table reached; the tables on the way are written back. -/
def descend {α : Type} (dotted : Bool) (whole : List Key) (f : Table → Except Conflict (Table × α)) :
    Nat → List Key → Table → Except Conflict (Table × α)
  | _, [], t => f t
  | i, k :: rest, t => do
    let item := match t.find? k.name with
      | some (_, item) => item
      | none => .table (.mk [] true dotted none)
    match item with
    | .value v => throw (.extendsNonTable ((whole.take (i + 1)).map (·.name)) v.typeName)
    | .tables ts span =>
      match ts.getLast? with
      | none => throw (duplicateAt whole i)
      | some last =>
        let (last', a) ← descend dotted whole f (i + 1) rest last
        pure (t.put k (.tables (ts.dropLast ++ [last']) span), a)
    | .table child =>
      if dotted && !child.implicit then throw (.duplicateKey k.name none)
      else
        let (child', a) ← descend dotted whole f (i + 1) rest child
        pure (t.put k (.table child'), a)

/-- The document so far: the tree, and the table being filled with the path of its header. -/
structure Assembly where
  root : Table
  current : Table
  currentPath : List Key
  currentIsArray : Bool

namespace Assembly

def start : Assembly := ⟨Table.empty, Table.empty.withSpan (some ⟨0, 0⟩), [], false⟩

def onKeyval (a : Assembly) (path : List Key) (key : Key) (v : Value) : Except Conflict Assembly := do
  let current :=
    match a.current.span, v.span? with
    | some s, some vs => a.current.withSpan (some ⟨s.start, vs.stop⟩)
    | _, _ => a.current
  let place (t : Table) : Except Conflict (Table × Unit) :=
    if t.dotted == path.isEmpty then throw (.duplicateKey key.name none)
    else
      match t.find? key.name with
      | some (k', _) => throw (.duplicateKey k'.name (some (a.currentPath.map (·.name))))
      | none => pure (t.put key (.value v), ())
  let (current, ()) ← descend true path place 0 path current
  pure { a with current }

def finalize (a : Assembly) : Except Conflict Assembly := do
  let table := a.current
  let path := a.currentPath
  let a := { a with current := Table.empty, currentPath := [] }
  match path.getLast? with
  | none => pure { a with root := table }
  | some key =>
    let parent := path.dropLast
    let dup := duplicateAt path (path.length - 1)
    if a.currentIsArray then
      let push (p : Table) : Except Conflict (Table × Unit) :=
        match ((p.find? key.name).map (·.2) : Option Item) with
        | none | some (.tables _ _) =>
          let ts := (match ((p.find? key.name).map (·.2) : Option Item) with
            | some (.tables ts _) => ts
            | _ => []) ++ [table]
          let span :=
            match ts.head?.bind (·.span), ts.getLast?.bind (·.span) with
            | some first, some last => some ⟨first.start, last.stop⟩
            | _, _ => none
          pure (p.put key (.tables ts span), ())
        | some _ => throw dup
      let (root, ()) ← descend false parent push 0 parent a.root
      pure { a with root }
    else
      let place (p : Table) : Except Conflict (Table × Unit) :=
        match ((p.find? key.name).map (·.2) : Option Item) with
        | none => pure (p.put key (.table table), ())
        | some (.table t) => if t.implicit then pure (p.put key (.table table), ()) else throw dup
        | some _ => throw dup
      let (root, ()) ← descend false parent place 0 parent a.root
      pure { a with root }

def startTable (a : Assembly) (path : List Key) (span : Span) : Except Conflict Assembly := do
  match path.getLast? with
  | none => pure a
  | some key =>
    let parent := path.dropLast
    let dup := duplicateAt path (path.length - 1)
    let take (p : Table) : Except Conflict (Table × Option Table) :=
      match ((p.find? key.name).map (·.2) : Option Item) with
      | none => pure (p, none)
      | some (.table t) => if t.implicit && !t.dotted then pure (p.remove key.name, some t) else throw dup
      | some _ => throw dup
    let (root, taken) ← descend false parent take 0 parent a.root
    let entries := (taken.map Table.entries).getD []
    pure { a with root, current := .mk entries false false (some span), currentPath := path,
                  currentIsArray := false }

def startArrayTable (a : Assembly) (path : List Key) (span : Span) : Except Conflict Assembly := do
  match path.getLast? with
  | none => pure a
  | some key =>
    let parent := path.dropLast
    let dup := duplicateAt path (path.length - 1)
    let prepare (p : Table) : Except Conflict (Table × Unit) :=
      match ((p.find? key.name).map (·.2) : Option Item) with
      | none => pure (p.put key (.tables [] none), ())
      | some (.tables _ _) => pure (p, ())
      | some _ => throw dup
    let (root, ()) ← descend false parent prepare 0 parent a.root
    pure { a with root, current := .mk [] false false (some span), currentPath := path,
                  currentIsArray := true }

def onTableHeader (a : Assembly) (path : List Key) (span : Span) : Except Conflict Assembly := do
  (← a.finalize).startTable path span

def onArrayHeader (a : Assembly) (path : List Key) (span : Span) : Except Conflict Assembly := do
  (← a.finalize).startArrayTable path span

def finish (a : Assembly) : Except Conflict Table := do
  pure (← a.finalize).root

end Assembly

end KeyDebounce.Toml
