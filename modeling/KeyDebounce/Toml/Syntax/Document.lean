import KeyDebounce.Toml.Syntax.Value
/-!
# Reading a document

A document is a sequence of lines, each blank, a comment, a `key = value` pair or a table header,
each pair or header followed by an optional comment and the line end. Statements are placed as
they are read; a conflict is reported at the start of its statement. A failure is reported at the
byte where reading stopped, one byte wide, or empty at the end of the document.
-/

set_option autoImplicit false

namespace KeyDebounce.Toml

structure ReadError where
  message : String
  span : Option Span
  deriving DecidableEq, Repr

namespace Parse

def valueRoom : Nat := nestingLimit - 1

def pairLine (a : Assembly) : Parse Assembly := do
  let start ← get
  let keys ← key
  let v ← cut (do
    expecting (.char '=') (expecting (.char '.') (byte (ascii '=')))
    blanks
    let v ← value valueRoom
    expecting (.char '#') (expecting (.char '\n') lineTrailing)
    pure v)
  match a.onKeyval keys.dropLast (keys.getLast?.getD ⟨"", ⟨0, 0⟩⟩) v with
  | .ok a => pure a
  | .error c => do set start; failBecause c.message

def headerLine (a : Assembly) : Parse Assembly :=
  label "table header" (do
    let start ← get
    let lead ← lookAhead (do let x ← anyByte; let y ← anyByte; pure (x, y))
    let twice := lead = (ascii '[', ascii '[')
    let (opening, closing) := if twice then ("[[", "]]") else ("[", "]")
    literal opening
    let keys ← cut key
    cut (expecting (.text closing) (expecting (.char '.') (literal closing)))
    let stop ← get
    cut (expecting (.char '#') (expecting (.char '\n') lineTrailing))
    let placed := if twice then a.onArrayHeader keys ⟨start, stop⟩ else a.onTableHeader keys ⟨start, stop⟩
    match placed with
    | .ok a => pure a
    | .error c => do set start; failBecause c.message)

def statement (a : Assembly) : Parse Assembly := do
  let b ← lookAhead anyByte
  if b = ascii '#' then cut (do comment; lineEnding); pure a
  else if b = ascii '[' then cut (headerLine a)
  else if b = ascii '\n' || b = ascii '\r' then do newline; pure a
  else cut (pairLine a)

def statements : Nat → Assembly → Parse Assembly
  | 0, a => pure a
  | fuel + 1, a => do
    let start ← get
    match ← attempt (do let a ← statement a; blanks; pure a) with
    | none => pure a
    | some a => if (← get) = start then pure a else statements fuel a

def document : Parse Assembly := do
  let _ ← attempt (literal "\uFEFF")
  blanks
  let a ← statements ((← remaining) + 1) Assembly.start
  eof
  pure a

end Parse

def isCharStart (bytes : ByteArray) (pos : Nat) : Bool :=
  match bytes[pos]? with
  | none => true
  | some b => b < 0x80 || b ≥ 0xC0

def charStartAt (bytes : ByteArray) : Nat → Nat
  | 0 => 0
  | pos + 1 => if isCharStart bytes (pos + 1) then pos + 1 else charStartAt bytes pos

def charWidthAt (bytes : ByteArray) (pos : Nat) : Nat :=
  match bytes[pos]? with
  | none => 0
  | some b =>
    if b < 0xC0 then 1
    else if b < 0xE0 then 2
    else if b < 0xF0 then 3
    else 4

/-- Where a failure at byte `pos` is marked: under the whole character that holds it. -/
def failureSpan (bytes : ByteArray) (pos : Nat) : Span :=
  let start := charStartAt bytes pos
  ⟨start, start + charWidthAt bytes start⟩

/-- Read a document into its root table. -/
def readDocument (src : String) : Except ReadError Table :=
  let bytes := src.toUTF8
  match Parse.exec Parse.document bytes with
  | (.ok a, _) =>
    match a.finish with
    | .ok root => .ok root
    | .error c => .error ⟨c.message, none⟩
  | (.error f, pos) =>
    .error ⟨f.message, some (failureSpan bytes pos)⟩

end KeyDebounce.Toml
