import KeyDebounce.Toml.Cursor
/-!
# Blanks, comments and line ends

Blanks are spaces and tabs. A comment runs from `#` to the end of the line and may hold tabs and
any character but the other control characters. A line ends with LF or CRLF, or at the end of the
document.
-/

set_option autoImplicit false

namespace KeyDebounce.Toml

def ascii (c : Char) : UInt8 := c.toNat.toUInt8

def isBlank (b : UInt8) : Bool := b = ascii ' ' || b = ascii '\t'

def isCommentByte (b : UInt8) : Bool := b = ascii '\t' || (b ≥ 0x20 && b ≤ 0x7e) || b ≥ 0x80

def isDigit (b : UInt8) : Bool := b ≥ ascii '0' && b ≤ ascii '9'

def isHexDigit (b : UInt8) : Bool :=
  isDigit b || (b ≥ ascii 'a' && b ≤ ascii 'f') || (b ≥ ascii 'A' && b ≤ ascii 'F')

def textOf (bs : ByteArray) : String := (String.fromUTF8? bs).getD ""

namespace Parse

def blanks : Parse Unit := do let _ ← takeWhile isBlank

def comment : Parse Unit := do
  byte (ascii '#')
  let _ ← takeWhile isCommentByte

/-- LF or CRLF. The first byte is taken before it is judged, so a stray byte fails just after
itself. -/
def newline : Parse Unit := do
  let b ← anyByte
  if b = ascii '\n' then pure ()
  else if b = ascii '\r' then byte (ascii '\n')
  else backtrack

def lineEnding : Parse Unit := orElse newline eof

def lineTrailing : Parse Unit := do
  blanks
  let _ ← attempt comment
  lineEnding

def blanksCommentsNewlinesFrom : Nat → Parse Unit
  | 0 => pure ()
  | fuel + 1 => do
    let start ← get
    blanks
    match ← peekByte with
    | some b =>
      if b = ascii '#' then do comment; newline
      else if b = ascii '\n' || b = ascii '\r' then newline
      else return ()
    | none => return ()
    if (← get) = start then pure () else blanksCommentsNewlinesFrom fuel

def blanksCommentsNewlines : Parse Unit := do
  blanksCommentsNewlinesFrom ((← remaining) + 1)

end Parse

end KeyDebounce.Toml
