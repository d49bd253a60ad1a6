import KeyDebounce.Toml.Syntax.Trivia
import KeyDebounce.Toml.Assembly
/-!
# Strings

Basic strings are quoted with `"` and take backslash escapes; literal strings are quoted with `'`
and take none. Both have multi-line forms between three quotes, where a newline right after the
opening quotes is dropped, up to two quotes may stand inside, and in the basic form a backslash
at the end of a line swallows the line break and the blanks after it.
-/

set_option autoImplicit false

namespace KeyDebounce.Toml

def isBasicByte (b : UInt8) : Bool :=
  isBlank b || b = 0x21 || (b ≥ 0x23 && b ≤ 0x5b) || (b ≥ 0x5d && b ≤ 0x7e) || b ≥ 0x80

def isLiteralByte (b : UInt8) : Bool :=
  b = 0x09 || (b ≥ 0x20 && b ≤ 0x26) || (b ≥ 0x28 && b ≤ 0x7e) || b ≥ 0x80

namespace Parse

def hexEscape (n : Nat) : Parse Char :=
  refine (ensure (takeWhileIn 0 n isHexDigit) (·.size = n)) fun bs =>
    let code := bs.toList.foldl (fun acc b =>
      acc * 16 + (if isDigit b then b.toNat - 48 else if b ≥ ascii 'a' then b.toNat - 87 else b.toNat - 55)) 0
    if h : code.isValidChar then .ok (Char.ofNatAux code h) else .error Conflict.outOfRange.message

def escapeChar : Parse Char := do
  let b ← anyByte
  if b = ascii 'b' then pure '\x08'
  else if b = ascii 'f' then pure '\x0c'
  else if b = ascii 'n' then pure '\n'
  else if b = ascii 'r' then pure '\r'
  else if b = ascii 't' then pure '\t'
  else if b = ascii 'u' then label "unicode 4-digit hex code" (cut (hexEscape 4))
  else if b = ascii 'U' then label "unicode 8-digit hex code" (cut (hexEscape 8))
  else if b = ascii '\\' then pure '\\'
  else if b = ascii '"' then pure '"'
  else
    ['b', 'f', 'n', 'r', 't', 'u', 'U', '\\', '"'].foldl (fun p c => expecting (.char c) p)
      (label "escape sequence" (cut backtrack))

def escaped : Parse Char := do
  byte (ascii '\\')
  escapeChar

def basicChunk : Parse String :=
  orElse (textOf <$> takeWhile1 isBasicByte) (Char.toString <$> escaped)

def basicString : Parse String := do
  byte (ascii '"')
  let chunks ← many basicChunk
  label "basic string" (cut (byte (ascii '"')))
  pure (String.join chunks)

def literalString : Parse String :=
  label "literal string" (do
    byte (ascii '\'')
    let bs ← cut (takeWhile isLiteralByte)
    cut (byte (ascii '\''))
    pure (textOf bs))

def escapedNewline : Parse Unit := do
  let _ ← many1 (do
    byte (ascii '\\')
    blanks
    newline
    let _ ← many (orElse newline (do let _ ← takeWhile1 isBlank)))

def multilineBasicChunk : Parse String :=
  orElse (textOf <$> takeWhile1 isBasicByte)
    (orElse ((fun _ => "") <$> escapedNewline)
      (orElse (Char.toString <$> escaped) ((fun _ => "\n") <$> newline)))

def quotes (q : UInt8) (term : Parse Unit) : Parse String := do
  let start ← get
  match ← attempt (do byte q; byte q; lookAhead term) with
  | some () => pure (String.ofList [Char.ofNat q.toNat, Char.ofNat q.toNat])
  | none =>
    set start
    byte q
    lookAhead term
    pure (String.ofList [Char.ofNat q.toNat])

def multilineBasicRest : Nat → String → Parse String
  | 0, acc => pure acc
  | fuel + 1, acc => do
    match ← attempt (quotes (ascii '"') (do let _ ← byteIf (· ≠ ascii '"'))) with
    | none => pure acc
    | some q =>
      match ← attempt multilineBasicChunk with
      | none => pure acc
      | some c =>
        let more ← many multilineBasicChunk
        multilineBasicRest fuel (acc ++ q ++ c ++ String.join more)

def multilineBasicBody : Parse String := do
  let first ← many multilineBasicChunk
  let body ← multilineBasicRest ((← remaining) + 1) (String.join first)
  match ← attempt (quotes (ascii '"') (literal "\"\"\"")) with
  | some q => pure (body ++ q)
  | none => pure body

def multilineBasicString : Parse String :=
  label "multiline basic string" (do
    literal "\"\"\""
    let _ ← attempt newline
    let body ← cut multilineBasicBody
    cut (literal "\"\"\"")
    pure body)

def multilineLiteralChunk : Parse Unit :=
  orElse (do let _ ← byteIf isLiteralByte) newline

def multilineLiteralBody : Parse ByteArray := do
  let (_, taken) ← withTaken (do
    let _ ← many multilineLiteralChunk
    let _ ← many (do
      let _ ← quotes (ascii '\'') (do let _ ← byteIf (· ≠ ascii '\''))
      let _ ← many1 multilineLiteralChunk)
    let _ ← attempt (quotes (ascii '\'') (literal "'''")))
  pure taken

def multilineLiteralString : Parse String :=
  label "multiline literal string" (do
    literal "'''"
    let _ ← attempt newline
    let body ← cut multilineLiteralBody
    cut (literal "'''")
    pure ((textOf body).replace "\r\n" "\n"))

/-- A string of any of the four forms. -/
def string : Parse String :=
  orElse multilineBasicString (orElse basicString (orElse multilineLiteralString literalString))

end Parse

end KeyDebounce.Toml
