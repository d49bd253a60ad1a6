import KeyDebounce.Toml.Syntax.Strings
/-!
# Keys

A key is one or more simple keys joined by dots, with blanks allowed around each part. A simple
key is bare (letters, digits, `-`, `_`) or quoted as a basic or literal string. Keys of 80 parts
or more are refused, as deeper tables are.
-/

set_option autoImplicit false

namespace KeyDebounce.Toml

def nestingLimit : Nat := 80

namespace Parse

def bareKey : Parse String := do
  pure (textOf (← takeWhile1 isBareKeyByte))

def simpleKey : Parse Key := do
  let start ← get
  let name ←
    match ← lookAhead anyByte with
    | b =>
      if b = ascii '"' then basicString
      else if b = ascii '\'' then literalString
      else bareKey
  pure ⟨name, ⟨start, ← get⟩⟩

/-- A dotted key, as the list of its parts. -/
def key : Parse (List Key) := do
  let start ← get
  let parts ← label "key" (separated1 (do blanks; let k ← simpleKey; blanks; pure k) (byte (ascii '.')))
  if parts.length < nestingLimit then pure parts
  else
    set start
    failBecause Conflict.recursionLimit.message

end Parse

end KeyDebounce.Toml
