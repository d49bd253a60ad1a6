import KeyDebounce.Toml.Syntax.Trivia
import KeyDebounce.Decimal.Read
/-!
# Numbers

Integers are decimal with an optional sign and no leading zero, or hexadecimal, octal or binary
after `0x`, `0o`, `0b`; an underscore may stand between two digits. They must fit 64 signed bits.
Floats are a decimal integer followed by a fraction, an exponent, or both, or `inf` and `nan`
with an optional sign; a float too large to be finite is refused, unless it is negative.
-/

set_option autoImplicit false

namespace KeyDebounce.Toml

def int64Range (n : Int) : Except String Int :=
  if n > 9223372036854775807 then .error "number too large to fit in target type"
  else if n < -9223372036854775808 then .error "number too small to fit in target type"
  else .ok n

def digitsValue (base : Nat) (bs : ByteArray) : Nat :=
  bs.toList.foldl (fun acc b =>
    if b = ascii '_' then acc
    else acc * base + (if isDigit b then b.toNat - 48 else if b ≥ ascii 'a' then b.toNat - 87 else b.toNat - 55)) 0

def signedText (bs : ByteArray) : Bool × ByteArray :=
  match bs[0]? with
  | some b =>
    if b = ascii '-' then (true, bs.extract 1 bs.size)
    else if b = ascii '+' then (false, bs.extract 1 bs.size)
    else (false, bs)
  | none => (false, bs)

namespace Parse

def digit : Parse Unit := do let _ ← byteIf isDigit

def digitsTail (dig : Parse Unit) : Parse Unit := do
  let _ ← many (orElse dig (do byte (ascii '_'); cut (expecting (.description "digit") dig)))

def decimalInteger : Parse ByteArray :=
  label "integer" (do
    let (_, taken) ← withTaken (do
      let _ ← attempt (byteIf fun b => b = ascii '+' || b = ascii '-')
      orElse (do let _ ← byteIf (fun b => b ≥ ascii '1' && b ≤ ascii '9'); digitsTail digit) digit)
    pure taken)

def prefixedDigits (pfx : String) (what : String) (ok : UInt8 → Bool) : Parse ByteArray :=
  label what (do
    literal pfx
    let (_, taken) ← withTaken (cut (do
      let dig : Parse Unit := do let _ ← byteIf ok
      dig
      digitsTail dig))
    pure taken)

/-- An integer in any base. -/
def integer : Parse Int := do
  let lead ← lookAhead (attempt (do let a ← anyByte; let b ← anyByte; pure (a, b)))
  let based (pfx what : String) (base : Nat) (ok : UInt8 → Bool) : Parse Int :=
    cut (refine (prefixedDigits pfx what ok) fun bs => int64Range (digitsValue base bs))
  match lead with
  | some (a, b) =>
    if a = ascii '0' && b = ascii 'x' then based "0x" "hexadecimal integer" 16 isHexDigit
    else if a = ascii '0' && b = ascii 'o' then
      based "0o" "octal integer" 8 (fun c => c ≥ ascii '0' && c ≤ ascii '7')
    else if a = ascii '0' && b = ascii 'b' then
      based "0b" "binary integer" 2 (fun c => c = ascii '0' || c = ascii '1')
    else decimal
  | none => decimal
where
  decimal : Parse Int := do
    let start ← get
    let text ← decimalInteger
    let (neg, digits) := signedText text
    let n := digitsValue 10 digits
    match int64Range (if neg then -(n : Int) else n) with
    | .ok v => pure v
    | .error cause => do set start; cut (failBecause cause)

def zeroPrefixable : Parse Unit := do
  digit
  digitsTail digit

def exponent : Parse Unit := do
  let _ ← byteIf fun b => b = ascii 'e' || b = ascii 'E'
  let _ ← attempt (byteIf fun b => b = ascii '+' || b = ascii '-')
  cut zeroPrefixable

def fraction : Parse Unit := do
  byte (ascii '.')
  expecting (.description "digit") (cut zeroPrefixable)

def specialFloat : Parse Float := do
  let sign ← attempt (byteIf fun b => b = ascii '+' || b = ascii '-')
  let x ← orElse (do literal "inf"; pure Decimal.infinity) (do literal "nan"; pure Decimal.nan)
  pure (if sign = some (ascii '-') then -x else x)

/-- A float. -/
def float : Parse Float :=
  label "floating-point number" (orElse
    (do
      let start ← get
      let (_, text) ← withTaken (do
        let _ ← decimalInteger
        orElse exponent (do fraction; let _ ← attempt exponent))
      let x := Decimal.readFloat (textOf text)
      if x == Decimal.infinity then do set start; cut backtrack
      else pure x)
    specialFloat)

end Parse

end KeyDebounce.Toml
