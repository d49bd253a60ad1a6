/-!
# Reading decimal numbers

The double nearest to a decimal number written with an optional sign, digits, an optional
fraction and an optional exponent. Magnitudes beyond every finite double become infinite and
magnitudes below half the smallest subnormal become zero, without computing the power of ten.
-/

set_option autoImplicit false

namespace KeyDebounce.Decimal

def infinity : Float := 1.0 / 0.0

def nan : Float := 0.0 / 0.0

def digitCount (n : Nat) : Nat := (Nat.toDigits 10 n).length

def scientific (m : Nat) (e : Int) : Float :=
  if m = 0 then 0.0
  else if (digitCount m : Int) + e > 309 then infinity
  else if (digitCount m : Int) + e < -323 then 0.0
  else if e ≥ 0 then Float.ofScientific m false e.toNat
  else Float.ofScientific m true (-e).toNat

def digitsValue (ds : List Char) : Nat := ds.foldl (fun acc c => acc * 10 + (c.toNat - 48)) 0

/-- The double nearest to a decimal number such as `-1_000.25e-3`; underscores are ignored. -/
def readFloat (text : String) : Float :=
  let cs := text.toList.filter (· ≠ '_')
  let (neg, cs) :=
    match cs with
    | '-' :: rest => (true, rest)
    | '+' :: rest => (false, rest)
    | _ => (false, cs)
  let whole := cs.takeWhile Char.isDigit
  let cs := cs.dropWhile Char.isDigit
  let (frac, cs) :=
    match cs with
    | '.' :: rest => (rest.takeWhile Char.isDigit, rest.dropWhile Char.isDigit)
    | _ => ([], cs)
  let exp : Int :=
    match cs with
    | c :: rest =>
      if c = 'e' || c = 'E' then
        match rest with
        | '-' :: ds => -(digitsValue ds : Int)
        | '+' :: ds => digitsValue ds
        | ds => digitsValue ds
      else 0
    | [] => 0
  let x := scientific (digitsValue (whole ++ frac)) (exp - frac.length)
  if neg then -x else x

end KeyDebounce.Decimal
