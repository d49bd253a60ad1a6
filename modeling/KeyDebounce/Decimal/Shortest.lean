import KeyDebounce.Decimal.Read
/-!
# Shortest decimal text of a double

A finite double `v = m × 2^q` stands for every real that rounds to it: the interval halfway to its
neighbours, ends included when `m` is even. Its shortest text is the decimal with the fewest
significant digits inside that interval; of two such the nearer to `v`, the upper on a tie.
The digits are written out in positional notation, never with an exponent.
-/

set_option autoImplicit false

namespace KeyDebounce.Decimal

def decompose (x : Float) : Bool × Nat × Int × Bool :=
  let bits := x.toBits.toNat
  let biased : Nat := (bits / Nat.pow 2 52) % 2048
  let fraction : Nat := bits % Nat.pow 2 52
  let sign := bits ≥ Nat.pow 2 63
  if biased = 0 then (sign, fraction, -1074, false)
  else (sign, fraction + Nat.pow 2 52, (biased : Int) - 1075, fraction = 0 && biased > 1)

def compareScaled (c : Nat) (p : Int) (x : Nat) (r : Int) : Ordering :=
  compare (c * Nat.pow 10 p.toNat * Nat.pow 2 (-r).toNat)
    (x * Nat.pow 2 r.toNat * Nat.pow 10 (-p).toNat)

def floorScaled (x : Nat) (r p : Int) : Nat :=
  (x * Nat.pow 2 r.toNat * Nat.pow 10 (-p).toNat) / (Nat.pow 2 (-r).toNat * Nat.pow 10 p.toNat)

def interval (m : Nat) (closerBelow : Bool) : Nat × Nat × Bool :=
  (4 * m - (if closerBelow then 1 else 2), 4 * m + 2, m % 2 = 0)

def inside (c : Nat) (p : Int) (low high : Nat) (inclusive : Bool) (r : Int) : Bool :=
  let aboveLow := match compareScaled c p low r with
    | .gt => true
    | .eq => inclusive
    | .lt => false
  let belowHigh := match compareScaled c p high r with
    | .lt => true
    | .eq => inclusive
    | .gt => false
  c ≠ 0 && aboveLow && belowHigh

def search (m : Nat) (q : Int) (closerBelow : Bool) : Nat → Int → Nat × Int
  | 0, p => (m, p)
  | fuel + 1, p =>
    let (low, high, inclusive) := interval m closerBelow
    let r := q - 2
    let lo := floorScaled m q p
    let hi := lo + 1
    let loIn := inside lo p low high inclusive r
    let hiIn := inside hi p low high inclusive r
    if loIn && hiIn then
      -- nearer of the two: compare 2v with lo + hi on the grid
      match compareScaled (lo + hi) p (8 * m) r with
      | .gt => (lo, p)
      | _ => (hi, p)
    else if loIn then (lo, p)
    else if hiIn then (hi, p)
    else search m q closerBelow fuel (p - 1)

def magnitude (m : Nat) (q : Int) : Int :=
  let whole := floorScaled m q 0
  if whole > 0 then (digitCount whole : Int) - 1
  else
    -- below one: the first power of ten below the value
    let scaled (k : Nat) : Nat := floorScaled m q (-(k : Int))
    let k := ((List.range 340).find? (fun k => scaled (k + 1) > 0)).getD 339
    Int.neg ((k : Int) + 1)

/-- Digits and the exponent of their last one: the shortest decimal `c × 10^p` of `m × 2^q`,
trailing zeros removed. -/
def shortest (m : Nat) (q : Int) (closerBelow : Bool) : List Char × Int :=
  let (c, p) := search m q closerBelow 20 (magnitude m q + 1)
  let ds := Nat.toDigits 10 c
  let zeros := (ds.reverse.takeWhile (· = '0')).length
  (ds.take (ds.length - zeros), p + zeros)

def positional (ds : List Char) (p : Int) : String :=
  let n : Int := ds.length
  let point := n + p
  if point ≤ 0 then "0." ++ String.ofList (List.replicate (-point).toNat '0' ++ ds)
  else if point < n then
    String.ofList (ds.take point.toNat) ++ "." ++ String.ofList (ds.drop point.toNat)
  else String.ofList (ds ++ List.replicate p.toNat '0')

/-- A double in its shortest positional text: `inf`, `-inf`, `NaN`, `0`, `-0`, `1.5`, `1000`. -/
def render (x : Float) : String :=
  if x.isNaN then "NaN"
  else
    let (sign, m, q, closerBelow) := decompose x
    let body :=
      if x.isInf then "inf"
      else if m = 0 then "0"
      else
        let (ds, p) := shortest m q closerBelow
        positional ds p
    if sign then "-" ++ body else body

end KeyDebounce.Decimal
