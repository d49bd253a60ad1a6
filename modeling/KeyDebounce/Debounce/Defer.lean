import KeyDebounce.Row
import KeyDebounce.Timing
import KeyDebounce.Scan
/-!
# Deferred commit with restartable countdowns

Every key has a countdown. An edge reported by a scan that says it changed (re)arms the countdown
with the threshold of the new raw state; the raw state is committed once the countdown runs out.
A key that keeps bouncing therefore keeps its cooked state until it has been quiet for a whole
window. Each row also counts its keys that are counting down, and a row with none is skipped
when the scan reports no change.
-/

set_option autoImplicit false

namespace KeyDebounce.Defer

structure RowState where
  counters : List Nat
  active : Nat
  deriving DecidableEq, Repr

/-- Countdowns of every initialised row. -/
structure State where
  rows : List RowState := []
  deriving DecidableEq, Repr

def RowState.idle (cols : Nat) : RowState := ⟨List.replicate cols 0, 0⟩

def State.empty : State := {}

def State.init (L : Layout) (n : Nat) : Except DebounceError State :=
  if n ≤ L.capacity then .ok ⟨List.replicate n (RowState.idle L.cols)⟩
  else .error (.outOfMemory n L.capacity)

-- `Zero.ofOfNat0` is the core library's `Zero ℕ`: the sum is one term under every import.
def State.inFlight (s : State) : Nat := @List.sum Nat _ Zero.ofOfNat0 (s.rows.map (·.active))

variable {w : Nat}

/-- Walk the countdowns of one row from column `col`: an edge (only when the scan changed)
rearms, a running countdown advances by `e`, and one that runs out commits its raw bit. -/
def keysStep (t : Timing) (e : Nat) (changed : Bool) (raw delta : BitVec w) :
    Nat → List Nat → Nat → BitVec w → List Nat × Nat × BitVec w
  | _, [], active, cooked => ([], active, cooked)
  | col, count :: rest, active, cooked =>
    let (count', active', cooked') :=
      if changed && Row.bit delta col then
        (t.threshold (Row.bit raw col), if count = 0 then active + 1 else active, cooked)
      else if e < count then (count - e, active, cooked)
      else if count ≠ 0 then (0, active - 1, Row.commitKey cooked raw col)
      else (count, active, cooked)
    let (rest', active'', cooked'') := keysStep t e changed raw delta (col + 1) rest active' cooked'
    (count' :: rest', active'', cooked'')

def rowStep (t : Timing) (e : Nat) (changed : Bool) (raw cooked : BitVec w) (r : RowState) :
    RowState × BitVec w :=
  if r.active = 0 && !changed then (r, cooked)
  else
    let (counters, active, cooked') := keysStep t e changed raw (raw ^^^ cooked) 0 r.counters r.active cooked
    (⟨counters, active⟩, cooked')

def scanRows (t : Timing) (e : Nat) (changed : Bool) :
    Nat → List RowState → List (BitVec w) → List (BitVec w) → List RowState × List (BitVec w)
  | n + 1, r :: rows, x :: raw, c :: cooked =>
    let (r', c') := rowStep t e changed x c r
    let (rows', cooked') := scanRows t e changed n rows raw cooked
    (r' :: rows', c' :: cooked')
  | _, rows, _, cooked => (rows, cooked)

/-- One debounce pass, `e` ticks after the previous one. -/
def State.step (s : State) (t : Timing) (e : Nat) (raw cooked : List (BitVec w)) (numRows : Nat)
    (changed : Bool) : State × List (BitVec w) :=
  let n := rowsToScan numRows s.rows.length raw.length cooked.length
  let (rows, cooked') := scanRows t e changed n s.rows raw cooked
  (⟨rows⟩, cooked')

end KeyDebounce.Defer
