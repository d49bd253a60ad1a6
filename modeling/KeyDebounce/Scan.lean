/-!
# Scan passes

What every engine shares: the rows reserved and the columns per row (`Layout`), the number of rows
one pass may touch, and the error of asking for more rows than are reserved.
-/

set_option autoImplicit false

namespace KeyDebounce

structure Layout where
  capacity : Nat
  cols : Nat
  deriving DecidableEq, Repr

/-- Rows one pass may touch: no more than asked for, initialised, sampled, or cooked. -/
def rowsToScan (numRows allocated rawRows cookedRows : Nat) : Nat :=
  min (min (min numRows allocated) rawRows) cookedRows

theorem rowsToScan_le_allocated (numRows allocated rawRows cookedRows : Nat) :
    rowsToScan numRows allocated rawRows cookedRows ≤ allocated := by
  unfold rowsToScan
  omega

inductive DebounceError where
  /-- More rows were requested than storage was reserved for. -/
  | outOfMemory (requested capacity : Nat)
  deriving DecidableEq, Repr

def DebounceError.message : DebounceError → String
  | .outOfMemory requested capacity =>
    s!"debouncer storage for {requested} rows requested, only {capacity} rows reserved"

end KeyDebounce
