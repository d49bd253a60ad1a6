/-!
# Debounce timing

Thresholds in clock ticks: how long a press (`down`) or a release (`up`) must hold before it is
committed, and how long a key stays deaf after a commit (`quiesce`, used by the quiescing engine
only). The engines assume `down` and `up` are nonzero; every value fits a byte.
-/

set_option autoImplicit false

namespace KeyDebounce

/-- Debounce thresholds, in clock ticks. -/
structure Timing where
  down : Nat
  up : Nat
  quiesce : Nat
  deriving DecidableEq, Repr

namespace Timing

/-- The quiet time a key needs before its raw state `pressed` is committed. -/
def threshold (t : Timing) (pressed : Bool) : Nat := if pressed then t.down else t.up

def longest (t : Timing) : Nat := max t.down t.up

theorem threshold_pos {t : Timing} (hdown : 0 < t.down) (hup : 0 < t.up) (pressed : Bool) :
    0 < t.threshold pressed := by
  cases pressed
  · exact hup
  · exact hdown

theorem threshold_le_longest (t : Timing) (pressed : Bool) : t.threshold pressed ≤ t.longest := by
  cases pressed
  · exact Nat.le_max_right t.down t.up
  · exact Nat.le_max_left t.down t.up

end Timing

end KeyDebounce
