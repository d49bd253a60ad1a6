import KeyDebounce.Row
/-!
# Change tracker

Produces the `changed` hint of a scanning loop: it keeps the previous raw sample, one row per
reserved row, and reports whether a new sample differs from it. Rows beyond the shorter of the two
are neither compared nor stored.
-/

set_option autoImplicit false

namespace KeyDebounce

/-- The previous raw sample, one pattern per reserved row. -/
structure Tracker (w : Nat) where
  previous : List (BitVec w)
  deriving DecidableEq, Repr

namespace Tracker

variable {w : Nat}

def new (rows : Nat) : Tracker w := ⟨List.replicate rows (0 : BitVec w)⟩

def refresh : List (BitVec w) → List (BitVec w) → Bool × List (BitVec w)
  | p :: ps, r :: rs =>
    let (changed, rest) := refresh ps rs
    (p != r || changed, r :: rest)
  | ps, _ => (false, ps)

/-- Record a raw sample; true if some stored row differs from it. -/
def update (t : Tracker w) (raw : List (BitVec w)) : Bool × Tracker w :=
  let (changed, previous) := refresh t.previous raw
  (changed, ⟨previous⟩)

theorem length_refresh (ps rs : List (BitVec w)) : (refresh ps rs).2.length = ps.length := by
  induction ps generalizing rs with
  | nil => cases rs <;> rfl
  | cons p ps ih =>
    cases rs with
    | nil => rfl
    | cons r rs => simp [refresh, ih]

end Tracker

end KeyDebounce
