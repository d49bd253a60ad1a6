import KeyDebounce.Row
import KeyDebounce.Timing
import KeyDebounce.Scan
/-!
# Debouncing with a quiet window

Every key runs a small state machine. An edge starts debouncing; if raw returns to the cooked
state before the threshold runs out the edge is dropped, otherwise it is committed and the key
quiesces for `quiesce` ticks, ignoring every change. Rows are scanned on their own raw/cooked
difference, so a change that happened while a key quiesced is picked up when it wakes.
-/

set_option autoImplicit false

namespace KeyDebounce

/-- Debounce phase of one key. -/
inductive KeyPhase where
  /-- Raw and cooked agree, waiting for an edge. -/
  | waiting
  /-- An edge was seen and must hold for the threshold. -/
  | debouncing
  /-- The edge was committed; changes are ignored until the window ends. -/
  | quiescing
  deriving DecidableEq, Repr

namespace Quiesce

structure Key where
  phase : KeyPhase
  remaining : Nat
  deriving DecidableEq, Repr

def Key.waiting : Key := ⟨.waiting, 0⟩

structure RowState where
  keys : List Key
  active : Nat
  deriving DecidableEq, Repr

structure State where
  rows : List RowState := []
  deriving DecidableEq, Repr

def RowState.idle (cols : Nat) : RowState := ⟨List.replicate cols Key.waiting, 0⟩

def State.empty : State := {}

def State.init (L : Layout) (n : Nat) : Except DebounceError State :=
  if n ≤ L.capacity then .ok ⟨List.replicate n (RowState.idle L.cols)⟩
  else .error (.outOfMemory n L.capacity)

-- `Zero.ofOfNat0` is the core library's `Zero ℕ`: the sum is one term under every import.
def State.inFlight (s : State) : Nat := @List.sum Nat _ Zero.ofOfNat0 (s.rows.map (·.active))

def State.phase? (s : State) (row col : Nat) : Option KeyPhase :=
  (s.rows[row]?).bind fun r => (r.keys[col]?).map (·.phase)

variable {w : Nat}

/-- One key of a scanned row, given whether raw and cooked differ there. -/
def keyStep (t : Timing) (e : Nat) (raw : BitVec w) (col : Nat) (edge : Bool) (k : Key)
    (active : Nat) (cooked : BitVec w) : Key × Nat × BitVec w :=
  match k.phase with
  | .waiting =>
    if edge then (⟨.debouncing, t.threshold (Row.bit raw col)⟩, active + 1, cooked)
    else (k, active, cooked)
  | .debouncing =>
    if !edge then (Key.waiting, active - 1, cooked)
    else if e < k.remaining then ({ k with remaining := k.remaining - e }, active, cooked)
    else
      let cooked := Row.commitKey cooked raw col
      if t.quiesce = 0 then (Key.waiting, active - 1, cooked)
      else (⟨.quiescing, t.quiesce⟩, active, cooked)
  | .quiescing =>
    if e < k.remaining then ({ k with remaining := k.remaining - e }, active, cooked)
    else (Key.waiting, active - 1, cooked)

def keysStep (t : Timing) (e : Nat) (raw delta : BitVec w) :
    Nat → List Key → Nat → BitVec w → List Key × Nat × BitVec w
  | _, [], active, cooked => ([], active, cooked)
  | col, k :: rest, active, cooked =>
    let (k', active', cooked') := keyStep t e raw col (Row.bit delta col) k active cooked
    let (rest', active'', cooked'') := keysStep t e raw delta (col + 1) rest active' cooked'
    (k' :: rest', active'', cooked'')

def rowStep (t : Timing) (e : Nat) (raw cooked : BitVec w) (r : RowState) : RowState × BitVec w :=
  let delta := raw ^^^ cooked
  if r.active = 0 && delta = 0 then (r, cooked)
  else
    let (keys, active, cooked') := keysStep t e raw delta 0 r.keys r.active cooked
    (⟨keys, active⟩, cooked')

def scanRows (t : Timing) (e : Nat) :
    Nat → List RowState → List (BitVec w) → List (BitVec w) → List RowState × List (BitVec w)
  | n + 1, r :: rows, x :: raw, c :: cooked =>
    let (r', c') := rowStep t e x c r
    let (rows', cooked') := scanRows t e n rows raw cooked
    (r' :: rows', c' :: cooked')
  | _, rows, _, cooked => (rows, cooked)

/-- One debounce pass, `e` ticks after the previous one. The change hint is not needed. -/
def State.step (s : State) (t : Timing) (e : Nat) (raw cooked : List (BitVec w)) (numRows : Nat) :
    State × List (BitVec w) :=
  let n := rowsToScan numRows s.rows.length raw.length cooked.length
  let (rows, cooked') := scanRows t e n s.rows raw cooked
  (⟨rows⟩, cooked')

end Quiesce

end KeyDebounce
