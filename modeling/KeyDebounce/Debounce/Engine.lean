import KeyDebounce.Clock
import KeyDebounce.Debounce.Defer
import KeyDebounce.Debounce.Chain
import KeyDebounce.Debounce.Quiesce
/-!
# Engines

The three debouncing engines behind one interface: initialise for a number of rows, run a pass,
tear down, count the keys in flight. A `Debouncer` pairs an engine with the stopwatch that
measures the ticks between passes; initialising and tearing down restart the stopwatch, so the
first pass afterwards counts one tick.
-/

set_option autoImplicit false

namespace KeyDebounce

inductive Algorithm where
  /-- Deferred commit with countdowns restarted by every edge. -/
  | asymDefer
  /-- Chain of keys in flight; countdowns extended, never restarted. -/
  | eagerList
  /-- Per-key phases with a quiet window after each commit. -/
  | quiesce
  deriving DecidableEq, Repr

/-- The state of an engine of one of the three kinds. -/
inductive Engine where
  | defer (s : Defer.State)
  | chain (s : Chain.State)
  | quiesce (s : Quiesce.State)
  deriving DecidableEq, Repr

namespace Engine

def new : Algorithm → Engine
  | .asymDefer => defer Defer.State.empty
  | .eagerList => chain Chain.State.empty
  | .quiesce => quiesce Quiesce.State.empty

def teardown : Engine → Engine
  | defer _ => defer Defer.State.empty
  | chain _ => chain Chain.State.empty
  | quiesce _ => quiesce Quiesce.State.empty

def init (g : Engine) (L : Layout) (n : Nat) : Except DebounceError Unit × Engine :=
  let sized {σ : Type} (wrap : σ → Engine) : Except DebounceError σ → Except DebounceError Unit × Engine
    | .ok s => (.ok (), wrap s)
    | .error err => (.error err, g.teardown)
  match g with
  | defer _ => sized defer (Defer.State.init L n)
  | chain _ => sized chain (Chain.State.init L n)
  | quiesce _ => sized quiesce (Quiesce.State.init L n)

/-- One pass over `raw`, `e` ticks after the previous one. -/
def step {w : Nat} (g : Engine) (L : Layout) (t : Timing) (e : Nat) (raw cooked : List (BitVec w))
    (numRows : Nat) (changed : Bool) : Engine × List (BitVec w) :=
  match g with
  | defer s => let (s, c) := s.step t e raw cooked numRows changed; (defer s, c)
  | chain s => let (s, c) := s.step L t e raw cooked numRows changed; (chain s, c)
  | quiesce s => let (s, c) := s.step t e raw cooked numRows; (quiesce s, c)

def inFlight (g : Engine) (L : Layout) : Nat :=
  match g with
  | defer s => s.inFlight
  | chain s => s.inFlight L
  | quiesce s => s.inFlight

def requiresPeriodicService (_ : Engine) : Bool := true

end Engine

/-- An engine with the stopwatch that times its passes. -/
structure Debouncer where
  engine : Engine
  watch : Stopwatch := {}
  deriving DecidableEq, Repr

namespace Debouncer

def new (a : Algorithm) : Debouncer := ⟨Engine.new a, {}⟩

def teardown (d : Debouncer) : Debouncer := ⟨d.engine.teardown, Stopwatch.fresh⟩

def init (d : Debouncer) (L : Layout) (n : Nat) : Except DebounceError Unit × Debouncer :=
  let (r, g) := d.engine.init L n
  (r, ⟨g, Stopwatch.fresh⟩)

/-- One pass at clock reading `now`. -/
def debounce {w : Nat} (d : Debouncer) (L : Layout) (t : Timing) (now : Nat)
    (raw cooked : List (BitVec w)) (numRows : Nat) (changed : Bool) : Debouncer × List (BitVec w) :=
  let (e, watch) := d.watch.lap now
  let (g, cooked) := d.engine.step L t e raw cooked numRows changed
  (⟨g, watch⟩, cooked)

end Debouncer

end KeyDebounce
