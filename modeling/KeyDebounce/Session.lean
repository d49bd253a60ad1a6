import KeyDebounce.Tracker
import KeyDebounce.Debounce.Engine
/-!
# Scanning sessions

A session is a scanning loop around one debouncer: it owns the clock, the cooked buffer (one row
per reserved row at the start, replaceable by any buffer later) and a change tracker that supplies
the hint when the caller gives none. Each request answers with the cooked buffer and the number of
keys in flight after it; a refused request changes nothing.
-/

set_option autoImplicit false

namespace KeyDebounce

inductive Step (w : Nat) where
  /-- Initialise the debouncer for this many rows. -/
  | init (rows : Nat)
  /-- A pass over a raw sample; rows default to the sample's, the hint to the tracker's. -/
  | debounce (raw : List (BitVec w)) (rows : Option Nat) (changed : Option Bool)
  /-- Replace the cooked buffer. -/
  | setCooked (cooked : List (BitVec w))
  | teardown
  | advance (ticks : Nat)
  | set (now : Nat)
  /-- The phase of one key, for the quiescing engine. -/
  | phase (row col : Nat)
  | periodic
  /-- Report the state only. -/
  | state
  deriving DecidableEq, Repr

inductive Outcome where
  | initialised
  | refused (err : DebounceError)
  | debounced (changed : Bool)
  | now (reading : Nat)
  | phase (p : Option KeyPhase)
  | periodic (required : Bool)
  | done
  deriving DecidableEq, Repr

structure Reply (w : Nat) where
  outcome : Outcome
  cooked : List (BitVec w)
  inFlight : Nat
  deriving DecidableEq, Repr

inductive StepFault where
  | clock (f : ClockFault)
  | phaseUnavailable
  deriving DecidableEq, Repr

def StepFault.message : StepFault → String
  | .clock f => f.message
  | .phaseUnavailable => "phase is only available on the quiesce debouncer"

def StepFault.aborts : StepFault → Bool
  | .clock f => f.aborts
  | .phaseUnavailable => false

/-- A debouncer in a scanning loop. -/
structure Session (w : Nat) where
  layout : Layout
  timing : Timing
  debouncer : Debouncer
  clock : Clock
  cooked : List (BitVec w)
  tracker : Tracker w
  deriving DecidableEq, Repr

namespace Session

variable {w : Nat}

def start (a : Algorithm) (L : Layout) (t : Timing) (clock : Clock) : Session w :=
  { layout := L, timing := t, debouncer := Debouncer.new a, clock
    cooked := List.replicate L.capacity 0, tracker := Tracker.new L.capacity }

def reply (s : Session w) (o : Outcome) : Except StepFault (Reply w) × Session w :=
  (.ok ⟨o, s.cooked, s.debouncer.engine.inFlight s.layout⟩, s)

/-- Carry out one request. -/
def step (s : Session w) : Step w → Except StepFault (Reply w) × Session w
  | .init rows =>
    let (r, d) := s.debouncer.init s.layout rows
    let s := { s with debouncer := d }
    match r with
    | .ok () => s.reply .initialised
    | .error err => s.reply (.refused err)
  | .debounce raw rows changed =>
    let (hint, tracker) :=
      match changed with
      | some c => (c, s.tracker)
      | none => s.tracker.update raw
    let (now, clock) := s.clock.read
    let (d, cooked) :=
      s.debouncer.debounce s.layout s.timing now raw s.cooked (rows.getD raw.length) hint
    { s with debouncer := d, clock, cooked, tracker }.reply (.debounced hint)
  | .setCooked cooked => { s with cooked }.reply .done
  | .teardown => { s with debouncer := s.debouncer.teardown }.reply .done
  | .advance ticks =>
    match s.clock.advance ticks with
    | .ok clock => { s with clock }.reply (.now clock.peek)
    | .error f => (.error (.clock f), s)
  | .set now =>
    match s.clock.set now with
    | .ok clock => { s with clock }.reply (.now clock.peek)
    | .error f => (.error (.clock f), s)
  | .phase row col =>
    match s.debouncer.engine with
    | .quiesce q => s.reply (.phase (q.phase? row col))
    | _ => (.error .phaseUnavailable, s)
  | .periodic => s.reply (.periodic s.debouncer.engine.requiresPeriodicService)
  | .state => s.reply .done

end Session

end KeyDebounce
