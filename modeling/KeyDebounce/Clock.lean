/-!
# Clocks and the stopwatch

Every clock reads as a 16-bit counter that wraps. A manual clock moves only when set or advanced,
a frame clock counts its own readings, and a millisecond clock is read as the low 16 bits of its
millisecond count. That count stands on a 64-bit count of microseconds, so an advance whose
microseconds, or whose sum with the time so far, leaves 64 bits stops the run. The stopwatch turns readings into the ticks elapsed since its previous lap:
the first lap after a reset is one tick, and a lap never reports more than 255.
-/

set_option autoImplicit false

namespace KeyDebounce

def tickModulus : Nat := 65536

def microsPerMilli : Nat := 1000

def instantLimit : Nat := Nat.pow 2 64

/-- A tick source. -/
inductive Clock where
  /-- Stands still until set or advanced. -/
  | manual (now : Nat)
  /-- Every reading is one tick later than the previous one. -/
  | frames (count : Nat)
  /-- A millisecond count, read modulo `tickModulus`. -/
  | millis (ms : Nat)
  deriving DecidableEq, Repr

inductive ClockFault where
  | framesCannotAdvance
  | onlyManualSet
  | advanceTooWide
  | valueTooWide
  /-- A millisecond advance that is not a 64-bit number. -/
  | millisTooWide
  /-- A millisecond advance whose microseconds leave 64 bits. -/
  | durationOverflow
  /-- An advance that takes the microsecond count past 64 bits. -/
  | instantOverflow
  deriving DecidableEq, Repr

def ClockFault.message : ClockFault → String
  | .framesCannotAdvance => "frame clock cannot be advanced"
  | .onlyManualSet => "only the manual clock can be set"
  | .advanceTooWide => "manual clock advance must fit in u16"
  | .valueTooWide => "manual clock value must fit in u16"
  | .millisTooWide => "embassy clock advance must fit in u64"
  | .durationOverflow => "attempt to multiply with overflow"
  | .instantOverflow => "overflow when adding duration to instant"

def ClockFault.aborts : ClockFault → Bool
  | .durationOverflow | .instantOverflow => true
  | _ => false

namespace Clock

def read : Clock → Nat × Clock
  | manual now => (now, manual now)
  | frames count =>
    let next := (count + 1) % tickModulus
    (next, frames next)
  | millis ms => (ms % tickModulus, millis ms)

def peek : Clock → Nat
  | manual now => now
  | frames count => count
  | millis ms => ms % tickModulus

/-- Move the clock forward: a manual clock by a 16-bit amount, wrapping; a millisecond clock by a
64-bit number of milliseconds while its microsecond count fits in 64 bits. A frame clock only
moves by being read. -/
def advance (c : Clock) (ticks : Nat) : Except ClockFault Clock :=
  match c with
  | manual now =>
    if ticks < tickModulus then .ok (manual ((now + ticks) % tickModulus))
    else .error .advanceTooWide
  | frames _ => .error .framesCannotAdvance
  | millis ms =>
    if instantLimit ≤ ticks then .error .millisTooWide
    else if instantLimit ≤ ticks * microsPerMilli then .error .durationOverflow
    else if instantLimit ≤ (ms + ticks) * microsPerMilli then .error .instantOverflow
    else .ok (millis (ms + ticks))

def set (c : Clock) (now : Nat) : Except ClockFault Clock :=
  match c with
  | manual _ => if now < tickModulus then .ok (manual now) else .error .valueTooWide
  | _ => .error .onlyManualSet

end Clock

structure Stopwatch where
  last : Option Nat := none
  deriving DecidableEq, Repr

namespace Stopwatch

def fresh : Stopwatch := {}

def gap (earlier later : Nat) : Nat := (later + tickModulus - earlier % tickModulus) % tickModulus

/-- Lap at reading `now`: one tick for the first lap, else the gap since the last one,
saturated at 255. -/
def lap (s : Stopwatch) (now : Nat) : Nat × Stopwatch :=
  match s.last with
  | none => (1, { last := some now })
  | some last => (min (gap last now) 255, { last := some now })

theorem lap_le (s : Stopwatch) (now : Nat) : (s.lap now).1 ≤ 255 := by
  unfold lap
  cases s.last with
  | none => exact (by decide : 1 ≤ 255)
  | some last => exact Nat.min_le_right _ _

end Stopwatch

inductive TimerStep where
  | lap
  | reset
  | read
  | advance (ticks : Nat)
  | set (now : Nat)
  deriving DecidableEq, Repr

inductive TimerReply where
  | elapsed (ticks : Nat)
  | reset
  | now (reading : Nat)
  deriving DecidableEq, Repr

structure Timer where
  clock : Clock
  watch : Stopwatch := {}
  deriving DecidableEq, Repr

/-- Carry out one request; a refused request leaves the timer as it was. -/
def Timer.step (t : Timer) : TimerStep → Except ClockFault TimerReply × Timer
  | .lap =>
    let (now, clock) := t.clock.read
    let (ticks, watch) := t.watch.lap now
    (.ok (.elapsed ticks), { clock, watch })
  | .reset => (.ok .reset, { t with watch := Stopwatch.fresh })
  | .read =>
    let (now, clock) := t.clock.read
    (.ok (.now now), { t with clock })
  | .advance ticks =>
    match t.clock.advance ticks with
    | .ok clock => (.ok (.now clock.peek), { t with clock })
    | .error e => (.error e, t)
  | .set now =>
    match t.clock.set now with
    | .ok clock => (.ok (.now clock.peek), { t with clock })
    | .error e => (.error e, t)

end KeyDebounce
