import KeyDebounce.Proofs.Invariant
import KeyDebounce.Proofs.Chain.Unbounded

/-!
# Clamped elapsed time

The stopwatch reports at most 255 ticks between passes, and countdowns are bytes. Neither bound is
observable: from every engine with its invariant, and with every threshold and the quiet window
within a byte, a pass given the ticks clamped to a byte leaves the same engine and the same cooked
buffer as the pass over unbounded countdowns given the true ticks. A countdown within a byte
either outlasts both the clamped and the true ticks, and then they are equal, or outlasts neither;
so a pass that comes a byte's worth late or more runs out every countdown exactly as the true
delay would. The deferring and quiescing engines never bound a countdown, so their passes over
unbounded countdowns are their own passes; the chained one saturates its extensions, and
`Chain.step_clamp` shows that this never bites.
-/

set_option autoImplicit false

namespace KeyDebounce

open Row

variable {w : Nat} {L : Layout} {t : Timing}

namespace Defer

theorem keyStep_clamp (t : Timing) (d : Nat) (changed : Bool) (raw delta : BitVec w)
    (col : Nat) {count : Nat} (hn : count ≤ 255) (active : Nat) (cooked : BitVec w) :
    keyStep t (min d 255) changed raw delta col count active cooked =
      keyStep t d changed raw delta col count active cooked := by
  -- ticks that do not run the countdown out are fewer than a byte's worth, so the clamp keeps them
  by_cases hd : d < count
  · rw [Nat.min_eq_left (by omega)]
  · simp only [keyStep, show ¬min d 255 < count by omega, hd, ↓reduceIte]

theorem rowStep_clamp (t : Timing) (d : Nat) (changed : Bool) (raw cooked : BitVec w)
    {row : RowState} (hrow : ∀ n ∈ row.counters, n ≤ 255) :
    rowStep t (min d 255) changed raw cooked row = rowStep t d changed raw cooked row := by
  have hkeys : keysStep t (min d 255) changed raw (raw ^^^ cooked) 0 row.counters row.active
      cooked = keysStep t d changed raw (raw ^^^ cooked) 0 row.counters row.active cooked := by
    rw [keysStep_eq, keysStep_eq]
    exact keysWith_congr _ _ 0 row.counters row.active cooked fun n hn col active x =>
      keyStep_clamp t d changed raw _ col (hrow n hn) active x
  simp only [rowStep, hkeys]

theorem counter_of_mem {s : State} {row : RowState} (hrow : row ∈ s.rows) {n : Nat}
    (hn : n ∈ row.counters) : ∃ r c, s.counter r c = n := by
  obtain ⟨r, hr, rfl⟩ := List.getElem_of_mem hrow
  obtain ⟨c, hc, rfl⟩ := List.getElem_of_mem hn
  exact ⟨r, c, by simp [State.counter, List.getElem?_eq_getElem hr, List.getElem?_eq_getElem hc]⟩

theorem step_clamp (hbyte : t.longest ≤ 255) {s : State} (hs : s.Invariant L t) (d : Nat)
    (raw cooked : List (BitVec w)) (numRows : Nat) (changed : Bool) :
    s.step t (min d 255) raw cooked numRows changed = s.step t d raw cooked numRows changed := by
  have hscan := scanWith_congr (fun r x c => rowStep t (min d 255) changed x c r)
    (fun r x c => rowStep t d changed x c r)
    (rowsToScan numRows s.rows.length raw.length cooked.length) s.rows raw cooked
    fun row hrow x c => rowStep_clamp t d changed x c fun n hn => by
      obtain ⟨r, c, rfl⟩ := counter_of_mem hrow hn
      exact le_trans (hs.bounded r c) hbyte
  simp only [step_eq, hscan]

end Defer

namespace Quiesce

theorem keyStep_clamp (t : Timing) (d : Nat) (raw : BitVec w) (col : Nat) (edge : Bool)
    {k : Key} (hk : k.remaining ≤ 255) (active : Nat) (cooked : BitVec w) :
    keyStep t (min d 255) raw col edge k active cooked =
      keyStep t d raw col edge k active cooked := by
  by_cases hd : d < k.remaining
  · rw [Nat.min_eq_left (by omega)]
  · simp only [keyStep, show ¬min d 255 < k.remaining by omega, hd, ↓reduceIte]

theorem rowStep_clamp (t : Timing) (d : Nat) (raw cooked : BitVec w) {row : RowState}
    (hrow : ∀ k ∈ row.keys, k.remaining ≤ 255) :
    rowStep t (min d 255) raw cooked row = rowStep t d raw cooked row := by
  have hkeys : keysStep t (min d 255) raw (raw ^^^ cooked) 0 row.keys row.active cooked =
      keysStep t d raw (raw ^^^ cooked) 0 row.keys row.active cooked := by
    rw [keysStep_eq, keysStep_eq]
    exact keysWith_congr _ _ 0 row.keys row.active cooked fun k hk col active x =>
      keyStep_clamp t d raw col _ (hrow k hk) active x
  simp only [rowStep, hkeys]

theorem key_of_mem {s : State} {row : RowState} (hrow : row ∈ s.rows) {k : Key}
    (hk : k ∈ row.keys) : ∃ r c, s.key r c = k := by
  obtain ⟨r, hr, rfl⟩ := List.getElem_of_mem hrow
  obtain ⟨c, hc, rfl⟩ := List.getElem_of_mem hk
  exact ⟨r, c, by simp [State.key, List.getElem?_eq_getElem hr, List.getElem?_eq_getElem hc]⟩

theorem Key.Fits.remaining_le {k : Key} (hk : k.Fits t) :
    k.remaining ≤ max t.longest t.quiesce := by
  unfold Key.Fits at hk
  split at hk <;> omega

theorem step_clamp (hbyte : t.longest ≤ 255) (hquiet : t.quiesce ≤ 255) {s : State}
    (hs : s.Invariant L t) (d : Nat) (raw cooked : List (BitVec w)) (numRows : Nat) :
    s.step t (min d 255) raw cooked numRows = s.step t d raw cooked numRows := by
  have hscan := scanWith_congr (fun r x c => rowStep t (min d 255) x c r)
    (fun r x c => rowStep t d x c r)
    (rowsToScan numRows s.rows.length raw.length cooked.length) s.rows raw cooked
    fun row hrow x c => rowStep_clamp t d x c fun k hk => by
      obtain ⟨r, c, rfl⟩ := key_of_mem hrow hk
      have := (hs.phases r c).remaining_le
      omega
  simp only [step_eq, hscan]

end Quiesce

namespace Engine

/-- A pass over countdowns of unbounded size, `e` ticks after the previous one. Only the chained
engine bounds a countdown, when it extends one by the elapsed ticks; the other two count down
from any number already. -/
def stepUnbounded (g : Engine) (L : Layout) (t : Timing) (e : Nat) (raw cooked : List (BitVec w))
    (numRows : Nat) (changed : Bool) : Engine × List (BitVec w) :=
  match g with
  | chain s => let (s, c) := s.stepUnbounded L t e raw cooked numRows changed; (chain s, c)
  | g => g.step L t e raw cooked numRows changed

end Engine

/-- From every engine with its invariant, with the thresholds and the quiet window within a byte,
a pass given the elapsed ticks clamped to a byte leaves the same engine, so the same phase and
countdown for every key, and the same cooked buffer as the pass over unbounded countdowns given
the true ticks, however late. So a debouncer that lapped its stopwatch before passes exactly as
if the stopwatch reported the true gap since the previous lap. -/
theorem clamped_elapsed_exact (hbyte : t.longest ≤ 255) (hquiet : t.quiesce ≤ 255) {g : Engine}
    (hg : g.Invariant L t) (raw cooked : List (BitVec w)) (numRows : Nat) (changed : Bool) :
    (∀ d, g.step L t (min d 255) raw cooked numRows changed =
      g.stepUnbounded L t d raw cooked numRows changed) ∧
    ∀ (watch : Stopwatch) (last now : Nat), watch.last = some last →
      (Debouncer.mk g watch).debounce L t now raw cooked numRows changed =
        let out := g.stepUnbounded L t (Stopwatch.gap last now) raw cooked numRows changed
        (⟨out.1, ⟨some now⟩⟩, out.2) := by
  have hstep : ∀ d, g.step L t (min d 255) raw cooked numRows changed =
      g.stepUnbounded L t d raw cooked numRows changed := by
    intro d
    cases g with
    | defer s =>
      simp only [Engine.step, Engine.stepUnbounded, Defer.step_clamp hbyte hg d]
    | chain s =>
      simp only [Engine.step, Engine.stepUnbounded, Chain.step_clamp hbyte hg d]
    | quiesce s =>
      simp only [Engine.step, Engine.stepUnbounded, Quiesce.step_clamp hbyte hquiet hg d]
  refine ⟨hstep, fun watch last now hlast => ?_⟩
  simp only [Debouncer.debounce, Stopwatch.lap, hlast, hstep]

/-- A freshly sized chained engine of two rows of four columns. -/
theorem sized_chain_clamped_elapsed :
    let L : Layout := ⟨2, 4⟩
    let t : Timing := ⟨5, 20, 0⟩
    let g := ((Engine.new .eagerList).init L 2).2
    let raw := [0b0110#8, 0b0001#8]
    let cooked := [0b0100#8, 0#8]
    (t.longest ≤ 255 ∧ t.quiesce ≤ 255 ∧ g.Invariant L t) ∧
    (∀ d, g.step L t (min d 255) raw cooked 2 true =
      g.stepUnbounded L t d raw cooked 2 true) ∧
    ∀ (watch : Stopwatch) (last now : Nat), watch.last = some last →
      (Debouncer.mk g watch).debounce L t now raw cooked 2 true =
        let out := g.stepUnbounded L t (Stopwatch.gap last now) raw cooked 2 true
        (⟨out.1, ⟨some now⟩⟩, out.2) :=
  have hg : ((Engine.new .eagerList).init ⟨2, 4⟩ 2).2.Invariant ⟨2, 4⟩ ⟨5, 20, 0⟩ :=
    Engine.invariant_init _ 2
  ⟨⟨by decide, by decide, hg⟩,
    clamped_elapsed_exact (by decide) (by decide) hg [0b0110#8, 0b0001#8] [0b0100#8, 0#8] 2 true⟩

end KeyDebounce
