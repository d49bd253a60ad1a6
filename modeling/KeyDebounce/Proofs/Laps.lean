import Mathlib
import KeyDebounce.Clock

/-!
# What a lap reports

The stopwatch keeps the reading of its previous lap and nothing else, and only a lap or a reset
touches it. So over every sequence of requests to a clock and its stopwatch, the first lap after a
new stopwatch or a reset reports one tick, and every later lap reports the ticks from the previous
lap's reading to its own, modulo 65536 and saturated at 255. For each kind of clock this gives
the ticks it moved: a manual clock advanced by fewer than 65536 ticks reports them, also across
the wrap; a millisecond clock reports the milliseconds modulo 65536; and a frame clock that only
the stopwatch reads reports one tick at every lap.
-/

set_option autoImplicit false

namespace KeyDebounce

namespace Stopwatch

theorem gap_eq_emod (earlier later : Nat) :
    gap earlier later = (((later : Int) - earlier) % 65536).toNat := by
  unfold gap tickModulus
  omega

theorem lap_snd (s : Stopwatch) (now : Nat) : (s.lap now).2 = ⟨some now⟩ := by
  unfold lap
  split <;> rfl

theorem lap_of_last {s : Stopwatch} {earlier : Nat} (h : s.last = some earlier) (now : Nat) :
    (s.lap now).1 = min (gap earlier now) 255 := by
  unfold lap
  rw [h]

end Stopwatch

namespace Clock

theorem advance_manual {a x : Nat} (hx : x < tickModulus) :
    (manual a).advance x = .ok (manual ((a + x) % tickModulus)) := by
  simp [advance, hx]

theorem advance_millis {m x : Nat} (h : (m + x) * microsPerMilli < instantLimit) :
    (millis m).advance x = .ok (millis (m + x)) := by
  have hdur : x * microsPerMilli < instantLimit :=
    Nat.lt_of_le_of_lt (Nat.mul_le_mul_right _ (Nat.le_add_left x m)) h
  have hx : x < instantLimit :=
    Nat.lt_of_le_of_lt (Nat.le_mul_of_pos_right x (by decide : 0 < microsPerMilli)) hdur
  simp [advance, Nat.not_le_of_gt hx, Nat.not_le_of_gt hdur, Nat.not_le_of_gt h]

end Clock

namespace Timer

/-- The timer after the requests `qs`, one after another. -/
def runAll (t : Timer) (qs : List TimerStep) : Timer := qs.foldl (fun t q => (t.step q).2) t

@[simp] theorem runAll_nil (t : Timer) : t.runAll [] = t := rfl

@[simp] theorem runAll_cons (t : Timer) (q : TimerStep) (qs : List TimerStep) :
    t.runAll (q :: qs) = (t.step q).2.runAll qs := rfl

theorem step_lap (t : Timer) :
    t.step .lap = (.ok (.elapsed (t.watch.lap t.clock.read.1).1),
      ⟨t.clock.read.2, ⟨some t.clock.read.1⟩⟩) := by
  simp only [step, Stopwatch.lap_snd]

theorem step_advance {t : Timer} {x : Nat} {c : Clock} (h : t.clock.advance x = .ok c) :
    (t.step (.advance x)).2 = { t with clock := c } := by
  simp [step, h]

theorem watch_step {q : TimerStep} (hlap : q ≠ .lap) (hreset : q ≠ .reset) (t : Timer) :
    (t.step q).2.watch = t.watch := by
  cases q with
  | lap => exact absurd rfl hlap
  | reset => exact absurd rfl hreset
  | read => rfl
  | advance ticks =>
    simp only [step]
    split <;> rfl
  | set now =>
    simp only [step]
    split <;> rfl

theorem watch_runAll {qs : List TimerStep} (h : ∀ q ∈ qs, q ≠ .lap ∧ q ≠ .reset) (t : Timer) :
    (t.runAll qs).watch = t.watch := by
  induction qs generalizing t with
  | nil => rfl
  | cons q qs ih =>
    have hq := h q List.mem_cons_self
    rw [runAll_cons, ih (fun q' hq' => h q' (List.mem_cons_of_mem q hq')), watch_step hq.1 hq.2]

theorem watch_runAll_fresh {qs : List TimerStep} (hlap : ∀ q ∈ qs, q ≠ .lap) {t : Timer}
    (ht : t.watch = Stopwatch.fresh ∨ .reset ∈ qs) : (t.runAll qs).watch = Stopwatch.fresh := by
  induction qs generalizing t with
  | nil => simpa using ht
  | cons q qs ih =>
    have hlap' : ∀ q' ∈ qs, q' ≠ .lap := fun q' hq' => hlap q' (List.mem_cons_of_mem q hq')
    rw [runAll_cons]
    by_cases hq : q = .reset
    · -- the reset clears the stopwatch, and nothing after it sets a reading
      subst hq
      exact ih hlap' (Or.inl rfl)
    · apply ih hlap'
      rw [watch_step (hlap q List.mem_cons_self) hq]
      simpa [hq, eq_comm] using ht

theorem first_lap {qs : List TimerStep} (hlap : ∀ q ∈ qs, q ≠ .lap) {t : Timer}
    (ht : t.watch = Stopwatch.fresh ∨ .reset ∈ qs) :
    ((t.runAll qs).step .lap).1 = .ok (.elapsed 1) := by
  rw [step_lap, watch_runAll_fresh hlap ht]
  rfl

theorem next_lap {qs : List TimerStep} (h : ∀ q ∈ qs, q ≠ .lap ∧ q ≠ .reset) (t : Timer) :
    (((t.step .lap).2.runAll qs).step .lap).1 =
      .ok (.elapsed (min (Stopwatch.gap t.clock.read.1
        ((t.step .lap).2.runAll qs).clock.read.1) 255)) := by
  have hwatch : ((t.step .lap).2.runAll qs).watch.last = some t.clock.read.1 := by
    rw [watch_runAll h, step_lap]
  rw [step_lap, Stopwatch.lap_of_last hwatch]

theorem clock_runAll_manual {xs : List Nat} (hxs : ∀ x ∈ xs, x < tickModulus) {t : Timer}
    {a : Nat} (ht : t.clock = .manual a) :
    ∃ b, (t.runAll (xs.map .advance)).clock = .manual b ∧
      b % tickModulus = (a + xs.sum) % tickModulus := by
  induction xs generalizing t a with
  | nil => exact ⟨a, by simpa using ht, by simp⟩
  | cons x xs ih =>
    have hx := hxs x List.mem_cons_self
    have hstep : (t.step (.advance x)).2.clock = .manual ((a + x) % tickModulus) := by
      rw [step_advance (by rw [ht]; exact Clock.advance_manual hx)]
    obtain ⟨b, hb, hmod⟩ := ih (fun x' hx' => hxs x' (List.mem_cons_of_mem x hx')) hstep
    refine ⟨b, by simpa using hb, ?_⟩
    rw [hmod, List.sum_cons]
    unfold tickModulus
    omega

theorem clock_runAll_millis {xs : List Nat} {t : Timer} {m : Nat} (ht : t.clock = .millis m)
    (h : (m + xs.sum) * microsPerMilli < instantLimit) :
    (t.runAll (xs.map .advance)).clock = .millis (m + xs.sum) := by
  induction xs generalizing t m with
  | nil => simpa using ht
  | cons x xs ih =>
    rw [List.sum_cons, ← Nat.add_assoc] at h ⊢
    have hx : (m + x) * microsPerMilli < instantLimit :=
      Nat.lt_of_le_of_lt (Nat.mul_le_mul_right _ (Nat.le_add_right _ _)) h
    have hstep : (t.step (.advance x)).2.clock = .millis (m + x) := by
      rw [step_advance (by rw [ht]; exact Clock.advance_millis hx)]
    simpa using ih hstep h

/-- A frame clock that only laps read stays in step with its stopwatch: the stopwatch holds no
reading, or the frame count. -/
def FramesInStep (t : Timer) : Prop :=
  ∃ c, t.clock = .frames c ∧ (t.watch.last = none ∨ t.watch.last = some c)

theorem FramesInStep.step {t : Timer} (ht : t.FramesInStep) {q : TimerStep}
    (hq : q ≠ .read) :
    (t.step q).2.FramesInStep ∧ (q = .lap → (t.step q).1 = .ok (.elapsed 1)) := by
  obtain ⟨c, hc, hlast⟩ := ht
  cases q with
  | lap =>
    -- the frame moves one tick, exactly the gap from the reading the stopwatch holds
    have hone : (t.watch.lap ((c + 1) % tickModulus)).1 = 1 := by
      rcases hlast with hnone | hsome
      · simp [Stopwatch.lap, hnone]
      · rw [Stopwatch.lap_of_last hsome, Stopwatch.gap]
        unfold tickModulus
        omega
    rw [step_lap, hc]
    exact ⟨⟨(c + 1) % tickModulus, rfl, Or.inr rfl⟩, fun _ => by simpa [Clock.read] using hone⟩
  | reset => exact ⟨⟨c, hc, Or.inl rfl⟩, nofun⟩
  | read => exact absurd rfl hq
  | advance ticks =>
    -- a frame clock refuses to be moved, and the timer stays as it was
    have hkeep : t.step (.advance ticks) = (.error .framesCannotAdvance, t) := by
      simp [Timer.step, hc, Clock.advance]
    rw [hkeep]
    exact ⟨⟨c, hc, hlast⟩, nofun⟩
  | set now =>
    have hkeep : t.step (.set now) = (.error .onlyManualSet, t) := by
      simp [Timer.step, hc, Clock.set]
    rw [hkeep]
    exact ⟨⟨c, hc, hlast⟩, nofun⟩

theorem FramesInStep.runAll {qs : List TimerStep} (hqs : ∀ q ∈ qs, q ≠ .read) {t : Timer}
    (ht : t.FramesInStep) : (t.runAll qs).FramesInStep := by
  induction qs generalizing t with
  | nil => exact ht
  | cons q qs ih =>
    exact ih (fun q' hq' => hqs q' (List.mem_cons_of_mem q hq'))
      (ht.step (hqs q List.mem_cons_self)).1

/-- The first lap after a new stopwatch or a reset reports one tick, and every later lap the
ticks from the previous lap's reading to its own, modulo 65536 and saturated at 255, whatever
requests came between. So a manual clock advanced by fewer than 65536 ticks in all between two
laps reports them, saturated, also across the wrap; a millisecond clock advanced by `g`
milliseconds reports `g` modulo 65536, saturated; and a frame clock that only laps read reports
one tick at every lap of a new stopwatch. -/
theorem lap_reports_wrapped_gap :
    (∀ (t : Timer) (qs : List TimerStep), (t.watch = Stopwatch.fresh ∨ .reset ∈ qs) →
      (∀ q ∈ qs, q ≠ .lap) → ((t.runAll qs).step .lap).1 = .ok (.elapsed 1)) ∧
    (∀ (t : Timer) (qs : List TimerStep), (∀ q ∈ qs, q ≠ .lap ∧ q ≠ .reset) →
      let later := (t.step .lap).2.runAll qs
      (later.step .lap).1 = .ok (.elapsed
        (min (((later.clock.read.1 : Int) - t.clock.read.1) % 65536).toNat 255))) ∧
    (∀ (t : Timer) (a : Nat) (xs : List Nat), t.clock = .manual a → (∀ x ∈ xs, x < 65536) →
      xs.sum < 65536 → (((t.step .lap).2.runAll (xs.map .advance)).step .lap).1 =
        .ok (.elapsed (min xs.sum 255))) ∧
    (∀ (t : Timer) (m : Nat) (xs : List Nat), t.clock = .millis m →
      (m + xs.sum) * microsPerMilli < instantLimit →
      (((t.step .lap).2.runAll (xs.map .advance)).step .lap).1 =
        .ok (.elapsed (min (xs.sum % 65536) 255))) ∧
    (∀ (t : Timer) (c : Nat) (qs : List TimerStep), t.clock = .frames c →
      t.watch = Stopwatch.fresh → (∀ q ∈ qs, q ≠ .read) →
      ((t.runAll qs).step .lap).1 = .ok (.elapsed 1)) := by
  have hadv : ∀ xs : List Nat, ∀ q ∈ xs.map TimerStep.advance, q ≠ .lap ∧ q ≠ .reset := by
    simp
  refine ⟨fun t qs ht hlap => first_lap hlap ht, fun t qs h => ?_, ?_, ?_, ?_⟩
  · dsimp only
    rw [next_lap h, Stopwatch.gap_eq_emod]
  · intro t a xs ht hxs hsum
    -- a lap does not move a manual clock, and the advances move it by their sum
    have hlap : (t.step .lap).2.clock = .manual a := by rw [step_lap, ht]; rfl
    obtain ⟨b, hb, hmod⟩ := clock_runAll_manual hxs hlap
    rw [next_lap (hadv xs), hb, ht]
    simp only [Clock.read, Stopwatch.gap]
    unfold tickModulus at hmod ⊢
    congr 3
    omega
  · intro t m xs ht hover
    have hlap : (t.step .lap).2.clock = .millis m := by rw [step_lap, ht]; rfl
    rw [next_lap (hadv xs), clock_runAll_millis hlap hover, ht]
    simp only [Clock.read, Stopwatch.gap]
    unfold tickModulus
    congr 3
    omega
  · intro t c qs hc hfresh hqs
    have hstep : (t.runAll qs).FramesInStep :=
      FramesInStep.runAll hqs ⟨c, hc, Or.inl (by rw [hfresh]; rfl)⟩
    exact (@FramesInStep.step _ hstep .lap (by decide)).2 rfl

/-- Laps around an advance of seven ticks from three ticks before the wrap report seven. -/
theorem lap_across_wrap :
    ({ clock := .manual 65533 } : Timer).clock = .manual 65533 ∧ (∀ x ∈ [7], x < 65536) ∧
      [7].sum < 65536 ∧
      (((({ clock := .manual 65533 } : Timer).step .lap).2.runAll [.advance 7]).step .lap).1 =
        .ok (.elapsed 7) :=
  ⟨rfl, by decide, by decide, lap_reports_wrapped_gap.2.2.1 _ 65533 [7] rfl (by decide) (by decide)⟩

end Timer

end KeyDebounce
