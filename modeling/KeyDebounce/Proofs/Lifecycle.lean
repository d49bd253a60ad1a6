import KeyDebounce.Proofs.View

/-!
# Initialising and tearing down

`init` forgets everything an engine held: from any state it gives what it gives a new engine of
the same kind. Within the reserved rows it succeeds with every key idle and nothing in flight; past
them it refuses with the rows asked for and the rows reserved, and leaves the engine torn down.
A torn-down engine has no rows, no key in flight and no phase to report, tearing down again
changes nothing, and a pass over an engine without rows leaves the cooked buffer as it was. Both
restart the stopwatch, so the next pass counts one tick.
-/

set_option autoImplicit false

namespace KeyDebounce

variable {w : Nat}

theorem scanWith_nil {ρ : Type} (f : ρ → BitVec w → BitVec w → ρ × BitVec w) (n : Nat)
    (raw cooked : List (BitVec w)) : scanWith f n [] raw cooked = ([], cooked) := by
  cases n <;> rfl

namespace Chain

theorem expire_of_nodes_nil (L : Layout) (e : Nat) (raw : List (BitVec w)) {s : State}
    (hs : s.nodes = []) (fuel prev cur : Nat) (cooked : List (BitVec w)) :
    expire L e raw fuel prev cur s cooked = (s, cooked) := by
  have hnone : s.node? L cur = none := by simp [State.node?, hs]
  cases fuel with
  | zero => rfl
  | succ fuel =>
    unfold expire
    split
    · rfl
    · rw [hnone]

theorem pending_of_head {s : State} {L : Layout} (h : s.head = null) : s.pending L = [] := by
  simp [State.pending, State.chainFrom, h]

end Chain

namespace Engine

variable {L : Layout}

/-- An engine sized for `n` rows with nothing in flight: `n` rows, every key idle, and the
chained engine's chain empty. -/
structure Idle (g : Engine) (L : Layout) (n : Nat) : Prop where
  rows : g.rowCount = n
  keys : ∀ r c, g.countdown L r c = 0 ∧ g.keyInFlight L r c = false
  none_inFlight : g.inFlight L = 0
  head : ∀ s, g = .chain s → s.head = Chain.null

theorem idle_defer {n : Nat} {s : Defer.State} (h : Defer.State.init L n = .ok s) :
    (Engine.defer s).Idle L n := by
  have hs : s.rows = List.replicate n (Defer.RowState.idle L.cols) := by
    unfold Defer.State.init at h
    split at h <;> cases h
    rfl
  refine ⟨by simp [rowCount, hs], fun r c => ?_, ?_, fun _ h => by cases h⟩
  · simp [countdown, keyInFlight, Defer.counter_init h r c]
  · simp [inFlight, Defer.State.inFlight, hs, Defer.RowState.idle]

theorem idle_quiesce {n : Nat} {s : Quiesce.State} (h : Quiesce.State.init L n = .ok s) :
    (Engine.quiesce s).Idle L n := by
  have hs : s.rows = List.replicate n (Quiesce.RowState.idle L.cols) := by
    unfold Quiesce.State.init at h
    split at h <;> cases h
    rfl
  refine ⟨by simp [rowCount, hs], fun r c => ?_, ?_, fun _ h => by cases h⟩
  · simp [countdown, keyInFlight, Quiesce.key_init h r c, Quiesce.Key.waiting, Quiesce.Key.busy]
  · simp [inFlight, Quiesce.State.inFlight, hs, Quiesce.RowState.idle]

theorem idle_chain {n : Nat} {s : Chain.State} (h : Chain.State.init L n = .ok s) :
    (Engine.chain s).Idle L n := by
  have hs : s = ⟨List.replicate n (List.replicate L.cols Chain.Node.idle), Chain.null⟩ := by
    unfold Chain.State.init at h
    split at h <;> cases h
    rfl
  have hhead : s.head = Chain.null := by rw [hs]
  refine ⟨by simp [rowCount, hs], fun r c => ?_, ?_, fun _ h => by cases h; exact hhead⟩
  · simp [countdown, keyInFlight, Chain.remainingAt_init h, Chain.pending_of_head hhead]
  · simp [inFlight, Chain.State.inFlight, Chain.pending_of_head hhead]

theorem init_of_le (g : Engine) {n : Nat} (h : n ≤ L.capacity) :
    (g.init L n).1 = .ok () ∧ (g.init L n).2.Idle L n := by
  cases g with
  | defer s =>
    unfold init
    cases hi : Defer.State.init L n with
    | ok s₀ => exact ⟨rfl, idle_defer hi⟩
    | error err => simp [Defer.State.init, h] at hi
  | chain s =>
    rw [init_chain]
    cases hi : Chain.State.init L n with
    | ok s₀ => exact ⟨by simp [init, hi], idle_chain hi⟩
    | error err => simp [Chain.State.init, h] at hi
  | quiesce s =>
    unfold init
    cases hi : Quiesce.State.init L n with
    | ok s₀ => exact ⟨rfl, idle_quiesce hi⟩
    | error err => simp [Quiesce.State.init, h] at hi

theorem init_of_lt (g : Engine) {n : Nat} (h : L.capacity < n) :
    g.init L n = (.error (.outOfMemory n L.capacity), g.teardown) := by
  have hn : ¬n ≤ L.capacity := Nat.not_le_of_gt h
  cases g <;> simp [init, Defer.State.init, Chain.State.init, Quiesce.State.init, hn]

theorem init_eq_new (g : Engine) (n : Nat) : g.init L n = (Engine.new g.kind).init L n := by
  cases g <;> rfl

theorem idle_teardown (g : Engine) : g.teardown.Idle L 0 := by
  cases g
  · exact idle_defer (by simp [Defer.State.init, Defer.State.empty])
  · exact idle_chain (by simp [Chain.State.init, Chain.State.empty])
  · exact idle_quiesce (by simp [Quiesce.State.init, Quiesce.State.empty])

theorem teardown_teardown (g : Engine) : g.teardown.teardown = g.teardown := by
  cases g <;> rfl

theorem phase?_teardown (g : Engine) (r c : Nat) : g.teardown.phase? r c = none := by
  cases g <;> simp [teardown, phase?, Quiesce.State.phase?, Quiesce.State.empty]

theorem step_of_rowCount_eq_zero {g : Engine} (h : g.rowCount = 0) (t : Timing) (e : Nat)
    (raw cooked : List (BitVec w)) (numRows : Nat) (changed : Bool) :
    (g.step L t e raw cooked numRows changed).2 = cooked := by
  cases g with
  | defer s =>
    have hs : s.rows = [] := List.eq_nil_of_length_eq_zero h
    simp [step, Defer.step_eq, hs, scanWith_nil]
  | chain s =>
    have hs : s.nodes = [] := List.eq_nil_of_length_eq_zero h
    -- the walk finds no key, whatever the head says
    have hexp : (if s.head = Chain.null then (s, cooked)
        else Chain.expire L e raw (s.size + 1) Chain.null s.head s cooked) = (s, cooked) := by
      split
      · rfl
      · exact Chain.expire_of_nodes_nil L e raw hs _ _ _ cooked
    simp only [step, Chain.State.step, hexp]
  | quiesce s =>
    have hs : s.rows = [] := List.eq_nil_of_length_eq_zero h
    simp [step, Quiesce.step_eq, hs, scanWith_nil]

end Engine

namespace Debouncer

variable {L : Layout}

theorem watch_init (d : Debouncer) (n : Nat) : (d.init L n).2.watch = Stopwatch.fresh := rfl

theorem init_eq_new (d : Debouncer) (n : Nat) :
    d.init L n = (Debouncer.new d.engine.kind).init L n := by
  unfold init
  rw [Engine.init_eq_new]
  rfl

/-- From any state, `init` gives what it gives a new debouncer of the same kind: within the
reserved rows it succeeds with every key idle; past them it refuses with the rows asked for and
the rows reserved and is a teardown. A torn-down debouncer has no rows, no key in flight and no
phase to report, and tearing down again changes nothing; both restart the stopwatch. A pass over
a debouncer without rows leaves the cooked buffer as it was. -/
theorem init_restarts (d : Debouncer) (n : Nat) :
    d.init L n = (Debouncer.new d.engine.kind).init L n ∧
    (n ≤ L.capacity → (d.init L n).1 = .ok () ∧ (d.init L n).2.engine.Idle L n ∧
      ∀ now, ((d.init L n).2.watch.lap now).1 = 1) ∧
    (L.capacity < n → d.init L n = (.error (.outOfMemory n L.capacity), d.teardown)) ∧
    (d.teardown.engine.Idle L 0 ∧ (∀ r c, d.teardown.engine.phase? r c = none) ∧
      ∀ now, (d.teardown.watch.lap now).1 = 1) ∧
    d.teardown.teardown = d.teardown ∧
    (d.engine.rowCount = 0 → ∀ (t : Timing) (now : Nat) (raw cooked : List (BitVec w))
      (numRows : Nat) (changed : Bool),
        (d.debounce L t now raw cooked numRows changed).2 = cooked) := by
  refine ⟨init_eq_new d n, fun h => ?_, fun h => ?_, ?_, ?_, ?_⟩
  · obtain ⟨hok, hidle⟩ := d.engine.init_of_le h
    exact ⟨hok, hidle, fun _ => by rw [watch_init]; rfl⟩
  · simp only [init, Engine.init_of_lt d.engine h, teardown]
  · exact ⟨d.engine.idle_teardown, d.engine.phase?_teardown, fun _ => rfl⟩
  · simp only [teardown, Engine.teardown_teardown]
  · intro h t now raw cooked numRows changed
    exact Engine.step_of_rowCount_eq_zero h t _ raw cooked numRows changed

/-- A deferring debouncer with a key in flight, sized for one row of two reserved, restarts idle;
asked for three it refuses and is torn down, and a pass over it then leaves cooked alone. -/
theorem running_defer_restarts :
    (1 ≤ (⟨2, 2⟩ : Layout).capacity ∧
      ((⟨.defer ⟨[⟨[3, 0], 1⟩]⟩, ⟨some 7⟩⟩ : Debouncer).init ⟨2, 2⟩ 1).1 = .ok () ∧
      ((⟨.defer ⟨[⟨[3, 0], 1⟩]⟩, ⟨some 7⟩⟩ : Debouncer).init ⟨2, 2⟩ 1).2.engine.Idle ⟨2, 2⟩ 1) ∧
    ((⟨2, 2⟩ : Layout).capacity < 3 ∧
      (⟨.defer ⟨[⟨[3, 0], 1⟩]⟩, ⟨some 7⟩⟩ : Debouncer).init ⟨2, 2⟩ 3 =
        (.error (.outOfMemory 3 2), (⟨.defer ⟨[⟨[3, 0], 1⟩]⟩, ⟨some 7⟩⟩ : Debouncer).teardown)) ∧
    ((⟨.defer ⟨[⟨[3, 0], 1⟩]⟩, ⟨some 7⟩⟩ : Debouncer).teardown.engine.rowCount = 0 ∧
      ((⟨.defer ⟨[⟨[3, 0], 1⟩]⟩, ⟨some 7⟩⟩ : Debouncer).teardown.debounce ⟨2, 2⟩ ⟨5, 5, 30⟩ 9
        [1] [0] 1 true).2 = [(0 : BitVec 8)]) :=
  ⟨⟨by decide, ((@init_restarts 8 ⟨2, 2⟩ _ 1).2.1 (by decide)).1,
      ((@init_restarts 8 ⟨2, 2⟩ _ 1).2.1 (by decide)).2.1⟩,
    ⟨by decide, (@init_restarts 8 ⟨2, 2⟩ _ 3).2.2.1 (by decide)⟩,
    ⟨rfl, (@init_restarts 8 ⟨2, 2⟩ (⟨.defer ⟨[⟨[3, 0], 1⟩]⟩, ⟨some 7⟩⟩ : Debouncer).teardown
      0).2.2.2.2.2 rfl _ _ _ _ _ _⟩⟩

end Debouncer

end KeyDebounce
