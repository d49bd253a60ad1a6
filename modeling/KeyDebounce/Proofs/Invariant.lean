import KeyDebounce.Proofs.Spacing.Commits
import KeyDebounce.Proofs.Chain.Reachable

/-!
# The invariant of every reachable engine

Each engine keeps one invariant through every request. The deferring engine keeps its rows well
formed, no more of them than reserved, and no countdown past the longer threshold. The quiescing
engine keeps its rows well formed, no more of them than reserved, and the countdown of every key
fitting its phase. The chained engine keeps its chain invariant. A torn-down engine has it, `init`
gives it and a pass keeps it, so every reachable engine has it.
-/

set_option autoImplicit false

namespace KeyDebounce

variable {w : Nat} {L : Layout} {t : Timing}

namespace Defer

structure State.Invariant (s : State) (L : Layout) (t : Timing) : Prop where
  wellFormed : s.WellFormed L
  fits : s.rows.length ≤ L.capacity
  bounded : ∀ r c, s.counter r c ≤ t.longest

theorem invariant_empty : State.empty.Invariant L t :=
  ⟨wellFormed_empty, Nat.zero_le _, fun _ _ => Nat.zero_le _⟩

theorem length_init {n : Nat} {s : State} (h : State.init L n = .ok s) :
    s.rows.length ≤ L.capacity := by
  unfold State.init at h
  split at h
  · cases h
    simpa
  · cases h

theorem invariant_init {n : Nat} {s : State} (h : State.init L n = .ok s) : s.Invariant L t :=
  ⟨wellFormed_init h, length_init h, fun r c => by rw [counter_init h]; exact Nat.zero_le _⟩

theorem deferKey_le {e : Nat} {changed x b : Bool} {n : Nat} (hn : n ≤ t.longest) :
    (deferKey t e changed x b n).1 ≤ t.longest := by
  unfold deferKey
  split
  · exact t.threshold_le_longest x
  · split
    · exact le_trans (Nat.sub_le n e) hn
    · split
      · exact Nat.zero_le _
      · exact hn

theorem invariant_step (hthr : ∀ x, 0 < t.threshold x) {s : State} (hs : s.Invariant L t)
    (e : Nat) (raw cooked : List (BitVec w)) (numRows : Nat) (changed : Bool) :
    (s.step t e raw cooked numRows changed).1.Invariant L t := by
  refine ⟨wellFormed_step hthr hs.wellFormed e raw cooked numRows changed,
    (length_step s e raw cooked numRows changed).1 ▸ hs.fits, fun r c => ?_⟩
  have h := congrArg Prod.fst (@step_key w L t s hs.wellFormed e raw cooked numRows changed r c)
  dsimp only at h
  rw [h, apply_ite Prod.fst]
  split
  · exact deferKey_le (hs.bounded r c)
  · exact hs.bounded r c

end Defer

namespace Quiesce

def Key.Fits (t : Timing) (k : Key) : Prop :=
  match k.phase with
  | .waiting => k.remaining = 0
  | .debouncing => 0 < k.remaining ∧ k.remaining ≤ t.longest
  | .quiescing => 0 < k.remaining ∧ k.remaining ≤ t.quiesce

structure State.Invariant (s : State) (L : Layout) (t : Timing) : Prop where
  wellFormed : s.WellFormed L
  fits : s.rows.length ≤ L.capacity
  phases : ∀ r c, (s.key r c).Fits t

theorem fits_waiting : Key.waiting.Fits t := rfl

theorem fits_quiesceKey (hthr : ∀ x, 0 < t.threshold x) (e : Nat) (x b : Bool) {k : Key}
    (hk : k.Fits t) : (quiesceKey t e x b k).1.Fits t := by
  unfold Key.Fits at hk
  cases hp : k.phase with
  | waiting =>
    rw [hp] at hk
    simp only [quiesceKey, hp]
    split
    · exact ⟨hthr x, t.threshold_le_longest x⟩
    · simpa [Key.Fits, hp] using hk
  | debouncing =>
    rw [hp] at hk
    simp only [quiesceKey, hp]
    split
    · exact fits_waiting
    · split
      · simp only [Key.Fits]
        omega
      · split
        · exact fits_waiting
        · exact ⟨Nat.pos_of_ne_zero ‹_›, le_refl _⟩
  | quiescing =>
    rw [hp] at hk
    simp only [quiesceKey, hp]
    split
    · simp only [Key.Fits]
      omega
    · exact fits_waiting

theorem invariant_empty : State.empty.Invariant L t :=
  ⟨wellFormed_empty, Nat.zero_le _, fun _ _ => fits_waiting⟩

theorem length_init {n : Nat} {s : State} (h : State.init L n = .ok s) :
    s.rows.length ≤ L.capacity := by
  unfold State.init at h
  split at h
  · cases h
    simpa
  · cases h

theorem invariant_init {n : Nat} {s : State} (h : State.init L n = .ok s) : s.Invariant L t :=
  ⟨wellFormed_init h, length_init h, fun r c => by rw [key_init h]; exact fits_waiting⟩

theorem invariant_step (hthr : ∀ x, 0 < t.threshold x) {s : State} (hs : s.Invariant L t)
    (e : Nat) (raw cooked : List (BitVec w)) (numRows : Nat) :
    (s.step t e raw cooked numRows).1.Invariant L t := by
  refine ⟨wellFormed_step hs.wellFormed e raw cooked numRows,
    (length_step s e raw cooked numRows).1 ▸ hs.fits, fun r c => ?_⟩
  have h := congrArg Prod.fst (@step_key w L t s hs.wellFormed e raw cooked numRows r c)
  dsimp only at h
  rw [h, apply_ite Prod.fst]
  split
  · exact fits_quiesceKey hthr _ _ _ (hs.phases r c)
  · exact hs.phases r c

end Quiesce

namespace Engine

/-- The invariant of an engine, by kind. -/
def Invariant (L : Layout) (t : Timing) : Engine → Prop
  | defer s => s.Invariant L t
  | chain s => s.WellFormed L t
  | quiesce s => s.Invariant L t

theorem invariant_teardown (g : Engine) : g.teardown.Invariant L t := by
  cases g
  · exact Defer.invariant_empty
  · exact Chain.wellFormed_empty
  · exact Quiesce.invariant_empty

theorem invariant_init (g : Engine) (n : Nat) : (g.init L n).2.Invariant L t := by
  cases g with
  | defer s =>
    unfold init
    cases h : Defer.State.init L n with
    | ok s₀ => exact Defer.invariant_init h
    | error _ => exact Defer.invariant_empty
  | chain s =>
    rw [init_chain]
    cases h : Chain.State.init L n with
    | ok s₀ => exact Chain.wellFormed_init h
    | error _ => exact Chain.wellFormed_empty
  | quiesce s =>
    unfold init
    cases h : Quiesce.State.init L n with
    | ok s₀ => exact Quiesce.invariant_init h
    | error _ => exact Quiesce.invariant_empty

theorem invariant_step (hthr : ∀ x, 0 < t.threshold x) {g : Engine}
    (hcap : g.kind = .eagerList → L.capacity * L.cols ≤ Chain.null) (hg : g.Invariant L t)
    (e : Nat) (raw cooked : List (BitVec w)) (numRows : Nat) (changed : Bool) :
    (g.step L t e raw cooked numRows changed).1.Invariant L t := by
  cases g with
  | defer s => exact Defer.invariant_step hthr hg e raw cooked numRows changed
  | chain s => exact Chain.wellFormed_step hg (hcap rfl) hthr e raw cooked numRows changed
  | quiesce s => exact Quiesce.invariant_step hthr hg e raw cooked numRows

/-- Every reachable engine has its invariant; the chained one when its arena indices stay below
the end marker. -/
theorem invariant_of_reachable (hthr : ∀ x, 0 < t.threshold x) {g : Engine}
    (hcap : g.kind = .eagerList → L.capacity * L.cols ≤ Chain.null) (h : g.Reachable L t) :
    g.Invariant L t := by
  induction h with
  | new a =>
    cases a
    · exact Defer.invariant_empty
    · exact Chain.wellFormed_empty
    · exact Quiesce.invariant_empty
  | init n _ _ => exact invariant_init _ n
  | step e raw cooked numRows changed _ ih =>
    rw [kind_step] at hcap
    exact invariant_step hthr hcap (ih hcap) e raw cooked numRows changed
  | teardown _ _ => exact invariant_teardown _

end Engine

end KeyDebounce
