import Mathlib.Algebra.BigOperators.Intervals
import Mathlib.Algebra.Order.BigOperators.Group.Finset
import KeyDebounce.Debounce.Engine

/-!
# Reachable engines and runs

An engine is reachable when some sequence of requests leads to it from a new engine: `init`,
successful or refused, a pass with any sample, buffer, rows, hint and elapsed ticks, and
`teardown`. A run is an engine and a cooked buffer fed pass after pass with the inputs `p 1`,
`p 2`, ...; `ticks p k m` is the time that passes `k + 1` to `m` report.
-/

set_option autoImplicit false

namespace KeyDebounce

namespace Engine

/-- The engines reachable from a new one. -/
inductive Reachable (L : Layout) (t : Timing) : Engine → Prop
  | new (a : Algorithm) : Reachable L t (Engine.new a)
  | init {g : Engine} (n : Nat) : Reachable L t g → Reachable L t (g.init L n).2
  | step {g : Engine} {w : Nat} (e : Nat) (raw cooked : List (BitVec w)) (numRows : Nat)
      (changed : Bool) :
      Reachable L t g → Reachable L t (g.step L t e raw cooked numRows changed).1
  | teardown {g : Engine} : Reachable L t g → Reachable L t g.teardown

end Engine

/-- The inputs of one pass: the ticks since the previous one, the raw sample, the rows asked for
and the change hint. -/
structure Pass (w : Nat) where
  elapsed : Nat
  raw : List (BitVec w)
  numRows : Nat
  changed : Bool

namespace Pass

variable {w : Nat}

def ticks (p : Nat → Pass w) (k m : Nat) : Nat := ∑ i ∈ Finset.Ioc k m, (p i).elapsed

theorem ticks_self (p : Nat → Pass w) (k : Nat) : ticks p k k = 0 := by
  simp [ticks]

theorem ticks_succ (p : Nat → Pass w) {k m : Nat} (h : k ≤ m) :
    ticks p k (m + 1) = ticks p k m + (p (m + 1)).elapsed :=
  Finset.sum_Ioc_succ_top h _

theorem ticks_add (p : Nat → Pass w) {k a m : Nat} (hka : k ≤ a) (ham : a ≤ m) :
    ticks p k a + ticks p a m = ticks p k m :=
  Finset.sum_Ioc_consecutive _ hka ham

theorem ticks_le_ticks (p : Nat → Pass w) {k a m : Nat} (hka : k ≤ a) (ham : a ≤ m) :
    ticks p a m ≤ ticks p k m := by
  rw [← ticks_add p hka ham]
  exact Nat.le_add_left _ _

theorem ticks_le_ticks_right (p : Nat → Pass w) {k m m' : Nat} (hkm : k ≤ m) (hm : m ≤ m') :
    ticks p k m ≤ ticks p k m' := by
  rw [← ticks_add p hkm hm]
  exact Nat.le_add_right _ _

theorem sub_le_ticks (p : Nat → Pass w) {k m : Nat}
    (h : ∀ j, k < j → j ≤ m → 0 < (p j).elapsed) : m - k ≤ ticks p k m := by
  unfold ticks
  calc m - k = ∑ _i ∈ Finset.Ioc k m, 1 := by rw [← Finset.card_eq_sum_ones, Nat.card_Ioc]
    _ ≤ ∑ i ∈ Finset.Ioc k m, (p i).elapsed :=
      Finset.sum_le_sum fun i hi => h i (Finset.mem_Ioc.mp hi).1 (Finset.mem_Ioc.mp hi).2

theorem lt_of_ticks_lt (p : Nat → Pass w) {i m : Nat}
    (h : ∀ j, 1 < j → j ≤ m → 0 < (p j).elapsed) (hi : ticks p 1 i < m - 1) : i < m := by
  by_contra hmi
  have hm : 1 ≤ m := by omega
  have h₁ : m - 1 ≤ ticks p 1 m := sub_le_ticks p fun j h₁ h₂ => h j h₁ h₂
  have h₂ : ticks p 1 m + ticks p m i = ticks p 1 i := ticks_add p hm (by omega)
  omega

end Pass

namespace Engine

def kind : Engine → Algorithm
  | defer _ => .asymDefer
  | chain _ => .eagerList
  | quiesce _ => .quiesce

theorem kind_init (g : Engine) (L : Layout) (n : Nat) : (g.init L n).2.kind = g.kind := by
  cases g <;> simp only [init] <;> split <;> rfl

theorem kind_step {w : Nat} (g : Engine) (L : Layout) (t : Timing) (e : Nat)
    (raw cooked : List (BitVec w)) (numRows : Nat) (changed : Bool) :
    (g.step L t e raw cooked numRows changed).1.kind = g.kind := by
  cases g <;> rfl

theorem kind_teardown (g : Engine) : g.teardown.kind = g.kind := by
  cases g <;> rfl

theorem init_chain (c : Chain.State) (L : Layout) (n : Nat) :
    ((Engine.chain c).init L n).2 =
      match Chain.State.init L n with
      | .ok s => .chain s
      | .error _ => .chain Chain.State.empty := by
  unfold init
  cases Chain.State.init L n <;> rfl

theorem eq_chain_of_kind {g : Engine} (h : g.kind = .eagerList) : ∃ c, g = .chain c := by
  cases g <;> simp_all [kind]

end Engine

def Algorithm.spacing (a : Algorithm) (t : Timing) (v : Bool) : Nat :=
  match a with
  | .quiesce => t.quiesce + t.threshold v
  | _ => t.threshold v

variable {w : Nat}

def runWith {σ : Type} (step : σ → Pass w → List (BitVec w) → σ × List (BitVec w))
    (s : σ)
    (cooked : List (BitVec w)) (p : Nat → Pass w) : Nat → σ × List (BitVec w)
  | 0 => (s, cooked)
  | i + 1 => step (runWith step s cooked p i).1 (p (i + 1)) (runWith step s cooked p i).2

theorem runWith_map {σ τ : Type} (f : σ → τ)
    (step₁ : τ → Pass w → List (BitVec w) → τ × List (BitVec w))
    (step₂ : σ → Pass w → List (BitVec w) → σ × List (BitVec w))
    (h : ∀ s q cooked,
      step₁ (f s) q cooked = (f (step₂ s q cooked).1, (step₂ s q cooked).2))
    (s : σ)
    (cooked : List (BitVec w)) (p : Nat → Pass w) :
    ∀ i, runWith step₁ (f s) cooked p i =
      (f (runWith step₂ s cooked p i).1, (runWith step₂ s cooked p i).2)
  | 0 => rfl
  | i + 1 => by rw [runWith, runWith_map f step₁ step₂ h s cooked p i, h, runWith]

namespace Engine

/-- The engine and the cooked buffer after the passes `p 1` to `p i`. -/
def run (g : Engine) (L : Layout) (t : Timing) (cooked : List (BitVec w)) (p : Nat → Pass w) :
    Nat → Engine × List (BitVec w) :=
  runWith (fun g q c => g.step L t q.elapsed q.raw c q.numRows q.changed) g cooked p

variable (L : Layout) (t : Timing) (cooked : List (BitVec w)) (p : Nat → Pass w)

theorem run_defer (s : Defer.State) (i : Nat) :
    (Engine.defer s).run L t cooked p i =
      let out := runWith (fun s q c => s.step t q.elapsed q.raw c q.numRows q.changed) s cooked p i
      (.defer out.1, out.2) :=
  runWith_map Engine.defer _ _ (fun _ _ _ => rfl) s cooked p i

theorem run_chain (s : Chain.State) (i : Nat) :
    (Engine.chain s).run L t cooked p i =
      let out :=
        runWith (fun s q c => s.step L t q.elapsed q.raw c q.numRows q.changed) s cooked p i
      (.chain out.1, out.2) :=
  runWith_map Engine.chain _ _ (fun _ _ _ => rfl) s cooked p i

theorem run_quiesce (s : Quiesce.State) (i : Nat) :
    (Engine.quiesce s).run L t cooked p i =
      let out := runWith (fun s q c => s.step t q.elapsed q.raw c q.numRows) s cooked p i
      (.quiesce out.1, out.2) :=
  runWith_map Engine.quiesce _ _ (fun _ _ _ => rfl) s cooked p i

end Engine

section Changes

variable {bit : Nat → Bool}

theorem gap_of_changes (Inv gap : Nat → Nat → Prop) (h₀ : Inv 0 0)
    (hstep : ∀ k i, k ≤ i → Inv k i →
      (bit (i + 1) = bit i → Inv k (i + 1)) ∧
        (bit (i + 1) ≠ bit i → gap k (i + 1) ∧ Inv (i + 1) (i + 1)))
    {k m : Nat} (hkm : k < m) (hk : k = 0 ∨ bit k ≠ bit (k - 1))
    (hsteady : ∀ j, k < j → j < m → bit j = bit (j - 1)) (hm : bit m ≠ bit (m - 1)) :
    gap k m := by
  -- along the run, `Inv` holds from the last change so far
  have last : ∀ i, ∃ k ≤ i, (k = 0 ∨ bit k ≠ bit (k - 1)) ∧
      (∀ j, k < j → j ≤ i → bit j = bit (j - 1)) ∧ Inv k i := by
    intro i
    induction i with
    | zero => exact ⟨0, le_refl 0, Or.inl rfl, fun j h₁ h₂ => absurd h₂ (by omega), h₀⟩
    | succ i ih =>
      obtain ⟨k, hki, hk, hsteady, hinv⟩ := ih
      by_cases hb : bit (i + 1) = bit i
      · refine ⟨k, by omega, hk, fun j h₁ h₂ => ?_, ((hstep k i hki hinv).1 hb)⟩
        rcases Nat.lt_or_ge j (i + 1) with hj | hj
        · exact hsteady j h₁ (by omega)
        · rw [show j = i + 1 by omega]
          exact hb
      · exact ⟨i + 1, le_refl _, Or.inr hb, fun j h₁ h₂ => absurd h₂ (by omega),
          ((hstep k i hki hinv).2 hb).2⟩
  obtain ⟨k', hk', hk'c, hsteady', hinv⟩ := last (m - 1)
  -- that last change is `k`: a later one would break the steadiness assumed after `k`
  have hkk : k' = k := by
    rcases Nat.lt_trichotomy k' k with h | h | h
    · rcases hk with rfl | hk
      · omega
      · exact absurd (hsteady' k h (by omega)) hk
    · exact h
    · rcases hk'c with rfl | hk'c
      · omega
      · exact absurd (hsteady k' h (by omega)) hk'c
  subst hkk
  have hm' : m - 1 + 1 = m := by omega
  have := ((hstep k' (m - 1) hk' hinv).2 (by rw [hm']; exact hm)).1
  rwa [hm'] at this

end Changes

theorem descent (P : Nat → Prop) (φ : Nat → Nat) {m B : Nat} (h₁ : P 1 ∧ φ 1 ≤ B)
    (hstep : ∀ i, 0 < i → i < m → P i → P (i + 1) ∧ φ (i + 1) ≤ φ i - 1) :
    ∀ i, 0 < i → i ≤ m → P i ∧ φ i ≤ B - (i - 1) := by
  intro i hi him
  induction i with
  | zero => omega
  | succ i ih =>
    rcases Nat.eq_zero_or_pos i with rfl | hpos
    · simpa using h₁
    · obtain ⟨hP, hφ⟩ := ih hpos (by omega)
      obtain ⟨hP', hφ'⟩ := hstep i hpos (by omega) hP
      exact ⟨hP', by omega⟩

/-- The commit at call `m` of a key that last changed at call `k` was armed at a call `a` after
`k`, at least `pause` ticks after `k`, and the threshold of the committed state `v` passed
between `a` and `m`. -/
def Spaced (p : Nat → Pass w) (t : Timing) (pause k m : Nat) (v : Bool) : Prop :=
  ∃ a, k < a ∧ a ≤ m ∧ pause ≤ Pass.ticks p k a ∧ t.threshold v ≤ Pass.ticks p a m

theorem Spaced.le_ticks {p : Nat → Pass w} {t : Timing} {pause k m : Nat} {v : Bool}
    (h : Spaced p t pause k m v) : pause + t.threshold v ≤ Pass.ticks p k m := by
  obtain ⟨a, hka, ham, hpause, hthr⟩ := h
  rw [← Pass.ticks_add p (Nat.le_of_lt hka) ham]
  omega

theorem Spaced.first {p : Nat → Pass w} {t : Timing} {pause m : Nat} {v : Bool}
    (h : Spaced p t pause 0 m v) : t.threshold v ≤ Pass.ticks p 1 m := by
  obtain ⟨a, hka, ham, -, hthr⟩ := h
  exact le_trans hthr (Pass.ticks_le_ticks p hka ham)

end KeyDebounce
