import KeyDebounce.Proofs.Runs

/-!
# A countdown key under a held sample

One key under a held raw bit `x`, told only what its rule does on a held sample. The deferring
and the chained engines move a key by a countdown rule `f e changed b n` (the pass's ticks and
change report, the cooked bit, the countdown): one that the first pass keeps within `T` and that
each later pass lowers settles after `T + 1` passes. `a` says whether the key's row is scanned;
only a scanned key is bound to agree with raw once idle. All three engines, the quiescing one
with its debouncing phase as the countdown, commit an armed key's raw bit exactly at the first
pass by which its threshold has passed since the first.
-/

set_option autoImplicit false

namespace KeyDebounce

open Pass

variable {w : Nat} {p : Nat → Pass w}

section Countdown

variable {f : Nat → Bool → Bool → Nat → Nat × Bool} {cnt : Nat → Nat} {ck : Nat → Bool}
  {x a : Bool}
  (hstep : ∀ i, (cnt (i + 1), ck (i + 1)) =
    f (p (i + 1)).elapsed (p (i + 1)).changed (ck i) (cnt i))
  (hrest : ∀ e changed b, (a = true → x = b) → f e changed b 0 = (0, b))
include hstep hrest

theorem countdown_rest {k : Nat} (h : cnt k = 0) (hagree : a = true → ck k = x) :
    ∀ i, k ≤ i → cnt i = 0 ∧ ck i = ck k := by
  intro i hki
  induction i, hki using Nat.le_induction with
  | base => exact ⟨h, rfl⟩
  | succ i _ ih =>
    have hs := hstep i
    rw [ih.1, hrest _ _ (ck i) fun ha => (ih.2.trans (hagree ha)).symm] at hs
    obtain ⟨h₁, h₂⟩ := Prod.mk.inj hs
    exact ⟨h₁, h₂.trans ih.2⟩

/-- A countdown that the first pass keeps within `T`, idle only agreeing with raw, and that every
later pass of a tick or more without a change lowers, is idle from pass `T + 1` on, agreeing with
raw if scanned. -/
theorem countdown_settles (T : Nat)
    (hfirstRule : ∀ e b n, n ≤ T →
      (f e true b n).1 ≤ T ∧ (a = true → (f e true b n).1 = 0 → (f e true b n).2 = x))
    (hquietRule : ∀ e b n, 0 < e → n ≤ T → (a = true → n = 0 → b = x) →
      (f e false b n).1 ≤ n - 1 ∧
        (a = true → (f e false b n).1 = 0 → (f e false b n).2 = x))
    (hfirst : (p 1).changed = true)
    (hquiet : ∀ i, 1 < i → i ≤ T + 1 → (p i).changed = false ∧ 0 < (p i).elapsed)
    (h₀ : cnt 0 ≤ T) :
    ∀ i, T + 1 ≤ i → cnt i = 0 ∧ (a = true → ck i = x) := by
  -- the countdown is the measure; within `T` and agreeing once idle is the side invariant
  have h₁ : (cnt 1 ≤ T ∧ (a = true → cnt 1 = 0 → ck 1 = x)) ∧ cnt 1 ≤ T := by
    have hs := hstep 0
    rw [hfirst] at hs
    obtain ⟨hle, hset⟩ := hfirstRule (p 1).elapsed (ck 0) (cnt 0) h₀
    rw [← hs] at hle hset
    exact ⟨⟨hle, hset⟩, hle⟩
  have hdesc : ∀ i, 0 < i → i ≤ T + 1 →
      (cnt i ≤ T ∧ (a = true → cnt i = 0 → ck i = x)) ∧ cnt i ≤ T - (i - 1) := by
    refine descent (fun i => cnt i ≤ T ∧ (a = true → cnt i = 0 → ck i = x)) cnt h₁
      fun i hi him hinv => ?_
    obtain ⟨hch, he⟩ := hquiet (i + 1) (by omega) (by omega)
    have hs := hstep i
    rw [hch] at hs
    obtain ⟨hle, hset⟩ := hquietRule (p (i + 1)).elapsed (ck i) (cnt i) he hinv.1 hinv.2
    rw [← hs] at hle hset
    exact ⟨⟨by omega, hset⟩, hle⟩
  obtain ⟨⟨-, hset⟩, hle⟩ := hdesc (T + 1) (by omega) (le_refl _)
  have hzero : cnt (T + 1) = 0 := by omega
  intro i hi
  obtain ⟨hcnt, hck⟩ := countdown_rest hstep hrest hzero (fun ha => hset ha hzero) i hi
  exact ⟨hcnt, fun ha => hck.trans (hset ha hzero)⟩

end Countdown

section Commit

/-! ### Committing once

Here the key has any state, `g i b s` is the rule of pass `i`, `counting n` the state of a key
with `n` ticks left to count and `Done` the states of a key that has committed. -/

variable {σ : Type} {g : Nat → Bool → σ → σ × Bool} {st : Nat → σ} {ck : Nat → Bool} {x : Bool}
  (hstep : ∀ i, (st (i + 1), ck (i + 1)) = g (i + 1) (ck i) (st i))
include hstep

theorem countdown_commits_once (counting : Nat → σ) (Done : σ → Prop) (T m : Nat) (hT : 0 < T)
    (hm : T + 1 ≤ m) (hquiet : ∀ i, 1 < i → i ≤ m → 0 < (p i).elapsed)
    (hwait : x = ck 0 → ∀ i, g (i + 1) x (st 0) = (st 0, x))
    (harm : x ≠ ck 0 → g 1 (ck 0) (st 0) = (counting T, ck 0))
    (hcount : x ≠ ck 0 → ∀ i n, 1 < i → i ≤ m → (p i).elapsed < n → n ≤ T →
      g i (ck 0) (counting n) = (counting (n - (p i).elapsed), ck 0))
    (hexpire : x ≠ ck 0 → ∀ i n, 1 < i → i ≤ m → 0 < n → n ≤ (p i).elapsed →
      Done (g i (ck 0) (counting n)).1 ∧ (g i (ck 0) (counting n)).2 = x)
    (hdone : ∀ i s, Done s → Done (g i x s).1 ∧ (g i x s).2 = x) :
    ∀ i, ck i = if x ≠ ck 0 ∧ T ≤ ticks p 1 i then x else ck 0 := by
  by_cases hx : x = ck 0
  · -- a key agreeing with raw stays as it is
    have hrest : ∀ i, st i = st 0 ∧ ck i = ck 0 := by
      intro i
      induction i with
      | zero => exact ⟨rfl, rfl⟩
      | succ i ih =>
        have hs := hstep i
        rw [ih.1, ih.2, ← hx, hwait hx i] at hs
        obtain ⟨h₁, h₂⟩ := Prod.mk.inj hs
        exact ⟨h₁, h₂.trans hx⟩
    intro i
    rw [if_neg fun h => h.1 hx]
    exact (hrest i).2
  · -- after pass `i ≥ 1` the key counts the rest of `T` down, or has committed
    have hrun : ∀ i, 1 ≤ i →
        if ticks p 1 i < T then st i = counting (T - ticks p 1 i) ∧ ck i = ck 0
        else Done (st i) ∧ ck i = x := by
      intro i hi
      induction i, hi using Nat.le_induction with
      | base =>
        have hs := hstep 0
        rw [harm hx] at hs
        rw [if_pos (by rw [ticks_self]; exact hT), ticks_self, Nat.sub_zero]
        exact Prod.mk.inj hs
      | succ i hi ih =>
        have hs := hstep i
        split at ih
        · rename_i hlt
          -- `T` has not passed, so pass `i + 1` is one of the quiet ones
          have hin : i < m := lt_of_ticks_lt p (fun j h₁ h₂ => hquiet j h₁ (by omega)) (by omega)
          rw [ih.1, ih.2] at hs
          rw [ticks_succ p hi]
          rcases Nat.lt_or_ge (p (i + 1)).elapsed (T - ticks p 1 i) with hlt' | hge
          · rw [hcount hx (i + 1) _ (by omega) (by omega) hlt' (Nat.sub_le _ _)] at hs
            rw [if_pos (by omega)]
            obtain ⟨h₁, h₂⟩ := Prod.mk.inj hs
            exact ⟨by rw [h₁]; congr 1; omega, h₂⟩
          · have he := hquiet (i + 1) (by omega) (by omega)
            obtain ⟨hfin, hck⟩ := hexpire hx (i + 1) _ (by omega) (by omega) (by omega) hge
            rw [← hs] at hfin hck
            rw [if_neg (by omega)]
            exact ⟨hfin, hck⟩
        · rw [ih.2] at hs
          obtain ⟨hfin, hck⟩ := hdone (i + 1) (st i) ih.1
          rw [← hs] at hfin hck
          have hmono : ticks p 1 i ≤ ticks p 1 (i + 1) :=
            ticks_le_ticks_right p hi (Nat.le_succ i)
          rw [if_neg (by omega)]
          exact ⟨hfin, hck⟩
    intro i
    rcases Nat.eq_zero_or_pos i with rfl | hi
    · rw [if_neg fun h => by rw [ticks] at h; simp at h; omega]
    · have h := hrun i hi
      split at h
      · rw [if_neg fun h' => by omega]
        exact h.2
      · rw [if_pos ⟨hx, by omega⟩]
        exact h.2

end Commit

end KeyDebounce
