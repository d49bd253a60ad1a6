import KeyDebounce.Proofs.Spacing.Commits

/-!
# The deferring engine commits only a state that held for a whole window

Read one key of the deferring engine along a run: its countdown `cnt i` and cooked bit `ck i`
after pass `i`, and the raw bit `raw i` and change hint `ch i` that pass `i` sees. Every pass
moves it by `deferKey`. An arming pass `a` (hint set, raw against cooked) starts a `Pending`
window; it stays pending while raw holds the armed state, and any other pass leaves it `Inert`:
idle, or with raw agreeing with cooked. An inert key cannot change its cooked bit, and with an
honest hint it stays inert until it is armed again. So if `a` is the last arming before a change
at `k`, the key was pending from `a` to `k`: raw held the new state throughout and `k` is the
first pass at which the threshold has passed since `a`.
-/

set_option autoImplicit false

namespace KeyDebounce.Defer

open Row Pass

variable {w : Nat} {t : Timing} {p : Nat → Pass w} {cnt : Nat → Nat} {ck raw ch : Nat → Bool}

def Arms (ck raw ch : Nat → Bool) (j : Nat) : Prop := ch j = true ∧ raw j ≠ ck (j - 1)

def Pending (p : Nat → Pass w) (t : Timing) (cnt : Nat → Nat) (ck raw : Nat → Bool)
    (a i : Nat) : Prop :=
  0 < cnt i ∧ cnt i + ticks p a i = t.threshold (raw a) ∧
    (∀ j, a ≤ j → j ≤ i → raw j = raw a) ∧ ck i = ck (a - 1)

def Inert (cnt : Nat → Nat) (ck raw : Nat → Bool) (i : Nat) : Prop := cnt i = 0 ∨ raw i = ck i

section Window

variable (hstep : ∀ i, (cnt (i + 1), ck (i + 1)) =
  deferKey t (p (i + 1)).elapsed (ch (i + 1)) (raw (i + 1)) (ck i) (cnt i))
include hstep

theorem pending_arm (hthr : ∀ x, 0 < t.threshold x) {a : Nat} (ha : 0 < a)
    (harm : Arms ck raw ch a) :
    Pending p t cnt ck raw a a := by
  have h := hstep (a - 1)
  rw [Nat.sub_add_cancel ha] at h
  unfold deferKey at h
  rw [if_pos (by simpa [Arms] using harm), Prod.mk.injEq] at h
  exact ⟨h.1 ▸ hthr _, by rw [h.1, ticks_self]; rfl,
    fun j h₁ h₂ => by rw [Nat.le_antisymm h₂ h₁], h.2⟩

theorem Inert.step (honest : ∀ i, 1 < i → raw i ≠ raw (i - 1) → ch i = true) {i : Nat}
    (hi : 0 < i) (h : Inert cnt ck raw i) :
    ck (i + 1) = ck i ∧ (¬Arms ck raw ch (i + 1) → Inert cnt ck raw (i + 1)) := by
  have hs := hstep i
  unfold deferKey at hs
  by_cases harm : Arms ck raw ch (i + 1)
  · rw [if_pos (by simpa [Arms] using harm), Prod.mk.injEq] at hs
    exact ⟨hs.2, fun h => absurd harm h⟩
  · rw [if_neg (by simpa [Arms] using harm)] at hs
    rcases h with hzero | hsame
    · rw [hzero] at hs
      simp only [Nat.not_lt_zero, if_false, Nat.lt_irrefl, Prod.mk.injEq] at hs
      exact ⟨hs.2, fun _ => Or.inl hs.1⟩
    · -- raw stays where cooked is, or the honest hint would have armed the key
      have hraw : raw (i + 1) = raw i := by
        by_contra hne
        exact harm
          ⟨honest (i + 1) (by omega) (by simpa using hne), by simpa [← hsame] using hne⟩
      split at hs
      · rw [Prod.mk.injEq] at hs
        exact ⟨hs.2, fun _ => Or.inr (by rw [hraw, hsame, hs.2])⟩
      · split at hs
        · rw [Prod.mk.injEq] at hs
          exact ⟨by rw [hs.2, hraw, hsame], fun _ => Or.inl hs.1⟩
        · rw [Prod.mk.injEq] at hs
          exact ⟨hs.2, fun _ => Or.inr (by rw [hraw, hsame, hs.2])⟩

theorem Pending.step {a i : Nat} (hai : a ≤ i) (h : Pending p t cnt ck raw a i)
    (harm : ¬Arms ck raw ch (i + 1)) (hx : raw a ≠ ck (a - 1)) :
    Pending p t cnt ck raw a (i + 1) ∨ Inert cnt ck raw (i + 1) := by
  obtain ⟨hpos, hleft, hheld, hck⟩ := h
  have hs := hstep i
  unfold deferKey at hs
  rw [if_neg (by simpa [Arms] using harm)] at hs
  by_cases hraw : raw (i + 1) = raw a
  · split at hs
    · -- raw still holds: the window runs on
      rw [Prod.mk.injEq] at hs
      refine Or.inl ⟨by omega, ?_, fun j h₁ h₂ => ?_, by rw [hs.2, hck]⟩
      · rw [hs.1, ticks_succ p hai]
        omega
      · rcases Nat.lt_or_ge j (i + 1) with hj | hj
        · exact hheld j h₁ (by omega)
        · rw [show j = i + 1 by omega, hraw]
    · -- the countdown ran out: committed, now idle
      exact Or.inr (Or.inl (Prod.mk.inj hs).1)
  · -- raw went back to the cooked state
    have hback : raw (i + 1) = ck i := by
      rw [hck]
      cases h₁ : raw (i + 1) <;> cases h₂ : raw a <;> cases h₃ : ck (a - 1) <;> simp_all
    split at hs
    · exact Or.inr (Or.inr (by rw [(Prod.mk.inj hs).2, hback]))
    · exact Or.inr (Or.inl (Prod.mk.inj hs).1)

theorem Pending.commit {a i : Nat} (h : Pending p t cnt ck raw a i) (hx : raw a ≠ ck (a - 1))
    (hchange : ck (i + 1) ≠ ck i) :
    raw (i + 1) = raw a ∧ cnt i ≤ (p (i + 1)).elapsed ∧ ck (i + 1) = raw a := by
  obtain ⟨hpos, -, -, hck⟩ := h
  have hs := hstep i
  unfold deferKey at hs
  split at hs
  · exact absurd (Prod.mk.inj hs).2 hchange
  · split at hs
    · exact absurd (Prod.mk.inj hs).2 hchange
    · have hck' : ck (i + 1) = raw (i + 1) := (Prod.mk.inj hs).2
      -- a commit that changes the bit copies a raw bit other than cooked, the armed one
      have hraw : raw (i + 1) = raw a := by
        have h₁ : raw (i + 1) ≠ ck i := hck' ▸ hchange
        rw [hck] at h₁
        cases h₂ : raw (i + 1) <;> cases h₃ : raw a <;> cases h₄ : ck (a - 1) <;> simp_all
      exact ⟨hraw, by omega, hck'.trans hraw⟩

/-- If pass `a` arms the key, no pass before `k` arms it again, and its cooked bit changes at
pass `k`, then raw held the committed state from `a` to `k`, and `k` is the first pass at which
the threshold of that state has passed since `a`. -/
theorem window_of_deferKey (hthr : ∀ x, 0 < t.threshold x)
    (honest : ∀ i, 1 < i → raw i ≠ raw (i - 1) → ch i = true) {a k : Nat} (ha : 0 < a)
    (hak : a < k) (harm : Arms ck raw ch a) (hlast : ∀ j, a < j → j < k → ¬Arms ck raw ch j)
    (hchange : ck k ≠ ck (k - 1)) :
    (∀ i, a ≤ i → i ≤ k → raw i = ck k) ∧ t.threshold (ck k) ≤ ticks p a k ∧
      ∀ j, a < j → j < k → ticks p a j < t.threshold (ck k) := by
  -- until `k` the key is pending or inert
  have hrun : ∀ i, a ≤ i → i < k → Pending p t cnt ck raw a i ∨ Inert cnt ck raw i := by
    intro i hai
    induction i, hai using Nat.le_induction with
    | base => exact fun _ => Or.inl (pending_arm hstep hthr ha harm)
    | succ i hai ih =>
      intro hik
      have hnarm := hlast (i + 1) (by omega) hik
      rcases ih (by omega) with hp | hi
      · exact hp.step hstep hai hnarm harm.2
      · exact Or.inr ((hi.step hstep honest (by omega)).2 hnarm)
  have hk : k - 1 + 1 = k := by omega
  have hchange' : ck (k - 1 + 1) ≠ ck (k - 1) := by rwa [hk]
  rcases hrun (k - 1) (by omega) (by omega) with hp | hi
  · obtain ⟨hraw, he, hck⟩ := hp.commit hstep harm.2 hchange'
    rw [hk] at hraw hck he
    obtain ⟨hpos, hleft, hheld, -⟩ := hp
    have hticks := ticks_succ p (show a ≤ k - 1 by omega)
    rw [hk] at hticks
    refine ⟨fun i h₁ h₂ => ?_, by rw [hck, hticks]; omega, fun j h₁ h₂ => ?_⟩
    · rcases Nat.lt_or_ge i k with hi | hi
      · rw [hck, hheld i h₁ (by omega)]
      · rw [show i = k by omega, hck, hraw]
    · have hmono := ticks_add p (Nat.le_of_lt h₁) (show j ≤ k - 1 by omega)
      rw [hck]
      omega
  · exact absurd ((hi.step hstep honest (by omega)).1) hchange'

end Window

/-- In a run of the deferring engine after `init`, on the buffer that `init` leaves to it, take a
key whose row every pass asks for and samples, with a change hint that never misses a change of
its raw bit. If pass `a` arms the key, no later pass before `k` arms it again, and its cooked bit
changes at `k`, then raw showed the new state at every pass from `a` to `k`, and `k` is the first
pass after `a` by which the threshold of the new state has passed. A bounce back to the cooked
state therefore never reaches it, and a spurious hint can only postpone a commit. -/
theorem deferred_commit_window {L : Layout} (hdown : 0 < t.down) (hup : 0 < t.up) (s : State)
    (n : Nat) (cooked : List (BitVec w)) (p : Nat → Pass w) (r c : Nat)
    (hscan : ∀ i, 0 < i → r < (p i).numRows ∧ r < (p i).raw.length)
    (honest : ∀ i, 1 < i → bitAt (p i).raw r c ≠ bitAt (p (i - 1)).raw r c →
      (p i).changed = true) :
    let bit := fun i => bitAt (((Engine.defer s).init L n).2.run L t cooked p i).2 r c
    ∀ {a k}, 0 < a → a < k → (p a).changed = true → bitAt (p a).raw r c ≠ bit (a - 1) →
      (∀ j, a < j → j < k →
        ¬((p j).changed = true ∧ bitAt (p j).raw r c ≠ bit (j - 1))) →
      bit k ≠ bit (k - 1) →
      (∀ i, a ≤ i → i ≤ k → bitAt (p i).raw r c = bit k) ∧
        t.threshold (bit k) ≤ ticks p a k ∧
        ∀ j, a < j → j < k → ticks p a j < t.threshold (bit k) := by
  have hthr : ∀ x, 0 < t.threshold x := Timing.threshold_pos hdown hup
  intro bit a k ha hak harm hraw hlast hchange
  obtain ⟨s₀, hg, hwf, -⟩ := init_idle s L n
  let run := runWith (fun s q c => s.step t q.elapsed q.raw c q.numRows q.changed) s₀ cooked p
  have hbit : bit = fun i => bitAt (run i).2 r c := by
    funext i
    simp only [bit, run, hg, Engine.run_defer]
  rw [hbit] at hraw hlast hchange ⊢
  have hkey : ∀ i, ((run (i + 1)).1.counter r c, bitAt (run (i + 1)).2 r c) =
      if r < rowsToScan (p (i + 1)).numRows s₀.rows.length (p (i + 1)).raw.length
          cooked.length ∧ c < L.cols then
        deferKey t (p (i + 1)).elapsed (p (i + 1)).changed (bitAt (p (i + 1)).raw r c)
          (bitAt (run i).2 r c) ((run i).1.counter r c)
      else ((run i).1.counter r c, bitAt (run i).2 r c) := key_run cooked p r c hthr hwf
  by_cases hin : r < s₀.rows.length ∧ r < cooked.length ∧ c < L.cols
  · -- every pass scans the key, which then moves by `deferKey`
    have hstep : ∀ i, ((run (i + 1)).1.counter r c, bitAt (run (i + 1)).2 r c) =
        deferKey t (p (i + 1)).elapsed (p (i + 1)).changed (bitAt (p (i + 1)).raw r c)
          (bitAt (run i).2 r c) ((run i).1.counter r c) := by
      intro i
      rw [hkey i, if_pos]
      obtain ⟨h₁, h₂⟩ := hscan (i + 1) (by omega)
      exact ⟨by unfold rowsToScan; omega, hin.2.2⟩
    exact @window_of_deferKey w t p (fun i => (run i).1.counter r c) (fun i => bitAt (run i).2 r c)
      (fun i => bitAt (p i).raw r c) (fun i => (p i).changed) hstep hthr honest a k ha hak
      ⟨harm, hraw⟩ hlast hchange
  · -- a key the engine never scans keeps its cooked bit
    have hkeep : ∀ i, bitAt (run (i + 1)).2 r c = bitAt (run i).2 r c := by
      intro i
      have h := hkey i
      rw [if_neg fun hc => hin ⟨Nat.lt_of_lt_of_le hc.1 (rowsToScan_le_allocated _ _ _ _),
        Nat.lt_of_lt_of_le hc.1 (rowsToScan_le_cooked _ _ _ _), hc.2⟩] at h
      exact (Prod.mk.inj h).2
    have hk : k - 1 + 1 = k := by omega
    exact absurd (hk ▸ hkeep (k - 1)) hchange

/-- A key of a one-row deferring engine, pressed in every sample, with the hint set on every pass
of one tick. -/
theorem pressed_key_window :
    let L : Layout := ⟨1, 4⟩
    let t : Timing := ⟨2, 8, 0⟩
    let p : Nat → Pass 8 := fun _ => ⟨1, [0b0001#8], 1, true⟩
    let bit := fun i => bitAt (((Engine.defer State.empty).init L 1).2.run L t [0#8] p i).2 0 0
    (0 < t.down ∧ 0 < t.up ∧ (∀ i, 0 < i → 0 < (p i).numRows ∧ 0 < (p i).raw.length) ∧
      ∀ i, 1 < i → bitAt (p i).raw 0 0 ≠ bitAt (p (i - 1)).raw 0 0 →
        (p i).changed = true) ∧
    ∀ {a k}, 0 < a → a < k → (p a).changed = true → bitAt (p a).raw 0 0 ≠ bit (a - 1) →
      (∀ j, a < j → j < k →
        ¬((p j).changed = true ∧ bitAt (p j).raw 0 0 ≠ bit (j - 1))) →
      bit k ≠ bit (k - 1) →
      (∀ i, a ≤ i → i ≤ k → bitAt (p i).raw 0 0 = bit k) ∧
        t.threshold (bit k) ≤ ticks p a k ∧
        ∀ j, a < j → j < k → ticks p a j < t.threshold (bit k) :=
  ⟨⟨by decide, by decide, fun _ _ => ⟨Nat.one_pos, Nat.one_pos⟩, fun _ _ _ => rfl⟩,
    deferred_commit_window (by decide) (by decide) State.empty 1 [0#8]
      (fun _ => ⟨1, [0b0001#8], 1, true⟩) 0 0 (fun _ _ => ⟨Nat.one_pos, Nat.one_pos⟩)
      (fun _ _ _ => rfl)⟩

end KeyDebounce.Defer
