import KeyDebounce.Proofs.Runs
import KeyDebounce.Proofs.Defer.Keys
import KeyDebounce.Proofs.Quiesce.Keys
import KeyDebounce.Proofs.Chain.Pass

/-!
# What a key remembers of its last commit

Each engine moves a key by its own rule, but what the key carries from one commit to the next is
the same kind of fact. For the two countdown engines it is `Armed`: a running countdown was armed
after the last change, and with the ticks since it still covers the threshold of the state it
would commit. For the quiescing engine it is `Quiet`, which adds the window after the last commit.
Each rule keeps its fact on a pass that leaves the cooked bit alone, and a pass that flips the bit
is `Spaced` from the last change and starts the fact afresh.
-/

set_option autoImplicit false

namespace KeyDebounce

open Pass

variable {w : Nat} (p : Nat → Pass w) (t : Timing)

def Armed (k i : Nat) (b : Bool) (n : Nat) : Prop :=
  0 < n → ∃ a, k < a ∧ a ≤ i ∧ t.threshold (!b) ≤ n + ticks p a i

def quietPause (k : Nat) : Nat := if k = 0 then 0 else t.quiesce

def Quiet (k i : Nat) (b : Bool) (key : Quiesce.Key) : Prop :=
  match key.phase with
  | .waiting => quietPause t k ≤ ticks p k i
  | .debouncing => ∃ d, k < d ∧ d ≤ i ∧ quietPause t k ≤ ticks p k d ∧
      t.threshold (!b) ≤ key.remaining + ticks p d i
  | .quiescing => quietPause t k ≤ key.remaining + ticks p k i

variable {p t} {k i : Nat} {b : Bool} {n : Nat}

theorem step_or_keep {κ : Type} (I : Nat → Nat → Bool → κ → Prop) (gap : Bool → Prop)
    {v v' : κ} {b' : Bool} (hwait : I k i b v → I k (i + 1) b v) {cond : Prop} [Decidable cond]
    {out : κ × Bool} (hkey : (v', b') = if cond then out else (v, b))
    (hrule : cond → (out.2 = b → I k (i + 1) b out.1) ∧
      (out.2 ≠ b → gap out.2 ∧ I (i + 1) (i + 1) out.2 out.1))
    (hI : I k i b v) :
    (b' = b → I k (i + 1) b' v') ∧ (b' ≠ b → gap b' ∧ I (i + 1) (i + 1) b' v') := by
  split at hkey
  · rename_i hcond
    subst hkey
    exact ⟨fun hb => hb ▸ (hrule hcond).1 hb, (hrule hcond).2⟩
  · obtain ⟨rfl, rfl⟩ := Prod.mk.inj hkey
    exact ⟨fun _ => hwait hI, fun hb => absurd rfl hb⟩

theorem armed_zero : Armed p t k i b 0 := fun h => absurd h (Nat.lt_irrefl 0)

theorem armed_fresh (hk : k ≤ i) {x : Bool} (hx : x ≠ b) :
    Armed p t k (i + 1) b (t.threshold x) := by
  have hxb : x = !b := by cases x <;> cases b <;> simp_all
  exact fun _ => ⟨i + 1, by omega, le_refl _, by rw [ticks_self, hxb]; omega⟩

theorem Armed.wait (h : Armed p t k i b n) : Armed p t k (i + 1) b n := by
  intro hn
  obtain ⟨a, hka, hai, hthr⟩ := h hn
  refine ⟨a, hka, by omega, ?_⟩
  rw [ticks_succ p hai]
  omega

theorem Armed.drain (h : Armed p t k i b n) : Armed p t k (i + 1) b (n - (p (i + 1)).elapsed) := by
  intro hn
  obtain ⟨a, hka, hai, hthr⟩ := h (by omega)
  refine ⟨a, hka, by omega, ?_⟩
  rw [ticks_succ p hai]
  omega

/-- A countdown that runs out in pass `i + 1` has seen the threshold pass since it was armed. -/
theorem Armed.spaced (h : Armed p t k i b n) (hn : 0 < n) (he : n ≤ (p (i + 1)).elapsed) :
    Spaced p t 0 k (i + 1) (!b) := by
  obtain ⟨a, hka, hai, hthr⟩ := h hn
  refine ⟨a, hka, by omega, Nat.zero_le _, ?_⟩
  rw [ticks_succ p hai]
  omega

theorem not_eq_of_ne {x : Bool} (hx : x ≠ b) : x = !b := by
  cases x <;> cases b <;> simp_all

theorem Armed.deferKey (h : Armed p t k i b n) (hk : k ≤ i) (changed x : Bool) :
    let out := Defer.deferKey t (p (i + 1)).elapsed changed x b n
    (out.2 = b → Armed p t k (i + 1) b out.1) ∧
      (out.2 ≠ b → Spaced p t 0 k (i + 1) out.2 ∧ Armed p t (i + 1) (i + 1) out.2 out.1) := by
  unfold Defer.deferKey
  split
  · -- an edge rearms with the threshold of the raw bit
    rename_i harm
    simp only [Bool.and_eq_true, bne_iff_ne, ne_eq] at harm
    exact ⟨fun _ => armed_fresh hk harm.2, fun hb => absurd rfl hb⟩
  · split
    · exact ⟨fun _ => h.drain, fun hb => absurd rfl hb⟩
    · split
      · -- the countdown runs out and the raw bit is committed
        rename_i he hn
        refine ⟨fun _ => armed_zero, fun hx => ⟨?_, armed_zero⟩⟩
        rw [not_eq_of_ne hx]
        exact h.spaced hn (by omega)
      · exact ⟨fun _ => h.wait, fun hb => absurd rfl hb⟩

theorem Armed.extend (hcap : t.threshold (!b) ≤ Chain.countdownCap) (h : Armed p t k i b n)
    (hn : (p (i + 1)).elapsed < n) :
    Armed p t k (i + 1) b
      (min Chain.countdownCap (n - (p (i + 1)).elapsed + (p (i + 1)).elapsed)) := by
  intro _
  obtain ⟨a, hka, hai, hthr⟩ := h (by omega)
  refine ⟨a, hka, by omega, ?_⟩
  rw [ticks_succ p hai]
  rcases Nat.le_total n Chain.countdownCap with hle | hle
  · rw [Nat.min_eq_right (by omega)]
    omega
  · rw [Nat.min_eq_left (by omega)]
    omega

theorem Armed.denseKey (hcap : ∀ x, t.threshold x ≤ Chain.countdownCap) (h : Armed p t k i b n)
    (hk : k ≤ i) (changed scanned present x : Bool) :
    let out := Chain.denseKey t (p (i + 1)).elapsed changed scanned present x b n
    (out.2 = b → Armed p t k (i + 1) b out.1) ∧
      (out.2 ≠ b → Spaced p t 0 k (i + 1) out.2 ∧ Armed p t (i + 1) (i + 1) out.2 out.1) := by
  intro out
  have hsnd : out.2 = if present && 0 < n && n ≤ (p (i + 1)).elapsed then x else b :=
    Chain.denseKey_snd _ _ _ _ _ _ _ _
  have hfst : out.1 = if scanned && x != out.2
      then Chain.armedRemaining t (p (i + 1)).elapsed changed x (n - (p (i + 1)).elapsed)
      else n - (p (i + 1)).elapsed := Chain.denseKey_fst _ _ _ _ _ _ _ _
  by_cases hcommit : (present && 0 < n && n ≤ (p (i + 1)).elapsed) = true
  · -- the countdown runs out and the raw bit is committed; nothing rearms it in the same pass
    rw [if_pos hcommit] at hsnd
    simp only [Bool.and_eq_true, decide_eq_true_eq] at hcommit
    have hzero : out.1 = 0 := by
      rw [hfst, hsnd]
      simp only [bne_self_eq_false, Bool.and_false, Bool.false_eq_true, if_false]
      omega
    rw [hzero, hsnd]
    refine ⟨fun _ => armed_zero, fun hx => ⟨?_, armed_zero⟩⟩
    rw [not_eq_of_ne hx]
    exact h.spaced hcommit.1.2 hcommit.2
  · rw [if_neg hcommit] at hsnd
    rw [hsnd]
    refine ⟨fun _ => ?_, fun hb => absurd rfl hb⟩
    rw [hfst, hsnd]
    by_cases harm : (scanned && x != b) = true
    · simp only [Bool.and_eq_true, bne_iff_ne, ne_eq] at harm
      rw [if_pos (by simp [harm])]
      unfold Chain.armedRemaining
      split
      · exact armed_fresh hk harm.2
      · split
        · exact h.extend (hcap _) (by omega)
        · exact h.drain
    · rw [if_neg harm]
      exact h.drain

theorem quietPause_succ (i : Nat) : quietPause t (i + 1) = t.quiesce := by
  simp [quietPause]

theorem Quiet.wait {key : Quiesce.Key} (h : Quiet p t k i b key) (hk : k ≤ i) :
    Quiet p t k (i + 1) b key := by
  have hstep := ticks_succ p hk
  unfold Quiet at h ⊢
  split at h
  · omega
  · obtain ⟨d, hkd, hdi, hpause, hthr⟩ := h
    refine ⟨d, hkd, by omega, hpause, ?_⟩
    rw [ticks_succ p hdi]
    omega
  · omega

theorem Quiet.quiesceKey {key : Quiesce.Key} (h : Quiet p t k i b key) (hk : k ≤ i) (x : Bool) :
    let out := Quiesce.quiesceKey t (p (i + 1)).elapsed x b key
    (out.2 = b → Quiet p t k (i + 1) b out.1) ∧
      (out.2 ≠ b → Spaced p t (quietPause t k) k (i + 1) out.2 ∧
        Quiet p t (i + 1) (i + 1) out.2 out.1) := by
  have hstep := ticks_succ p hk
  unfold Quiet at h
  cases hp : key.phase with
  | waiting =>
    rw [hp] at h
    simp only [Quiesce.quiesceKey, hp]
    split
    · -- an edge starts debouncing now, after the window
      rename_i hx
      have hxb : x = !b := not_eq_of_ne (by simpa using hx)
      refine ⟨fun _ => ⟨i + 1, by omega, le_refl _, by omega, ?_⟩, fun hb => absurd rfl hb⟩
      simp [ticks_self, hxb]
    · refine ⟨fun _ => ?_, fun hb => absurd rfl hb⟩
      simp only [Quiet, hp]
      omega
  | debouncing =>
    rw [hp] at h
    obtain ⟨d, hkd, hdi, hpause, hthr⟩ := h
    have hstep' := ticks_succ p hdi
    simp only [Quiesce.quiesceKey, hp]
    split
    · -- the edge went away before the threshold
      refine ⟨fun _ => ?_, fun hb => absurd rfl hb⟩
      simp only [Quiet, Quiesce.Key.waiting]
      have := Pass.ticks_add p (Nat.le_of_lt hkd) (by omega : d ≤ i + 1)
      omega
    · split
      · rename_i he
        refine ⟨fun _ => ?_, fun hb => absurd rfl hb⟩
        simp only [Quiet]
        exact ⟨d, hkd, by omega, hpause, by omega⟩
      · -- the edge held for the threshold: commit, then the window starts
        rename_i hx he
        have hne : x ≠ b := by simpa using hx
        have hxb : x = !b := not_eq_of_ne hne
        have hspaced : Spaced p t (quietPause t k) k (i + 1) x :=
          ⟨d, hkd, by omega, hpause, by rw [hxb]; omega⟩
        split
        · rename_i hq
          refine ⟨fun hb => absurd hb hne, fun _ => ⟨hspaced, ?_⟩⟩
          simp only [Quiet, Quiesce.Key.waiting, quietPause_succ, hq]
          omega
        · refine ⟨fun hb => absurd hb hne, fun _ => ⟨hspaced, ?_⟩⟩
          simp only [Quiet, quietPause_succ]
          omega
  | quiescing =>
    rw [hp] at h
    simp only [Quiesce.quiesceKey, hp]
    split
    · refine ⟨fun _ => ?_, fun hb => absurd rfl hb⟩
      simp only [Quiet]
      omega
    · refine ⟨fun _ => ?_, fun hb => absurd rfl hb⟩
      simp only [Quiet, Quiesce.Key.waiting]
      omega

end KeyDebounce
