import KeyDebounce.Proofs.View

/-!
# When a quiescing key commits, and when it wakes

Read one key of the quiescing engine along a run: its state `key i` and cooked bit `ck i` after
pass `i`, and the raw bit `raw i` that pass `i` sees, each pass moving it by `quiesceKey`. Only a
debouncing key whose countdown ran out changes its cooked bit. Going back from such a commit, the
key entered debouncing from waiting at some pass `d`, and from `d` on it counted the threshold of
the raw state down while raw held that state. After the commit the key quiesces for the quiet
window with its cooked bit fixed, waits from the first pass whose ticks reach the window, and only
the pass after that can start debouncing the next edge.
-/

set_option autoImplicit false

namespace KeyDebounce.Quiesce

open Row Pass

variable {w : Nat} {t : Timing} {p : Nat → Pass w} {key : Nat → Key} {ck raw : Nat → Bool}

/-- After pass `i` the key debounces the edge seen at pass `d`: a running countdown that with the
ticks since makes up the threshold of the raw state of `d`, raw holding that state since, and the
cooked bit from before `d`, which that state differs from. -/
def Debouncing (p : Nat → Pass w) (t : Timing) (key : Nat → Key) (ck raw : Nat → Bool)
    (d i : Nat) : Prop :=
  (key i).phase = .debouncing ∧ 0 < (key i).remaining ∧
    (key i).remaining + ticks p d i = t.threshold (raw d) ∧
    (∀ j, d ≤ j → j ≤ i → raw j = raw d) ∧ ck i = ck (d - 1) ∧ raw d ≠ ck (d - 1)

section Schedule

variable (hstep : ∀ i, (key (i + 1), ck (i + 1)) =
  quiesceKey t (p (i + 1)).elapsed (raw (i + 1)) (ck i) (key i))
include hstep

theorem commit_of_change {i : Nat} (h : ck (i + 1) ≠ ck i) :
    (key i).phase = .debouncing ∧ raw (i + 1) ≠ ck i ∧ (key i).remaining ≤ (p (i + 1)).elapsed ∧
      ck (i + 1) = raw (i + 1) ∧
      key (i + 1) = if t.quiesce = 0 then Key.waiting else ⟨.quiescing, t.quiesce⟩ := by
  have hs := hstep i
  cases hp : (key i).phase with
  | waiting =>
    simp only [quiesceKey, hp] at hs
    split at hs <;> exact absurd (Prod.mk.inj hs).2 h
  | quiescing =>
    simp only [quiesceKey, hp] at hs
    split at hs <;> exact absurd (Prod.mk.inj hs).2 h
  | debouncing =>
    simp only [quiesceKey, hp] at hs
    split at hs
    · exact absurd (Prod.mk.inj hs).2 h
    · rename_i hx
      split at hs
      · exact absurd (Prod.mk.inj hs).2 h
      · rename_i he
        have hck : ck (i + 1) = raw (i + 1) := by split at hs <;> exact (Prod.mk.inj hs).2
        refine ⟨rfl, by simpa using hx, by omega, hck, ?_⟩
        split at hs
        · rename_i hq
          rw [if_pos hq]
          exact (Prod.mk.inj hs).1
        · rename_i hq
          rw [if_neg hq]
          exact (Prod.mk.inj hs).1

theorem waiting_or_debouncing {i : Nat} (h : (key (i + 1)).phase = .debouncing) :
    (key i).phase = .waiting ∨ (key i).phase = .debouncing := by
  cases hp : (key i).phase with
  | waiting => exact Or.inl rfl
  | debouncing => exact Or.inr rfl
  | quiescing =>
    -- a quiescing key quiesces on or waits
    have hs := congrArg (fun x => x.1.phase) (hstep i)
    simp only [quiesceKey, hp] at hs
    rw [h] at hs
    split at hs <;> simp [Key.waiting] at hs

theorem entry_of_debouncing (h₀ : (key 0).phase = .waiting) (i : Nat)
    (h : (key i).phase = .debouncing) :
    ∃ d, 0 < d ∧ d ≤ i ∧ (key (d - 1)).phase = .waiting ∧
      ∀ j, d ≤ j → j ≤ i → (key j).phase = .debouncing := by
  induction i with
  | zero => exact absurd (h₀.symm.trans h) (by decide)
  | succ i ih =>
    rcases waiting_or_debouncing hstep h with hw | hd
    · exact ⟨i + 1, by omega, le_refl _, hw,
        fun j h₁ h₂ => by rw [show j = i + 1 by omega]; exact h⟩
    · obtain ⟨d, hd0, hdi, hw, hdeb⟩ := ih hd
      refine ⟨d, hd0, by omega, hw, fun j h₁ h₂ => ?_⟩
      rcases Nat.lt_or_ge j (i + 1) with hj | hj
      · exact hdeb j h₁ (by omega)
      · rw [show j = i + 1 by omega]
        exact h

theorem debouncing_start (hthr : ∀ x, 0 < t.threshold x) {d : Nat} (hd : 0 < d)
    (hw : (key (d - 1)).phase = .waiting) (hdeb : (key d).phase = .debouncing) :
    Debouncing p t key ck raw d d := by
  have hs := hstep (d - 1)
  rw [Nat.sub_add_cancel hd] at hs
  simp only [quiesceKey, hw] at hs
  split at hs
  · rename_i hx
    obtain ⟨hk, hck⟩ := Prod.mk.inj hs
    refine ⟨hdeb, by rw [hk]; exact hthr _, by rw [hk, ticks_self]; rfl, fun j h₁ h₂ => ?_, hck,
      by simpa using hx⟩
    rw [Nat.le_antisymm h₂ h₁]
  · -- without an edge the key would still wait
    rw [(Prod.mk.inj hs).1, hw] at hdeb
    exact absurd hdeb (by decide)

theorem Debouncing.step {d i : Nat} (hdi : d ≤ i) (h : Debouncing p t key ck raw d i)
    (hnext : (key (i + 1)).phase = .debouncing) : Debouncing p t key ck raw d (i + 1) := by
  obtain ⟨hp, hpos, hleft, hheld, hck, hx⟩ := h
  have hs := hstep i
  simp only [quiesceKey, hp] at hs
  split at hs
  · -- raw went back to cooked: the key waits
    rw [(Prod.mk.inj hs).1] at hnext
    exact absurd hnext (by decide)
  · rename_i hne
    split at hs
    · rename_i he
      obtain ⟨hk, hck'⟩ := Prod.mk.inj hs
      -- raw and the armed state both differ from the same cooked bit
      have hraw : raw (i + 1) = raw d :=
        (not_eq_of_ne (hck ▸ (by simpa using hne))).trans (not_eq_of_ne hx).symm
      refine ⟨hnext, by rw [hk]; simp only; omega, ?_, fun j h₁ h₂ => ?_, by rw [hck', hck], hx⟩
      · rw [hk, ticks_succ p hdi]
        simp only
        omega
      · rcases Nat.lt_or_ge j (i + 1) with hj | hj
        · exact hheld j h₁ (by omega)
        · rw [show j = i + 1 by omega, hraw]
    · -- the countdown ran out: the key committed and no longer debounces
      split at hs <;>
        (rw [(Prod.mk.inj hs).1] at hnext; simp [Key.waiting] at hnext)

theorem Debouncing.commit {d i : Nat} (h : Debouncing p t key ck raw d i)
    (hchange : ck (i + 1) ≠ ck i) :
    raw (i + 1) = raw d ∧ (key i).remaining ≤ (p (i + 1)).elapsed ∧ ck (i + 1) = raw d := by
  obtain ⟨-, hx, he, hck', -⟩ := commit_of_change hstep hchange
  obtain ⟨-, -, -, -, hck, hxd⟩ := h
  have hraw : raw (i + 1) = raw d := (not_eq_of_ne (hck ▸ hx)).trans (not_eq_of_ne hxd).symm
  exact ⟨hraw, he, hck'.trans hraw⟩

/-- A key that waited at the start and changes its cooked bit at pass `k` entered debouncing from
waiting at a pass `d < k` and debounced until `k`, raw showed the new state from `d` to `k`, and
`k` is the first pass after `d` by which the threshold of that state has passed. -/
theorem debounce_window (hthr : ∀ x, 0 < t.threshold x) (h₀ : (key 0).phase = .waiting)
    {k : Nat} (hk : 0 < k) (hchange : ck k ≠ ck (k - 1)) :
    ∃ d, 0 < d ∧ d < k ∧ (key (d - 1)).phase = .waiting ∧
      (∀ j, d ≤ j → j < k → (key j).phase = .debouncing) ∧
      (∀ j, d ≤ j → j ≤ k → raw j = ck k) ∧ t.threshold (ck k) ≤ ticks p d k ∧
      ∀ j, d < j → j < k → ticks p d j < t.threshold (ck k) := by
  have hk' : k - 1 + 1 = k := by omega
  have hchange' : ck (k - 1 + 1) ≠ ck (k - 1) := by rwa [hk']
  obtain ⟨hdeb, -, -, -, -⟩ := commit_of_change hstep hchange'
  obtain ⟨d, hd0, hdk, hw, hdebs⟩ := entry_of_debouncing hstep h₀ (k - 1) hdeb
  -- from `d` to `k - 1` the key counts the threshold down
  have hrun : ∀ i, d ≤ i → i ≤ k - 1 → Debouncing p t key ck raw d i := by
    intro i hdi
    induction i, hdi using Nat.le_induction with
    | base => exact fun _ => debouncing_start hstep hthr hd0 hw (hdebs d le_rfl hdk)
    | succ i hdi ih =>
      exact fun hi => (ih (by omega)).step hstep hdi (hdebs (i + 1) (by omega) hi)
  have hD := hrun (k - 1) hdk le_rfl
  obtain ⟨hraw, he, hck⟩ := hD.commit hstep hchange'
  obtain ⟨-, hpos, hleft, hheld, -, -⟩ := hD
  have hticks := ticks_succ p hdk
  rw [hk'] at hraw he hck hticks
  refine ⟨d, hd0, by omega, hw, fun j h₁ h₂ => hdebs j h₁ (by omega), fun j h₁ h₂ => ?_, ?_,
    fun j h₁ h₂ => ?_⟩
  · rcases Nat.lt_or_ge j k with hj | hj
    · rw [hck, hheld j h₁ (by omega)]
    · rw [show j = k by omega, hck, hraw]
  · rw [hck, hticks]
    omega
  · -- the countdown was still running after pass `k - 1`
    have hmono := ticks_add p (Nat.le_of_lt h₁) (show j ≤ k - 1 by omega)
    rw [hck]
    omega

/-- After a commit into the quiet window at pass `k`, up to the first pass whose ticks since `k`
reach the window, the key keeps its cooked bit and quiesces with the rest of the window left; at
that pass it waits. -/
theorem quiet_window (hq : 0 < t.quiesce) {k : Nat} (hk : key k = ⟨.quiescing, t.quiesce⟩)
    {q : Nat} (hkq : k ≤ q) (hfirst : ∀ j, k ≤ j → j < q → ticks p k j < t.quiesce) :
    ck q = ck k ∧ key q = if ticks p k q < t.quiesce
      then ⟨.quiescing, t.quiesce - ticks p k q⟩ else Key.waiting := by
  induction q, hkq using Nat.le_induction with
  | base => rw [ticks_self, if_pos hq, hk, Nat.sub_zero]; exact ⟨rfl, rfl⟩
  | succ q hkq ih =>
    obtain ⟨hck, hkey⟩ := ih fun j h₁ h₂ => hfirst j h₁ (by omega)
    have hT := hfirst q hkq (by omega)
    rw [if_pos hT] at hkey
    have hs := hstep q
    rw [hkey] at hs
    simp only [quiesceKey] at hs
    rw [ticks_succ p hkq]
    split at hs
    · -- the window runs on
      obtain ⟨hk', hck'⟩ := Prod.mk.inj hs
      refine ⟨hck'.trans hck, ?_⟩
      rw [if_pos (by omega), hk']
      simp only [Key.mk.injEq, true_and]
      omega
    · -- the window is over
      obtain ⟨hk', hck'⟩ := Prod.mk.inj hs
      exact ⟨hck'.trans hck, by rw [if_neg (by omega), hk']⟩

theorem wake {q : Nat} (hq : key q = Key.waiting) :
    (key (q + 1)).phase = if raw (q + 1) ≠ ck q then .debouncing else .waiting := by
  have hs := congrArg (fun x => x.1.phase) (hstep q)
  simp only [quiesceKey, hq, Key.waiting] at hs
  rw [hs]
  by_cases hx : raw (q + 1) = ck q <;> simp [hx]

end Schedule

variable {L : Layout}

/-- In a run of the quiescing engine after `init`, on the buffer that `init` leaves to it, with
every pass asking for and sampling the row of key (`r`, `c`), whatever the hints: when the key's
cooked bit changes at pass `k`, it entered debouncing from waiting at a pass `d < k` and debounced
until `k`, raw showed the new state at every pass from `d` to `k`, and `k` is the first pass after
`d` by which the threshold of the new state has passed. With no quiet window the key then waits.
With one it quiesces, its cooked bit fixed whatever raw does, until the first pass whose ticks
since `k` reach the window, where it waits; the pass after that starts debouncing exactly when
raw then differs from cooked, also for a change that came during the window. -/
theorem commit_then_quiet (hdown : 0 < t.down) (hup : 0 < t.up) (s : State) (n : Nat)
    (cooked : List (BitVec w)) (p : Nat → Pass w) (r c : Nat)
    (hscan : ∀ i, 0 < i → r < (p i).numRows ∧ r < (p i).raw.length) :
    let run := ((Engine.quiesce s).init L n).2.run L t cooked p
    let bit := fun i => bitAt (run i).2 r c
    let phase := fun i => (run i).1.phase? r c
    ∀ k, 0 < k → bit k ≠ bit (k - 1) →
      (∃ d, 0 < d ∧ d < k ∧ phase (d - 1) = some .waiting ∧
        (∀ j, d ≤ j → j < k → phase j = some .debouncing) ∧
        (∀ j, d ≤ j → j ≤ k → bitAt (p j).raw r c = bit k) ∧
        t.threshold (bit k) ≤ ticks p d k ∧
        ∀ j, d < j → j < k → ticks p d j < t.threshold (bit k)) ∧
      (t.quiesce = 0 → phase k = some .waiting) ∧
      (0 < t.quiesce → ∀ q, k ≤ q → (∀ j, k ≤ j → j < q → ticks p k j < t.quiesce) →
        bit q = bit k ∧
        phase q = some (if ticks p k q < t.quiesce then .quiescing else .waiting) ∧
        (t.quiesce ≤ ticks p k q →
          phase (q + 1) = some (if bitAt (p (q + 1)).raw r c ≠ bit k then .debouncing
            else .waiting))) := by
  have hthr : ∀ x, 0 < t.threshold x := Timing.threshold_pos hdown hup
  intro run bit phase k hk hchange
  obtain ⟨s₀, hg, hwf, hidle⟩ := init_idle s L n
  let out := runWith (fun s q c => s.step t q.elapsed q.raw c q.numRows) s₀ cooked p
  have hbit : bit = fun i => bitAt (out i).2 r c := by
    funext i
    simp only [bit, run, hg, Engine.run_quiesce, out]
  have hphase : phase = fun i => (out i).1.phase? r c := by
    funext i
    simp only [phase, run, hg, Engine.run_quiesce, Engine.phase?, out]
  rw [hbit] at hchange ⊢
  rw [hphase]
  simp only at hchange ⊢
  have hkey : ∀ i, ((out (i + 1)).1.key r c, bitAt (out (i + 1)).2 r c) =
      if r < rowsToScan (p (i + 1)).numRows s₀.rows.length (p (i + 1)).raw.length
          cooked.length ∧ c < L.cols then
        quiesceKey t (p (i + 1)).elapsed (bitAt (p (i + 1)).raw r c) (bitAt (out i).2 r c)
          ((out i).1.key r c)
      else ((out i).1.key r c, bitAt (out i).2 r c) := key_run hwf cooked p r c
  have hk' : k - 1 + 1 = k := by omega
  have hchange' : bitAt (out (k - 1 + 1)).2 r c ≠ bitAt (out (k - 1)).2 r c := by
    rw [hk']
    exact hchange
  by_cases hin : r < s₀.rows.length ∧ r < cooked.length ∧ c < L.cols
  · -- every pass scans the key, which then moves by `quiesceKey`
    have hstep : ∀ i, ((out (i + 1)).1.key r c, bitAt (out (i + 1)).2 r c) =
        quiesceKey t (p (i + 1)).elapsed (bitAt (p (i + 1)).raw r c) (bitAt (out i).2 r c)
          ((out i).1.key r c) := by
      intro i
      rw [hkey i, if_pos]
      obtain ⟨h₁, h₂⟩ := hscan (i + 1) (by omega)
      exact ⟨by unfold rowsToScan; omega, hin.2.2⟩
    have hshape : ∀ i, (out i).1.WellFormed L ∧ (out i).1.rows.length = s₀.rows.length ∧
        (out i).2.length = cooked.length := shape_run hwf cooked p
    have hph : ∀ i, (out i).1.phase? r c = some ((out i).1.key r c).phase := fun i =>
      phase?_eq (hshape i).1 ((hshape i).2.1 ▸ hin.1) hin.2.2
    have h₀ : ((out 0).1.key r c).phase = .waiting := by
      rw [show (out 0).1 = s₀ from rfl, hidle]
      rfl
    simp only [hph]
    -- the key, its cooked bit and its raw bit along the run
    let key := fun i => (out i).1.key r c
    let ck := fun i => bitAt (out i).2 r c
    let raw := fun i => bitAt (p i).raw r c
    obtain ⟨-, -, -, -, hquiet⟩ := @commit_of_change w t p key ck raw hstep (k - 1) hchange'
    simp only [key, hk'] at hquiet
    refine ⟨?_, fun hq => by rw [hquiet, if_pos hq]; rfl, fun hq q hkq hfirst => ?_⟩
    · obtain ⟨d, hd0, hdk, hw, hdeb, hraw, hthr', hfirst⟩ :=
        @debounce_window w t p key ck raw hstep hthr h₀ k hk hchange
      exact ⟨d, hd0, hdk, by rw [hw], fun j h₁ h₂ => by rw [hdeb j h₁ h₂], hraw, hthr', hfirst⟩
    · rw [if_neg (Nat.pos_iff_ne_zero.mp hq)] at hquiet
      obtain ⟨hck, hkey⟩ := @quiet_window w t p key ck raw hstep hq k hquiet q hkq hfirst
      simp only [key, ck] at hck hkey
      refine ⟨hck, by rw [hkey]; split <;> rfl, fun hT => ?_⟩
      rw [if_neg (by omega)] at hkey
      have hwake := @wake w t p key ck raw hstep q hkey
      simp only [key, ck, raw] at hwake
      simp only [hwake, hck]
  · -- the engine never scans the key, so its cooked bit never changes
    have h := hkey (k - 1)
    rw [if_neg fun hc => hin ⟨Nat.lt_of_lt_of_le hc.1 (rowsToScan_le_allocated _ _ _ _),
      Nat.lt_of_lt_of_le hc.1 (rowsToScan_le_cooked _ _ _ _), hc.2⟩] at h
    exact absurd (Prod.mk.inj h).2 hchange'

/-- A key of a one-row quiescing engine with a quiet window of four ticks, pressed in every
sample, with a pass every tick. -/
theorem pressed_key_commit_then_quiet :
    let L : Layout := ⟨1, 4⟩
    let t : Timing := ⟨2, 2, 4⟩
    let p : Nat → Pass 8 := fun _ => ⟨1, [0b0001#8], 1, false⟩
    let run := ((Engine.quiesce State.empty).init L 1).2.run L t [0#8] p
    let bit := fun i => bitAt (run i).2 0 0
    let phase := fun i => (run i).1.phase? 0 0
    (0 < t.down ∧ 0 < t.up ∧ ∀ i, 0 < i → 0 < (p i).numRows ∧ 0 < (p i).raw.length) ∧
    ∀ k, 0 < k → bit k ≠ bit (k - 1) →
      (∃ d, 0 < d ∧ d < k ∧ phase (d - 1) = some .waiting ∧
        (∀ j, d ≤ j → j < k → phase j = some .debouncing) ∧
        (∀ j, d ≤ j → j ≤ k → bitAt (p j).raw 0 0 = bit k) ∧
        t.threshold (bit k) ≤ ticks p d k ∧
        ∀ j, d < j → j < k → ticks p d j < t.threshold (bit k)) ∧
      (t.quiesce = 0 → phase k = some .waiting) ∧
      (0 < t.quiesce → ∀ q, k ≤ q → (∀ j, k ≤ j → j < q → ticks p k j < t.quiesce) →
        bit q = bit k ∧
        phase q = some (if ticks p k q < t.quiesce then .quiescing else .waiting) ∧
        (t.quiesce ≤ ticks p k q →
          phase (q + 1) = some (if bitAt (p (q + 1)).raw 0 0 ≠ bit k then .debouncing
            else .waiting))) :=
  ⟨⟨by decide, by decide, fun _ _ => ⟨Nat.one_pos, Nat.one_pos⟩⟩,
    commit_then_quiet (by decide) (by decide) State.empty 1 [0#8]
      (fun _ => ⟨1, [0b0001#8], 1, false⟩) 0 0 (fun _ _ => ⟨Nat.one_pos, Nat.one_pos⟩)⟩

end KeyDebounce.Quiesce
