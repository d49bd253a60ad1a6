import KeyDebounce.Proofs.View
import KeyDebounce.Proofs.Countdown

/-!
# A held sample settles the quiescing engine

Hold one raw sample, every pass after the first taking a tick or more. A key has two ranks: the
passes it still needs to wait with cooked equal to raw, and the passes it still needs for cooked
to equal raw. A waiting key that differs from raw needs one pass to start debouncing, the
threshold to commit and the quiet window to wait again; a quiescing one first finishes its
window. No pass raises a rank and a pass of a tick or more lowers a positive one. A key that fits
its phase ranks at most `2 * quiesce + longest + 1` and `quiesce + longest + 1`, so cooked agrees
with raw from pass `quiesce + longest + 2` on and every scanned key waits from pass
`2 * quiesce + longest + 2` on, after which a pass over the held sample changes nothing. From an
engine with every key waiting, a scanned key whose raw bit differs from cooked commits raw at the
first pass by which its threshold has passed since the first.
-/

set_option autoImplicit false

namespace KeyDebounce.Quiesce

open Row Pass

variable {w : Nat} {L : Layout} {t : Timing}

/-! ## Ranks -/

def settleRank (t : Timing) (x b : Bool) (k : Key) : Nat :=
  match k.phase with
  | .waiting => if x = b then 0 else 1 + t.threshold x + t.quiesce
  | .debouncing => if x = b then 1 else k.remaining + t.quiesce
  | .quiescing => if x = b then k.remaining else k.remaining + 1 + t.threshold x + t.quiesce

def agreeRank (t : Timing) (x b : Bool) (k : Key) : Nat :=
  if x = b then 0
  else
    match k.phase with
    | .waiting => 1 + t.threshold x
    | .debouncing => k.remaining
    | .quiescing => k.remaining + 1 + t.threshold x

variable {k : Key}

theorem settleRank_le (hk : k.Fits t) (x b : Bool) :
    settleRank t x b k ≤ 2 * t.quiesce + t.longest + 1 := by
  have hx := t.threshold_le_longest x
  unfold Key.Fits at hk
  unfold settleRank
  split <;> rename_i hp <;> rw [hp] at hk <;> split <;> omega

theorem agreeRank_le (hk : k.Fits t) (x b : Bool) :
    agreeRank t x b k ≤ t.quiesce + t.longest + 1 := by
  have hx := t.threshold_le_longest x
  unfold Key.Fits at hk
  unfold agreeRank
  split
  · omega
  · split <;> rename_i hp <;> rw [hp] at hk <;> omega

theorem settled_of_settleRank (hk : k.Fits t) {x b : Bool} (h : settleRank t x b k = 0) :
    k.phase = .waiting ∧ b = x := by
  unfold Key.Fits at hk
  unfold settleRank at h
  split at h <;> rename_i hp <;> rw [hp] at hk <;> split at h <;> first
    | exact ⟨hp, by rename_i hxb; exact hxb.symm⟩
    | omega

theorem agrees_of_agreeRank (hk : k.Fits t) {x b : Bool} (h : agreeRank t x b k = 0) : b = x := by
  unfold Key.Fits at hk
  unfold agreeRank at h
  split at h
  · rename_i hxb
    exact hxb.symm
  · split at h <;> rename_i hp <;> rw [hp] at hk <;> omega

theorem settleRank_quiesceKey (hthr : ∀ x, 0 < t.threshold x) (hk : k.Fits t) (e : Nat)
    (x b : Bool) :
    settleRank t x (quiesceKey t e x b k).2 (quiesceKey t e x b k).1 ≤ settleRank t x b k ∧
      (0 < e → settleRank t x (quiesceKey t e x b k).2 (quiesceKey t e x b k).1 ≤
        settleRank t x b k - 1) := by
  have hx := hthr x
  unfold Key.Fits at hk
  cases hp : k.phase with
  | waiting =>
    -- an edge starts debouncing, one pass closer; no edge, nothing to do
    by_cases hxb : x = b
    · simp [quiesceKey, settleRank, hp, hxb]
    · simp [quiesceKey, settleRank, hp, hxb]
      omega
  | debouncing =>
    rw [hp] at hk
    by_cases hxb : x = b
    · simp [quiesceKey, settleRank, hp, hxb, Key.waiting]
    · by_cases he : e < k.remaining
      · simp [quiesceKey, settleRank, hp, hxb, he]
        omega
      · -- the countdown runs out: raw is committed, and only the window is left
        by_cases hq : t.quiesce = 0
        · simp [quiesceKey, settleRank, hp, hxb, he, hq, Key.waiting]
        · simp [quiesceKey, settleRank, hp, hxb, he, hq]
          omega
  | quiescing =>
    rw [hp] at hk
    by_cases he : e < k.remaining
    · by_cases hxb : x = b <;> simp [quiesceKey, settleRank, hp, hxb, he] <;> omega
    · -- the window ends: the key waits, and a raw bit that moved meanwhile is still to come
      by_cases hxb : x = b
      · simp [quiesceKey, settleRank, hp, hxb, he, Key.waiting]
      · simp [quiesceKey, settleRank, hp, hxb, he, Key.waiting]
        omega

theorem agreeRank_quiesceKey (hthr : ∀ x, 0 < t.threshold x) (hk : k.Fits t) (e : Nat)
    (x b : Bool) :
    agreeRank t x (quiesceKey t e x b k).2 (quiesceKey t e x b k).1 ≤ agreeRank t x b k ∧
      (0 < e → agreeRank t x (quiesceKey t e x b k).2 (quiesceKey t e x b k).1 ≤
        agreeRank t x b k - 1) := by
  have hx := hthr x
  unfold Key.Fits at hk
  by_cases hxb : x = b
  · -- cooked already agrees, and no rule moves it off raw
    subst hxb
    have hkeep : (quiesceKey t e x x k).2 = x := by
      unfold quiesceKey
      split
      · simp
      · simp
      · split <;> rfl
    simp [agreeRank, hkeep]
  · cases hp : k.phase with
    | waiting => simp [quiesceKey, agreeRank, hp, hxb]
    | debouncing =>
      rw [hp] at hk
      by_cases he : e < k.remaining
      · simp [quiesceKey, agreeRank, hp, hxb, he]
        omega
      · by_cases hq : t.quiesce = 0 <;> simp [quiesceKey, agreeRank, hp, hxb, he, hq]
    | quiescing =>
      rw [hp] at hk
      by_cases he : e < k.remaining
      · simp [quiesceKey, agreeRank, hp, hxb, he]
        omega
      · simp [quiesceKey, agreeRank, hp, hxb, he, Key.waiting]
        omega

theorem quiesceKey_agreed (e : Nat) (x : Bool) (hk : k.phase ≠ .debouncing) :
    (quiesceKey t e x x k).1.phase ≠ .debouncing ∧ (quiesceKey t e x x k).2 = x := by
  unfold quiesceKey
  split
  · simp
    assumption
  · contradiction
  · split <;> simp [Key.waiting, hk]

theorem quiesceKey_wait (e : Nat) (x : Bool) (hk : k.phase = .waiting) :
    quiesceKey t e x x k = (k, x) := by
  simp [quiesceKey, hk]

theorem quiesceKey_arm (e : Nat) {x b : Bool} (hx : x ≠ b) (hk : k.phase = .waiting) :
    quiesceKey t e x b k = (⟨.debouncing, t.threshold x⟩, b) := by
  simp [quiesceKey, hk, hx]

theorem quiesceKey_count {e n : Nat} {x b : Bool} (hx : x ≠ b) (he : e < n) :
    quiesceKey t e x b ⟨.debouncing, n⟩ = (⟨.debouncing, n - e⟩, b) := by
  simp [quiesceKey, hx, he]

theorem quiesceKey_expire {e n : Nat} {x b : Bool} (hx : x ≠ b) (he : n ≤ e) :
    (quiesceKey t e x b ⟨.debouncing, n⟩).1.phase ≠ .debouncing ∧
      (quiesceKey t e x b ⟨.debouncing, n⟩).2 = x := by
  by_cases hq : t.quiesce = 0 <;> simp [quiesceKey, hx, Nat.not_lt.mpr he, hq, Key.waiting]

/-! ## One key along a held sample -/

section Held

variable {p : Nat → Pass w} {key : Nat → Key} {ck : Nat → Bool} {x : Bool}
  (hstep : ∀ i, (key (i + 1), ck (i + 1)) = quiesceKey t (p (i + 1)).elapsed x (ck i) (key i))
include hstep

/-- A rank that no pass raises, that each pass of a tick or more lowers and that a fitting key
keeps within `B` is zero from pass `B + 1` on, when passes `2` to `B + 1` take a tick or more. -/
theorem rank_run (hfits : ∀ i, (key i).Fits t) (ρ : Bool → Key → Nat) (B : Nat)
    (hB : ∀ b k, k.Fits t → ρ b k ≤ B)
    (hρ : ∀ e b k, k.Fits t →
      ρ (quiesceKey t e x b k).2 (quiesceKey t e x b k).1 ≤ ρ b k ∧
        (0 < e → ρ (quiesceKey t e x b k).2 (quiesceKey t e x b k).1 ≤ ρ b k - 1))
    (hquiet : ∀ i, 1 < i → i ≤ B + 1 → 0 < (p i).elapsed) :
    ∀ i, B + 1 ≤ i → ρ (ck i) (key i) = 0 := by
  have hpass : ∀ i, ρ (ck (i + 1)) (key (i + 1)) ≤ ρ (ck i) (key i) ∧
      (0 < (p (i + 1)).elapsed → ρ (ck (i + 1)) (key (i + 1)) ≤ ρ (ck i) (key i) - 1) := by
    intro i
    obtain ⟨hk, hc⟩ := Prod.mk.inj (hstep i)
    rw [hk, hc]
    exact hρ _ _ _ (hfits i)
  have hdesc : ∀ i, 0 < i → i ≤ B + 1 → True ∧ ρ (ck i) (key i) ≤ B - (i - 1) :=
    descent (fun _ => True) (fun i => ρ (ck i) (key i))
      ⟨trivial, le_trans (hpass 0).1 (hB _ _ (hfits 0))⟩
      fun i hi him _ => ⟨trivial, (hpass i).2 (hquiet (i + 1) (by omega) (by omega))⟩
  intro i hi
  induction i, hi using Nat.le_induction with
  | base =>
    have := (hdesc (B + 1) (by omega) (le_refl _)).2
    omega
  | succ i _ ih =>
    have := (hpass i).1
    omega

theorem held_settles (hfits : ∀ i, (key i).Fits t) (hthr : ∀ x, 0 < t.threshold x)
    (hquiet : ∀ i, 1 < i → i ≤ 2 * t.quiesce + t.longest + 2 → 0 < (p i).elapsed) :
    ∀ i, 2 * t.quiesce + t.longest + 2 ≤ i → (key i).phase = .waiting ∧ ck i = x := by
  intro i hi
  have h := rank_run hstep hfits (settleRank t x) (2 * t.quiesce + t.longest + 1)
    (fun b k hk => settleRank_le hk x b) (fun e b k hk => settleRank_quiesceKey hthr hk e x b)
    hquiet i hi
  exact settled_of_settleRank (hfits i) h

theorem held_agrees (hfits : ∀ i, (key i).Fits t) (hthr : ∀ x, 0 < t.threshold x)
    (hquiet : ∀ i, 1 < i → i ≤ t.quiesce + t.longest + 2 → 0 < (p i).elapsed) :
    ∀ i, t.quiesce + t.longest + 2 ≤ i → ck i = x := by
  intro i hi
  have h := rank_run hstep hfits (agreeRank t x) (t.quiesce + t.longest + 1)
    (fun b k hk => agreeRank_le hk x b) (fun e b k hk => agreeRank_quiesceKey hthr hk e x b)
    hquiet i hi
  exact agrees_of_agreeRank (hfits i) h

theorem held_commits_once (hthr : ∀ x, 0 < t.threshold x)
    (hquiet : ∀ i, 1 < i → i ≤ 2 * t.quiesce + t.longest + 2 → 0 < (p i).elapsed)
    (h₀ : (key 0).phase = .waiting) :
    ∀ i, ck i = if x ≠ ck 0 ∧ t.threshold x ≤ ticks p 1 i then x else ck 0 := by
  -- debouncing is the countdown, and a key that has left it has committed
  have hT := t.threshold_le_longest x
  exact @countdown_commits_once w p Key (fun i b k => quiesceKey t (p i).elapsed x b k) key ck x
    hstep (fun n => ⟨.debouncing, n⟩) (fun k => k.phase ≠ .debouncing) (t.threshold x)
    (2 * t.quiesce + t.longest + 2) (hthr x) (by omega) hquiet
    (fun _ _ => quiesceKey_wait _ x h₀) (fun hx => quiesceKey_arm _ hx h₀)
    (fun hx _ _ _ _ he _ => quiesceKey_count hx he) (fun hx _ _ _ _ _ he => quiesceKey_expire hx he)
    (fun _ _ hk => quiesceKey_agreed _ x hk)

end Held

/-! ## The engine under a held sample -/

theorem step_settled {s : State} (hs : s.WellFormed L) (e : Nat) (raw cooked : List (BitVec w))
    (numRows : Nat)
    (h : ∀ r c, r < rowsToScan numRows s.rows.length raw.length cooked.length → c < L.cols →
      (s.key r c).phase = .waiting ∧ bitAt cooked r c = bitAt raw r c) :
    s.step t e raw cooked numRows = (s, cooked) := by
  rw [step_eq]
  dsimp only
  rw [scanWith_eq_self]
  intro r hrows hraw hcooked hr
  have hrow := hs _ (List.getElem_mem hrows)
  by_cases hskip : s.rows[r].active = 0 ∧ raw[r] = cooked[r]
  · exact rowStep_of_skip e hskip
  · rw [rowStep_of_scan e hskip]
    dsimp only
    rw [keysWith_eq_self]
    intro j hj
    -- a waiting key over agreeing bits is left alone
    have hjc : j < L.cols := hrow.1 ▸ hj
    obtain ⟨hwait, hbit⟩ := h r j hr hjc
    have hphase : s.rows[r].keys[j].phase = .waiting := by
      simpa [State.key, List.getElem?_eq_getElem hrows, List.getElem?_eq_getElem hj]
        using hwait
    have hedge : bit (raw[r] ^^^ cooked[r]) j = false := bit_xor_of_bitAt hraw hcooked hbit
    simp [keyStep, hphase, hedge]

theorem waiting_of_inFlight {s : State} (hs : s.WellFormed L) (h : s.inFlight = 0) (r c : Nat) :
    (s.key r c).phase = .waiting := by
  unfold State.key
  cases hr : s.rows[r]? with
  | none => rfl
  | some row =>
    have hrow := List.mem_of_getElem? hr
    -- every row counts none busy, so none is
    have hactive : row.active = 0 := by
      unfold State.inFlight at h
      exact List.sum_eq_zero_iff.mp h _ (List.mem_map_of_mem hrow)
    cases hc : row.keys[c]? with
    | none => simp [hc, Key.waiting]
    | some k =>
      have hc' : c < row.keys.length := (List.getElem?_eq_some_iff.mp hc).1
      simp only [Option.map_some, Option.getD_some, hc]
      rw [← (List.getElem?_eq_some_iff.mp hc).2]
      exact phase_eq_waiting_of_idle (hs row hrow) hactive hc'

theorem invariant_run (hthr : ∀ x, 0 < t.threshold x) {s : State} (hs : s.Invariant L t)
    (cooked : List (BitVec w)) (p : Nat → Pass w) (i : Nat) :
    (runWith (fun s q c => s.step t q.elapsed q.raw c q.numRows) s cooked p i).1.Invariant L t := by
  induction i with
  | zero => exact hs
  | succ i ih => exact invariant_step hthr ih _ _ _ _

/-- Hold one raw sample from any quiescing engine, every pass after the first taking a tick or
more. From pass `quiesce + longest + 2` on every scanned key agrees with raw; from pass
`2 * quiesce + longest + 2` on every scanned key waits and each pass leaves engine and buffer as
they are. From an engine with every key waiting, a scanned key whose raw bit differs from cooked
commits raw at the first pass by which its threshold has passed since the first, and no other
bit changes. -/
theorem held_run (hthr : ∀ x, 0 < t.threshold x) {s : State} (hs : s.Invariant L t)
    (raw cooked : List (BitVec w)) (numRows : Nat) (p : Nat → Pass w)
    (hsample : ∀ i, 0 < i → (p i).raw = raw ∧ (p i).numRows = numRows)
    (hquiet : ∀ i, 1 < i → i ≤ 2 * t.quiesce + t.longest + 2 → 0 < (p i).elapsed) :
    let out := runWith (fun s q c => s.step t q.elapsed q.raw c q.numRows) s cooked p
    let n := rowsToScan numRows s.rows.length raw.length cooked.length
    (∀ i, t.quiesce + t.longest + 2 ≤ i → ∀ r c, r < n → c < L.cols →
      bitAt (out i).2 r c = bitAt raw r c) ∧
    (∀ i, 2 * t.quiesce + t.longest + 2 ≤ i → ∀ r c, r < n → c < L.cols →
      ((out i).1.key r c).phase = .waiting) ∧
    (∀ i, 2 * t.quiesce + t.longest + 2 ≤ i → out (i + 1) = out i) ∧
    (s.inFlight = 0 → ∀ i r c, bitAt (out i).2 r c =
      if r < n ∧ c < L.cols ∧ bitAt raw r c ≠ bitAt cooked r c ∧
        t.threshold (bitAt raw r c) ≤ ticks p 1 i then bitAt raw r c else bitAt cooked r c) := by
  intro out n
  have hshape : ∀ i, (out i).1.WellFormed L ∧ (out i).1.rows.length = s.rows.length ∧
      (out i).2.length = cooked.length := shape_run hs.wellFormed cooked p
  have hfits : ∀ r c i, ((out i).1.key r c).Fits t := fun r c i =>
    (invariant_run hthr hs cooked p i).phases r c
  -- each pass moves a scanned key by the rule and keeps every other key
  have hkey : ∀ r c i, ((out (i + 1)).1.key r c, bitAt (out (i + 1)).2 r c) =
      if r < n ∧ c < L.cols then
        quiesceKey t (p (i + 1)).elapsed (bitAt raw r c) (bitAt (out i).2 r c)
          ((out i).1.key r c)
      else ((out i).1.key r c, bitAt (out i).2 r c) := by
    intro r c i
    obtain ⟨hraw, hrows⟩ := hsample (i + 1) (Nat.succ_pos i)
    have h : ((out (i + 1)).1.key r c, bitAt (out (i + 1)).2 r c) =
        if r < rowsToScan (p (i + 1)).numRows s.rows.length (p (i + 1)).raw.length
            cooked.length ∧ c < L.cols then
          quiesceKey t (p (i + 1)).elapsed (bitAt (p (i + 1)).raw r c) (bitAt (out i).2 r c)
            ((out i).1.key r c)
        else ((out i).1.key r c, bitAt (out i).2 r c) :=
      key_run hs.wellFormed cooked p r c i
    rw [hraw, hrows] at h
    exact h
  have hscanned : ∀ r c, r < n → c < L.cols → ∀ i,
      ((out (i + 1)).1.key r c, bitAt (out (i + 1)).2 r c) =
        quiesceKey t (p (i + 1)).elapsed (bitAt raw r c) (bitAt (out i).2 r c)
          ((out i).1.key r c) := fun r c hr hc i => by
    rw [hkey, if_pos ⟨hr, hc⟩]
  have hsettle : ∀ i, 2 * t.quiesce + t.longest + 2 ≤ i → ∀ r c, r < n → c < L.cols →
      ((out i).1.key r c).phase = .waiting ∧ bitAt (out i).2 r c = bitAt raw r c := by
    intro i hi r c hr hc
    exact @held_settles w t p (fun i => (out i).1.key r c) (fun i => bitAt (out i).2 r c)
      (bitAt raw r c) (hscanned r c hr hc) (hfits r c) hthr hquiet i hi
  refine ⟨fun i hi r c hr hc => ?_, fun i hi r c hr hc => (hsettle i hi r c hr hc).1,
    fun i hi => ?_, fun hidle i r c => ?_⟩
  · exact @held_agrees w t p (fun i => (out i).1.key r c) (fun i => bitAt (out i).2 r c)
      (bitAt raw r c) (hscanned r c hr hc) (hfits r c) hthr
      (fun j h₁ h₂ => hquiet j h₁ (by omega)) i hi
  · -- a settled engine is a fixed point of the held pass
    obtain ⟨hraw, hrows⟩ := hsample (i + 1) (Nat.succ_pos i)
    obtain ⟨hwf, hlen, hclen⟩ := hshape i
    show (out i).1.step t (p (i + 1)).elapsed (p (i + 1)).raw (out i).2 (p (i + 1)).numRows =
      out i
    rw [hraw, hrows, step_settled hwf]
    rw [hlen, hclen]
    exact hsettle i hi
  · by_cases hin : r < n ∧ c < L.cols
    · have h := @held_commits_once w t p (fun i => (out i).1.key r c)
        (fun i => bitAt (out i).2 r c) (bitAt raw r c) (hscanned r c hin.1 hin.2) hthr hquiet
        (waiting_of_inFlight hs.wellFormed hidle r c) i
      rw [h]
      simp only [hin, true_and]
      rfl
    · -- an unscanned key keeps its cooked bit
      have hkeep : ∀ i, bitAt (out i).2 r c = bitAt cooked r c := by
        intro i
        induction i with
        | zero => rfl
        | succ i ih =>
          rw [← ih]
          exact (Prod.mk.inj ((hkey r c i).trans (if_neg hin))).2
      rw [hkeep, if_neg fun h => hin ⟨h.1, h.2.1⟩]

end KeyDebounce.Quiesce
