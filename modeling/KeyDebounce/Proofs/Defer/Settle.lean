import KeyDebounce.Proofs.Invariant
import KeyDebounce.Proofs.Countdown

/-!
# A held sample settles the deferring engine

Hold one raw sample: the first pass reports a change and every later one, up to pass
`longest + 1`, reports none and takes a tick or more. After the first pass a scanned key is idle
only with its cooked bit equal to raw, and its countdown is within the longer threshold; each
later pass runs the countdown down by a tick or more and commits raw when it runs out. So after
`longest + 1` passes every scanned key is idle with cooked equal to raw, and a pass over the held
sample changes nothing from then on. From an engine with no key in flight a key whose raw bit
differs from cooked is armed by the first pass and commits raw at the first pass by which its
threshold has passed since.
-/

set_option autoImplicit false

namespace KeyDebounce.Defer

open Row Pass

variable {w : Nat} {L : Layout} {t : Timing}

/-! ## The rule under a held sample -/

theorem deferKey_first (hthr : ∀ x, 0 < t.threshold x) (e : Nat) (x b : Bool) {n : Nat}
    (hn : n ≤ t.longest) :
    (deferKey t e true x b n).1 ≤ t.longest ∧
      ((deferKey t e true x b n).1 = 0 → (deferKey t e true x b n).2 = x) := by
  unfold deferKey
  by_cases hx : x = b
  · -- no edge: the countdown runs on over a cooked bit that already agrees
    subst hx
    simp only [bne_self_eq_false, Bool.and_false, Bool.false_eq_true, if_false]
    split
    · exact ⟨le_trans (Nat.sub_le n e) hn, fun _ => rfl⟩
    · split <;> exact ⟨by omega, fun _ => rfl⟩
  · rw [if_pos (by simpa using hx)]
    exact ⟨t.threshold_le_longest x, fun h => absurd h (hthr x).ne'⟩

theorem deferKey_quiet {e : Nat} (he : 0 < e) (x b : Bool) {n : Nat} (hset : n = 0 → b = x) :
    (deferKey t e false x b n).1 ≤ n - 1 ∧
      ((deferKey t e false x b n).1 = 0 → (deferKey t e false x b n).2 = x) := by
  unfold deferKey
  simp only [Bool.false_and, Bool.false_eq_true, if_false]
  split
  · exact ⟨by omega, fun h => by omega⟩
  · split
    · exact ⟨Nat.zero_le _, fun _ => rfl⟩
    · exact ⟨by omega, fun _ => hset (by omega)⟩

@[simp]
theorem deferKey_rest (e : Nat) (changed x : Bool) : deferKey t e changed x x 0 = (0, x) := by
  simp [deferKey]

theorem deferKey_arm (e : Nat) {x b : Bool} (hx : x ≠ b) :
    deferKey t e true x b 0 = (t.threshold x, b) := by
  simp [deferKey, hx]

theorem deferKey_count (x b : Bool) {e n : Nat} (he : e < n) :
    deferKey t e false x b n = (n - e, b) := by
  simp [deferKey, he]

theorem deferKey_expire (x b : Bool) {e n : Nat} (hn : 0 < n) (he : n ≤ e) :
    deferKey t e false x b n = (0, x) := by
  simp [deferKey, hn, Nat.not_lt.mpr he]

/-! ## One key along a held sample -/

section Held

variable {p : Nat → Pass w} {cnt : Nat → Nat} {ck : Nat → Bool} {x : Bool}
  (hstep : ∀ i, (cnt (i + 1), ck (i + 1)) =
    deferKey t (p (i + 1)).elapsed (p (i + 1)).changed x (ck i) (cnt i))
include hstep

theorem held_settles (hthr : ∀ x, 0 < t.threshold x) (hfirst : (p 1).changed = true)
    (hquiet : ∀ i, 1 < i → i ≤ t.longest + 1 →
      (p i).changed = false ∧ 0 < (p i).elapsed)
    (h₀ : cnt 0 ≤ t.longest) : ∀ i, t.longest + 1 ≤ i → cnt i = 0 ∧ ck i = x := by
  -- every key is scanned, so each one that is idle agrees with raw
  have h := @countdown_settles w p (fun e changed b n => deferKey t e changed x b n) cnt ck x
    true hstep (fun e changed _ hb => hb rfl ▸ deferKey_rest e changed x) t.longest
    (fun e b _ hn => (deferKey_first hthr e x b hn).imp_right fun h _ => h)
    (fun _ b _ he _ hset => (deferKey_quiet he x b (hset rfl)).imp_right fun h _ => h)
    hfirst hquiet h₀
  exact fun i hi => (h i hi).imp_right fun h => h rfl

theorem held_commits_once (hthr : ∀ x, 0 < t.threshold x) (hfirst : (p 1).changed = true)
    (hquiet : ∀ i, 1 < i → i ≤ t.longest + 1 →
      (p i).changed = false ∧ 0 < (p i).elapsed)
    (h₀ : cnt 0 = 0) :
    ∀ i, ck i = if x ≠ ck 0 ∧ t.threshold x ≤ ticks p 1 i then x else ck 0 := by
  -- the counting states are the countdowns themselves, an idle key the committed one
  have hT := t.threshold_le_longest x
  refine @countdown_commits_once w p Nat
    (fun i b n => deferKey t (p i).elapsed (p i).changed x b n) cnt ck x hstep (fun n => n)
    (· = 0) (t.threshold x) (t.longest + 1) (hthr x) (by omega)
    (fun i h₁ h₂ => (hquiet i h₁ h₂).2) (fun _ _ => ?_) (fun hx => ?_)
    (fun _ i _ h₁ h₂ he _ => ?_) (fun _ i _ h₁ h₂ hn he => ?_) (fun _ _ hn => ?_)
  · rw [h₀, deferKey_rest]
  · rw [hfirst, h₀, deferKey_arm _ hx]
  · rw [(hquiet i h₁ h₂).1, deferKey_count x (ck 0) he]
  · rw [(hquiet i h₁ h₂).1, deferKey_expire x (ck 0) hn he]
    exact ⟨rfl, rfl⟩
  · rw [hn, deferKey_rest]
    exact ⟨rfl, rfl⟩

end Held

/-! ## The engine under a held sample -/

theorem step_settled {s : State} (hs : s.WellFormed L) (e : Nat) (raw cooked : List (BitVec w))
    (numRows : Nat) (changed : Bool)
    (h : ∀ r c, r < rowsToScan numRows s.rows.length raw.length cooked.length → c < L.cols →
      s.counter r c = 0 ∧ bitAt cooked r c = bitAt raw r c) :
    s.step t e raw cooked numRows changed = (s, cooked) := by
  rw [step_eq]
  dsimp only
  rw [scanWith_eq_self]
  intro r hrows hraw hcooked hr
  have hrow := hs _ (List.getElem_mem hrows)
  unfold rowStep
  split
  · rfl
  · rw [keysStep_eq, keysWith_eq_self]
    intro j hj
    -- an idle key over agreeing bits is left alone
    have hjc : j < L.cols := hrow.1 ▸ hj
    obtain ⟨hzero, hbit⟩ := h r j hr hjc
    have hcnt : s.rows[r].counters[j] = 0 := by
      simpa [State.counter, List.getElem?_eq_getElem hrows, List.getElem?_eq_getElem hj]
        using hzero
    have hedge : bit (raw[r] ^^^ cooked[r]) j = false := bit_xor_of_bitAt hraw hcooked hbit
    simp [keyStep, hcnt, hedge]

theorem counter_eq_zero_of_inFlight {s : State} (hs : s.WellFormed L) (h : s.inFlight = 0)
    (r c : Nat) : s.counter r c = 0 := by
  unfold State.counter
  cases hr : s.rows[r]? with
  | none => rfl
  | some row =>
    have hrow := List.mem_of_getElem? hr
    -- every row counts none running, so none is
    have hactive : row.active = 0 := by
      unfold State.inFlight at h
      exact List.sum_eq_zero_iff.mp h _ (List.mem_map_of_mem hrow)
    cases hc : row.counters[c]? with
    | none => simp [hc]
    | some n =>
      have hc' : c < row.counters.length := (List.getElem?_eq_some_iff.mp hc).1
      simp only [Option.map_some, Option.getD_some, hc]
      rw [← (List.getElem?_eq_some_iff.mp hc).2]
      exact counter_eq_zero_of_idle (hs row hrow) hactive hc'

/-- Hold one raw sample from any reachable state: the first pass reports a change, every pass up
to `longest + 1` after it none and a tick or more. From pass `longest + 1` on every scanned key
is idle with cooked equal to raw, and each pass leaves engine and buffer as they are. From an
engine with no key in flight, a scanned key whose raw bit differs from cooked commits raw at the
first pass by which its threshold has passed since the first, and no other bit changes. -/
theorem held_run (hthr : ∀ x, 0 < t.threshold x) {s : State} (hs : s.Invariant L t)
    (raw cooked : List (BitVec w)) (numRows : Nat) (p : Nat → Pass w)
    (hsample : ∀ i, 0 < i → (p i).raw = raw ∧ (p i).numRows = numRows)
    (hfirst : (p 1).changed = true)
    (hquiet : ∀ i, 1 < i → i ≤ t.longest + 1 →
      (p i).changed = false ∧ 0 < (p i).elapsed) :
    let out := runWith (fun s q c => s.step t q.elapsed q.raw c q.numRows q.changed) s cooked p
    let n := rowsToScan numRows s.rows.length raw.length cooked.length
    (∀ i, t.longest + 1 ≤ i → ∀ r c, r < n → c < L.cols →
      (out i).1.counter r c = 0 ∧ bitAt (out i).2 r c = bitAt raw r c) ∧
    (∀ i, t.longest + 1 ≤ i → out (i + 1) = out i) ∧
    (s.inFlight = 0 → ∀ i r c, bitAt (out i).2 r c =
      if r < n ∧ c < L.cols ∧ bitAt raw r c ≠ bitAt cooked r c ∧
        t.threshold (bitAt raw r c) ≤ ticks p 1 i then bitAt raw r c else bitAt cooked r c) := by
  intro out n
  have hshape : ∀ i, (out i).1.WellFormed L ∧ (out i).1.rows.length = s.rows.length ∧
      (out i).2.length = cooked.length := wellFormed_run cooked p hthr hs.wellFormed
  -- each pass moves a scanned key by the rule and keeps every other key
  have hkey : ∀ r c i, ((out (i + 1)).1.counter r c, bitAt (out (i + 1)).2 r c) =
      if r < n ∧ c < L.cols then
        deferKey t (p (i + 1)).elapsed (p (i + 1)).changed (bitAt raw r c)
          (bitAt (out i).2 r c) ((out i).1.counter r c)
      else ((out i).1.counter r c, bitAt (out i).2 r c) := by
    intro r c i
    obtain ⟨hraw, hrows⟩ := hsample (i + 1) (Nat.succ_pos i)
    have h : ((out (i + 1)).1.counter r c, bitAt (out (i + 1)).2 r c) =
        if r < rowsToScan (p (i + 1)).numRows s.rows.length (p (i + 1)).raw.length
            cooked.length ∧ c < L.cols then
          deferKey t (p (i + 1)).elapsed (p (i + 1)).changed (bitAt (p (i + 1)).raw r c)
            (bitAt (out i).2 r c) ((out i).1.counter r c)
        else ((out i).1.counter r c, bitAt (out i).2 r c) :=
      key_run cooked p r c hthr hs.wellFormed i
    rw [hraw, hrows] at h
    exact h
  -- a scanned key, read as sequences, moves by the rule at every pass
  have hscanned : ∀ r c, r < n → c < L.cols → ∀ i,
      ((out (i + 1)).1.counter r c, bitAt (out (i + 1)).2 r c) =
        deferKey t (p (i + 1)).elapsed (p (i + 1)).changed (bitAt raw r c)
          (bitAt (out i).2 r c) ((out i).1.counter r c) := fun r c hr hc i => by
    rw [hkey, if_pos ⟨hr, hc⟩]
  have hsettle : ∀ i, t.longest + 1 ≤ i → ∀ r c, r < n → c < L.cols →
      (out i).1.counter r c = 0 ∧ bitAt (out i).2 r c = bitAt raw r c := by
    intro i hi r c hr hc
    exact @held_settles w t p (fun i => (out i).1.counter r c) (fun i => bitAt (out i).2 r c)
      (bitAt raw r c) (hscanned r c hr hc) hthr hfirst hquiet (hs.bounded r c) i hi
  refine ⟨hsettle, fun i hi => ?_, fun hidle i r c => ?_⟩
  · -- a settled engine is a fixed point of the held pass
    obtain ⟨hraw, hrows⟩ := hsample (i + 1) (Nat.succ_pos i)
    obtain ⟨hwf, hlen, hclen⟩ := hshape i
    show (out i).1.step t (p (i + 1)).elapsed (p (i + 1)).raw (out i).2 (p (i + 1)).numRows
      (p (i + 1)).changed = out i
    rw [hraw, hrows, step_settled hwf]
    rw [hlen, hclen]
    intro r c hr hc
    obtain ⟨h₁, h₂⟩ := hsettle i hi r c hr hc
    exact ⟨h₁, h₂⟩
  · by_cases hin : r < n ∧ c < L.cols
    · have h := @held_commits_once w t p (fun i => (out i).1.counter r c)
        (fun i => bitAt (out i).2 r c) (bitAt raw r c) (hscanned r c hin.1 hin.2) hthr hfirst
        hquiet (counter_eq_zero_of_inFlight hs.wellFormed hidle r c) i
      rw [h]
      simp only [hin, true_and]
      rfl
    · -- an unscanned key keeps its cooked bit
      have hkeep : ∀ i, bitAt (out i).2 r c = bitAt cooked r c := by
        intro i
        induction i with
        | zero => rfl
        | succ i ih =>
          rw [← ih]
          exact (Prod.mk.inj ((hkey r c i).trans (if_neg hin))).2
      rw [hkeep, if_neg fun h => hin ⟨h.1, h.2.1⟩]

end KeyDebounce.Defer
