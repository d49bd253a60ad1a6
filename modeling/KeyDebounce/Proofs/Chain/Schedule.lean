import KeyDebounce.Proofs.View

/-!
# When a chained key commits

One key of the chained engine along a run: its countdown `rem i` and cooked bit `ck i` after
pass `i`, the raw bit `raw i` that pass `i` sees, whether pass `i` scans the key's row (`sc i`)
and whether both buffers hold it (`pr i`), each pass moving the key by the dense rule. A key
armed at pass `a` counts the threshold of its raw bit down by the ticks of every later pass but
those that extend it: a pass that reports a change and scans a raw bit other than the cooked one
gives its ticks back in full, since the countdown never comes near the cap. The key holds its
cooked bit until the first pass whose ticks, with those counted so far, reach the threshold; that
pass takes it off the chain and commits the raw bit it sees.
-/

set_option autoImplicit false

namespace KeyDebounce.Chain

open Row Pass

variable {w : Nat}

def countedTicks (p : Nat → Pass w) (ext : Nat → Bool) (k m : Nat) : Nat :=
  ∑ i ∈ (Finset.Ioc k m).filter (fun i => ext i = false), (p i).elapsed

section Counted

variable (p : Nat → Pass w) (ext : Nat → Bool)

theorem countedTicks_self (k : Nat) : countedTicks p ext k k = 0 := by
  simp [countedTicks]

theorem countedTicks_succ {k m : Nat} (h : k ≤ m) :
    countedTicks p ext k (m + 1) =
      countedTicks p ext k m + if ext (m + 1) then 0 else (p (m + 1)).elapsed := by
  unfold countedTicks
  rw [Finset.sum_filter, Finset.sum_filter, Finset.sum_Ioc_succ_top h]
  cases ext (m + 1) <;> rfl

theorem countedTicks_eq_ticks {k m : Nat} (h : ∀ i, k < i → i ≤ m → ext i = false) :
    countedTicks p ext k m = ticks p k m := by
  unfold countedTicks ticks
  rw [Finset.filter_true_of_mem fun i hi => h i (Finset.mem_Ioc.mp hi).1 (Finset.mem_Ioc.mp hi).2]

end Counted

variable {t : Timing} {p : Nat → Pass w} {rem : Nat → Nat} {ck raw sc pr ext : Nat → Bool}

/-- After pass `i` the key counts down the threshold of `x` armed at pass `a`: a running countdown
that with the ticks counted since makes up the threshold, and the cooked bit from before `a`. -/
def Counting (p : Nat → Pass w) (t : Timing) (ext : Nat → Bool) (rem : Nat → Nat)
    (ck : Nat → Bool) (x : Bool) (a i : Nat) : Prop :=
  0 < rem i ∧ rem i + countedTicks p ext a i = t.threshold x ∧ ck i = ck (a - 1)

section Schedule

variable (hstep : ∀ i, (rem (i + 1), ck (i + 1)) =
    denseKey t (p (i + 1)).elapsed (p (i + 1)).changed (sc (i + 1)) (pr (i + 1)) (raw (i + 1))
      (ck i) (rem i))
include hstep

theorem counting_arm (hthr : ∀ x, 0 < t.threshold x) {a : Nat} (ha : 0 < a)
    (hidle : rem (a - 1) = 0) (hsc : sc a = true) (hx : raw a ≠ ck (a - 1)) :
    Counting p t ext rem ck (raw a) a a := by
  have hs := hstep (a - 1)
  rw [Nat.sub_add_cancel ha, hidle, hsc, denseKey_arm t _ _ _ hx] at hs
  obtain ⟨hrem, hck⟩ := Prod.mk.inj hs
  refine ⟨hrem ▸ hthr _, ?_, hck⟩
  rw [hrem, countedTicks_self, Nat.add_zero]

theorem Counting.step (hext : ∀ i, ext i = ((p i).changed && sc i && raw i != ck (i - 1)))
    (hbyte : ∀ x, t.threshold x ≤ countdownCap) {x : Bool} {a i : Nat}
    (h : Counting p t ext rem ck x a i) (hai : a ≤ i)
    (hlive : (p (i + 1)).elapsed + countedTicks p ext a i < t.threshold x) :
    Counting p t ext rem ck x a (i + 1) ∧
      rem (i + 1) = if ext (i + 1) then rem i else rem i - (p (i + 1)).elapsed := by
  obtain ⟨hpos, hsum, hck⟩ := h
  have he : (p (i + 1)).elapsed < rem i := by omega
  have hs := hstep i
  rw [denseKey_count t _ _ _ _ _ he (le_trans (by omega) (hbyte x))] at hs
  obtain ⟨hrem, hck'⟩ := Prod.mk.inj hs
  have hext' : ext (i + 1) = ((p (i + 1)).changed && sc (i + 1) && raw (i + 1) != ck i) :=
    hext (i + 1)
  rw [← hext'] at hrem
  refine ⟨⟨?_, ?_, hck'.trans hck⟩, hrem⟩
  · rw [hrem]
    split <;> omega
  · rw [hrem, countedTicks_succ p ext hai]
    cases ext (i + 1)
    · -- a pass that does not extend counts the ticks it takes off
      simp only [Bool.false_eq_true, if_false]
      omega
    · simpa using hsum

theorem Counting.expire (hsp : ∀ i, sc i = true → pr i = true) {x : Bool} {a i : Nat}
    (h : Counting p t ext rem ck x a i)
    (hdone : t.threshold x ≤ (p (i + 1)).elapsed + countedTicks p ext a i) :
    rem (i + 1) = 0 ∧ ck (i + 1) = if pr (i + 1) then raw (i + 1) else ck i := by
  obtain ⟨hpos, hsum, -⟩ := h
  have hs := hstep i
  rw [denseKey_expire t _ _ _ _ _ _ hpos (by omega) (hsp (i + 1))] at hs
  obtain ⟨hrem, hck⟩ := Prod.mk.inj hs
  exact ⟨hrem, hck⟩

/-- From its arming at `a` the key counts down through every pass that does not use up the
countdown. -/
theorem counting_window (hext : ∀ i, ext i = ((p i).changed && sc i && raw i != ck (i - 1)))
    (hthr : ∀ x, 0 < t.threshold x) (hbyte : ∀ x, t.threshold x ≤ countdownCap) {a : Nat}
    (ha : 0 < a) (hidle : rem (a - 1) = 0) (hsc : sc a = true) (hx : raw a ≠ ck (a - 1))
    (k : Nat) (hak : a ≤ k)
    (hlive : ∀ j, a ≤ j → j < k →
      (p (j + 1)).elapsed + countedTicks p ext a j < t.threshold (raw a)) :
    Counting p t ext rem ck (raw a) a k := by
  induction k, hak using Nat.le_induction with
  | base => exact counting_arm hstep hthr ha hidle hsc hx
  | succ k hak ih =>
    have h := ih fun j h₁ h₂ => hlive j h₁ (by omega)
    exact (h.step hstep hext hbyte hak (hlive k hak (Nat.lt_succ_self k))).1

end Schedule

variable {L : Layout}

/-- A key of the chained engine that is idle at the start of pass `a`, in a row that pass scans,
with a raw bit `x` other than its cooked one, is armed with the threshold of `x`. Up to the first
pass `k + 1` whose ticks with those counted since `a` reach that threshold it stays on the chain
with its cooked bit held and its countdown making up the threshold with the counted ticks: a pass
that extends it leaves the countdown as it was, any other runs it down by its ticks. Pass `k + 1`
takes it off the chain and commits the raw bit of that pass where both buffers hold the row.
When no pass after `a` reports a change, the counted ticks are all the ticks since `a`. -/
theorem extended_countdown_schedule (hcap : L.capacity * L.cols < null) (hdown : 0 < t.down)
    (hup : 0 < t.up) (hbyte : t.longest ≤ countdownCap) (s : State) (n : Nat)
    (cooked : List (BitVec w)) (p : Nat → Pass w) {r c a : Nat} (hc : c < L.cols)
    (ha : 0 < a) :
    let run := ((Engine.chain s).init L n).2.run L t cooked p
    let bit := fun i => bitAt (run i).2 r c
    let scanned := fun i => decide (r < rowsToScan (p i).numRows (run (i - 1)).1.rowCount
      (p i).raw.length (run (i - 1)).2.length)
    let ext := fun i => (p i).changed && scanned i && bitAt (p i).raw r c != bit (i - 1)
    let x := bitAt (p a).raw r c
    let live := fun k => ∀ j, a ≤ j → j < k →
      (p (j + 1)).elapsed + countedTicks p ext a j < t.threshold x
    (run (a - 1)).1.keyInFlight L r c = false → scanned a = true → x ≠ bit (a - 1) →
      (∀ k, a ≤ k → live k →
        (run k).1.keyInFlight L r c = true ∧ bit k = bit (a - 1) ∧
        (run k).1.countdown L r c + countedTicks p ext a k = t.threshold x) ∧
      (∀ k, a ≤ k → live (k + 1) →
        (run (k + 1)).1.countdown L r c =
          if ext (k + 1) then (run k).1.countdown L r c
          else (run k).1.countdown L r c - (p (k + 1)).elapsed) ∧
      (∀ k, a ≤ k → live k →
        t.threshold x ≤ (p (k + 1)).elapsed + countedTicks p ext a k →
        (run (k + 1)).1.keyInFlight L r c = false ∧
        bit (k + 1) = if r < (p (k + 1)).raw.length ∧ r < (run k).2.length
          then bitAt (p (k + 1)).raw r c else bit k) ∧
      ((∀ i, a < i → (p i).changed = false) →
        ∀ k, countedTicks p ext a k = ticks p a k) := by
  intro run bit scanned ext x live hidle hsc hx
  have hthr : ∀ x, 0 < t.threshold x := Timing.threshold_pos hdown hup
  have hbyte' : ∀ x, t.threshold x ≤ countdownCap := fun x =>
    le_trans (t.threshold_le_longest x) hbyte
  obtain ⟨s₀, hg, hwf, -⟩ := init_idle s L t n
  let out := runWith (fun s q c => s.step L t q.elapsed q.raw c q.numRows q.changed) s₀ cooked p
  have hrun : ∀ i, run i = (.chain (out i).1, (out i).2) := fun i => by
    simp only [run, hg, Engine.run_chain, out]
  have hshape : ∀ i, (out i).1.WellFormed L t ∧ (out i).1.nodes.length = s₀.nodes.length ∧
      (out i).2.length = cooked.length := shape_run hcap hthr hwf cooked p
  -- the key, its cooked bit and its raw bit along the run, and what each pass tells the rule
  let rem := fun i => (out i).1.remainingAt L (r * L.cols + c)
  let ck := fun i => bitAt (out i).2 r c
  let raw := fun i => bitAt (p i).raw r c
  let sc := fun i =>
    decide (r < rowsToScan (p i).numRows s₀.nodes.length (p i).raw.length cooked.length)
  let pr := fun i => decide (r < (p i).raw.length ∧ r < cooked.length)
  have hscan : ∀ i, scanned i = sc i := fun i => by
    simp only [scanned, sc, hrun, Engine.rowCount, (hshape (i - 1)).2.1, (hshape (i - 1)).2.2]
  have hbit : ∀ i, bit i = ck i := fun i => by simp only [bit, ck, hrun]
  have hext : ∀ i, ext i = ((p i).changed && sc i && raw i != ck (i - 1)) := fun i => by
    simp only [ext, hscan, hbit, raw]
  have hflight : ∀ i, (run i).1.keyInFlight L r c = decide (0 < rem i) := fun i => by
    simp only [hrun, Engine.keyInFlight, mem_pending_iff (hshape i).1, hc, true_and, rem]
  have hcount : ∀ i, (run i).1.countdown L r c = rem i := fun i => by
    simp only [hrun, Engine.countdown, if_pos hc, rem]
  -- pass `a` scans the key's row, so the row exists and both buffers hold every scanned row
  have hr : r < s₀.nodes.length := by
    have h := of_decide_eq_true ((hscan a).symm.trans hsc)
    exact Nat.lt_of_lt_of_le h (rowsToScan_le_allocated _ _ _ _)
  have hsp : ∀ i, sc i = true → pr i = true := fun i h => by
    have h' := of_decide_eq_true h
    exact decide_eq_true ⟨Nat.lt_of_lt_of_le h' (rowsToScan_le_raw _ _ _ _),
      Nat.lt_of_lt_of_le h' (rowsToScan_le_cooked _ _ _ _)⟩
  have hstep : ∀ i, (rem (i + 1), ck (i + 1)) =
      denseKey t (p (i + 1)).elapsed (p (i + 1)).changed (sc (i + 1)) (pr (i + 1)) (raw (i + 1))
        (ck i) (rem i) := key_run hcap hthr hwf cooked p hr hc
  have hidle' : rem (a - 1) = 0 := by
    rw [hflight] at hidle
    simpa using hidle
  have hsc' : sc a = true := (hscan a).symm.trans hsc
  have hx' : raw a ≠ ck (a - 1) := by
    rw [← hbit]
    exact hx
  have hwin := @counting_window w t p rem ck raw sc pr ext hstep hext hthr hbyte' a ha hidle'
    hsc' hx'
  refine ⟨fun k hak hk => ?_, fun k hak hk => ?_, fun k hak hk hdone => ?_,
    fun hquiet k => countedTicks_eq_ticks p ext fun i hai _ => ?_⟩
  · -- the key counts down, so it is on the chain with its cooked bit held
    obtain ⟨hpos, hsum, hck⟩ := hwin k hak hk
    rw [hflight, hbit, hbit, hcount]
    exact ⟨decide_eq_true hpos, hck, hsum⟩
  · have h := hwin k hak fun j h₁ h₂ => hk j h₁ (by omega)
    obtain ⟨-, hrem⟩ := h.step hstep hext hbyte' hak (hk k hak (Nat.lt_succ_self k))
    rw [hcount, hcount]
    exact hrem
  · obtain ⟨hrem, hck⟩ := (hwin k hak hk).expire hstep hsp hdone
    rw [hflight, hbit, hbit, hrem, hck, hrun k]
    simp [pr, raw, (hshape k).2.2]
  · -- no pass after `a` reports a change, so none extends the countdown
    simp [ext, hquiet i hai]

/-- A key of a one-row engine of four columns, pressed in every sample, with a pass every tick
that reports no change. -/
theorem pressed_key_extended_countdown :
    let L : Layout := ⟨1, 4⟩
    let t : Timing := ⟨2, 3, 0⟩
    let p : Nat → Pass 8 := fun _ => ⟨1, [0b0001#8], 1, false⟩
    let run := ((Engine.chain State.empty).init L 1).2.run L t [0#8] p
    let bit := fun i => bitAt (run i).2 0 0
    let scanned := fun i => decide (0 < rowsToScan (p i).numRows (run (i - 1)).1.rowCount
      (p i).raw.length (run (i - 1)).2.length)
    let ext := fun i => (p i).changed && scanned i && bitAt (p i).raw 0 0 != bit (i - 1)
    let x := bitAt (p 1).raw 0 0
    let live := fun k => ∀ j, 1 ≤ j → j < k →
      (p (j + 1)).elapsed + countedTicks p ext 1 j < t.threshold x
    (L.capacity * L.cols < null ∧ 0 < t.down ∧ 0 < t.up ∧ t.longest ≤ countdownCap ∧
      0 < L.cols ∧ (run 0).1.keyInFlight L 0 0 = false ∧ scanned 1 = true ∧ x ≠ bit 0) ∧
      (∀ k, 1 ≤ k → live k →
        (run k).1.keyInFlight L 0 0 = true ∧ bit k = bit 0 ∧
        (run k).1.countdown L 0 0 + countedTicks p ext 1 k = t.threshold x) ∧
      (∀ k, 1 ≤ k → live (k + 1) →
        (run (k + 1)).1.countdown L 0 0 =
          if ext (k + 1) then (run k).1.countdown L 0 0
          else (run k).1.countdown L 0 0 - (p (k + 1)).elapsed) ∧
      (∀ k, 1 ≤ k → live k →
        t.threshold x ≤ (p (k + 1)).elapsed + countedTicks p ext 1 k →
        (run (k + 1)).1.keyInFlight L 0 0 = false ∧
        bit (k + 1) = if 0 < (p (k + 1)).raw.length ∧ 0 < (run k).2.length
          then bitAt (p (k + 1)).raw 0 0 else bit k) ∧
      ((∀ i, 1 < i → (p i).changed = false) →
        ∀ k, countedTicks p ext 1 k = ticks p 1 k) :=
  have h := @extended_countdown_schedule 8 ⟨2, 3, 0⟩ ⟨1, 4⟩ (by decide) (by decide)
    (by decide) (by decide) State.empty 1 [0#8] (fun _ => ⟨1, [0b0001#8], 1, false⟩) 0 0 1
    (by decide) Nat.one_pos
  ⟨⟨by decide, by decide, by decide, by decide, by decide, by decide, by decide, by decide⟩,
    h (by decide) (by decide) (by decide)⟩

end KeyDebounce.Chain
