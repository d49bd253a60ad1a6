import KeyDebounce.Proofs.View
import KeyDebounce.Proofs.Countdown

/-!
# A held sample settles the chained engine

Hold one raw sample as for the deferring engine. The chain walks every key in flight, scanned or
not, so each pass of a tick or more runs every countdown down, and one that runs out commits raw
where both buffers hold its row. After the first pass a scanned key is idle only with cooked equal
to raw; later passes report no change, so they extend nothing and arm nothing new. After
`longest + 1` passes the chain is empty and every scanned key agrees with raw, and a pass over the
held sample then changes nothing. From an empty chain a scanned key whose raw bit differs from
cooked commits raw at the first pass by which its threshold has passed since the first.
-/

set_option autoImplicit false

namespace KeyDebounce.Chain

open Row Pass

variable {w : Nat} {L : Layout} {t : Timing}

/-! ## The rule under a held sample -/

theorem denseKey_first (hthr : ∀ x, 0 < t.threshold x) (hbyte : t.longest ≤ countdownCap)
    (e : Nat) (scanned present x b : Bool) {n : Nat} (hn : n ≤ t.longest)
    (hsp : scanned = true → present = true) :
    (denseKey t e true scanned present x b n).1 ≤ t.longest ∧
      (scanned = true → (denseKey t e true scanned present x b n).1 = 0 →
        (denseKey t e true scanned present x b n).2 = x) := by
  cases scanned with
  | false =>
    -- an unscanned key only runs down
    refine ⟨?_, fun h => absurd h Bool.false_ne_true⟩
    rw [denseKey_fst]
    simp only [Bool.false_and, Bool.false_eq_true, if_false]
    exact le_trans (Nat.sub_le n e) hn
  | true =>
    rcases Nat.eq_zero_or_pos n with rfl | hpos
    · by_cases hx : x = b
      · rw [denseKey_rest t e true true present x b fun _ => hx]
        exact ⟨Nat.zero_le _, fun _ _ => hx.symm⟩
      · rw [denseKey_arm t e true present hx]
        exact ⟨t.threshold_le_longest x, fun _ h => absurd h (hthr x).ne'⟩
    · rcases Nat.lt_or_ge e n with he | he
      · -- a running countdown is extended or runs down, and stays positive
        rw [denseKey_count t true true present x b he (le_trans hn hbyte)]
        constructor
        · split <;> omega
        · intro _ h
          split at h <;> omega
      · rw [denseKey_expire t e true true present x b hpos he hsp, hsp rfl]
        exact ⟨Nat.zero_le _, fun _ _ => rfl⟩

theorem denseKey_quiet {e : Nat} (he : 0 < e) (scanned present x b : Bool) {n : Nat}
    (hn : n ≤ countdownCap) (hsp : scanned = true → present = true)
    (hset : scanned = true → n = 0 → b = x) :
    (denseKey t e false scanned present x b n).1 ≤ n - 1 ∧
      (scanned = true → (denseKey t e false scanned present x b n).1 = 0 →
        (denseKey t e false scanned present x b n).2 = x) := by
  cases scanned with
  | false =>
    refine ⟨?_, fun h => absurd h Bool.false_ne_true⟩
    rw [denseKey_fst]
    simp only [Bool.false_and, Bool.false_eq_true, if_false]
    omega
  | true =>
    rcases Nat.eq_zero_or_pos n with rfl | hpos
    · rw [denseKey_rest t e false true present x b fun _ => (hset rfl rfl).symm]
      exact ⟨Nat.zero_le _, fun _ _ => hset rfl rfl⟩
    · rcases Nat.lt_or_ge e n with hlt | hge
      · rw [denseKey_count t false true present x b hlt hn]
        simp only [Bool.false_and, Bool.false_eq_true, if_false]
        exact ⟨by omega, fun _ h => by omega⟩
      · rw [denseKey_expire t e false true present x b hpos hge hsp, hsp rfl]
        exact ⟨Nat.zero_le _, fun _ _ => rfl⟩

/-! ## One key along a held sample -/

section Held

variable {p : Nat → Pass w} {rem : Nat → Nat} {ck : Nat → Bool} {sc pr x : Bool}
  (hstep : ∀ i, (rem (i + 1), ck (i + 1)) =
    denseKey t (p (i + 1)).elapsed (p (i + 1)).changed sc pr x (ck i) (rem i))
include hstep

theorem held_settles (hthr : ∀ x, 0 < t.threshold x) (hbyte : t.longest ≤ countdownCap)
    (hsp : sc = true → pr = true) (hfirst : (p 1).changed = true)
    (hquiet : ∀ i, 1 < i → i ≤ t.longest + 1 →
      (p i).changed = false ∧ 0 < (p i).elapsed)
    (h₀ : rem 0 ≤ t.longest) :
    ∀ i, t.longest + 1 ≤ i → rem i = 0 ∧ (sc = true → ck i = x) :=
  @countdown_settles w p (fun e changed b n => denseKey t e changed sc pr x b n) rem ck x sc
    hstep (fun e changed b => denseKey_rest t e changed sc pr x b) t.longest
    (fun e b _ hn => denseKey_first hthr hbyte e sc pr x b hn hsp)
    (fun _ b _ he hn hset => denseKey_quiet he sc pr x b (le_trans hn hbyte) hsp hset)
    hfirst hquiet h₀

theorem held_commits_once (hthr : ∀ x, 0 < t.threshold x) (hbyte : t.longest ≤ countdownCap)
    (hsc : sc = true) (hsp : sc = true → pr = true) (hfirst : (p 1).changed = true)
    (hquiet : ∀ i, 1 < i → i ≤ t.longest + 1 →
      (p i).changed = false ∧ 0 < (p i).elapsed)
    (h₀ : rem 0 = 0) :
    ∀ i, ck i = if x ≠ ck 0 ∧ t.threshold x ≤ ticks p 1 i then x else ck 0 := by
  -- a scanned key's row is in both buffers, so an expiring countdown commits raw
  subst hsc
  have hpr := hsp rfl
  subst hpr
  have hT := t.threshold_le_longest x
  refine @countdown_commits_once w p Nat
    (fun i b n => denseKey t (p i).elapsed (p i).changed true true x b n) rem ck x hstep
    (fun n => n) (· = 0) (t.threshold x) (t.longest + 1) (hthr x) (by omega)
    (fun i h₁ h₂ => (hquiet i h₁ h₂).2) (fun _ _ => ?_) (fun hx => ?_)
    (fun _ i _ h₁ h₂ he hn => ?_) (fun _ i _ h₁ h₂ hn he => ?_) (fun _ _ hn => ?_)
  · rw [h₀, denseKey_rest t _ _ true true x x fun _ => rfl]
  · rw [hfirst, h₀, denseKey_arm t _ true true hx]
  · rw [(hquiet i h₁ h₂).1,
      denseKey_count t false true true x (ck 0) he (le_trans hn (le_trans hT hbyte))]
    simp
  · rw [(hquiet i h₁ h₂).1, denseKey_expire t _ false true true x (ck 0) hn he fun _ => rfl,
      if_pos rfl]
    exact ⟨rfl, rfl⟩
  · rw [hn, denseKey_rest t _ _ true true x x fun _ => rfl]
    exact ⟨rfl, rfl⟩

end Held

/-! ## The engine under a held sample -/

theorem head_eq_null {s : State} (hs : s.WellFormed L t) (hidle : ∀ i, s.remainingAt L i = 0) :
    s.head = null := by
  obtain ⟨l, hl, hmem⟩ := hs.chained
  have hnil : l = [] := List.eq_nil_iff_forall_not_mem.mpr fun i hi => by
    have := (hmem i).mp hi
    rw [hidle] at this
    exact Nat.lt_irrefl 0 this
  subst hnil
  exact hl

theorem step_settled {s : State} (hs : s.WellFormed L t) (hidle : ∀ i, s.remainingAt L i = 0)
    (e : Nat) (raw cooked : List (BitVec w)) (numRows : Nat) (changed : Bool)
    (hagree : ∀ r c, r < rowsToScan numRows s.nodes.length raw.length cooked.length →
      c < L.cols → bitAt cooked r c = bitAt raw r c) :
    s.step L t e raw cooked numRows changed = (s, cooked) := by
  -- no key has an edge, so the fold of `touch` is empty
  have hedges : edges L.cols (rowsToScan numRows s.nodes.length raw.length cooked.length) 0 raw
      cooked = [] := by
    rw [List.eq_nil_iff_forall_not_mem]
    intro q hq
    obtain ⟨r, c, hr, -, -, hc, hne, -⟩ := mem_edges.mp hq
    exact hne (hagree r c hr hc)
  have hfold := armRows_eq_foldl L t e changed
    (rowsToScan numRows s.nodes.length raw.length cooked.length) 0 s.nodes raw cooked s.head []
    rfl hs.shaped (rowsToScan_le_allocated _ _ _ _)
  rw [hedges, List.foldl_nil, List.nil_append, List.nil_append, State.mk.injEq] at hfold
  unfold State.step
  rw [if_pos (head_eq_null hs hidle)]
  dsimp only
  rw [show armRows L t e changed (rowsToScan numRows s.nodes.length raw.length cooked.length) 0
      s.nodes raw cooked s.head = (s.nodes, s.head) from Prod.ext hfold.1 hfold.2]

theorem remainingAt_eq_zero_of_inFlight {s : State} (hs : s.WellFormed L t) (h : s.inFlight L = 0)
    (i : Nat) : s.remainingAt L i = 0 := by
  have hnil : s.pending L = [] := List.eq_nil_of_length_eq_zero h
  have := (mem_pending_iff hs i).not.mp (by rw [hnil]; exact List.not_mem_nil)
  omega

/-- Hold one raw sample from any chained engine: the first pass reports a change, every pass up
to `longest + 1` after it none and a tick or more. From pass `longest + 1` on the chain is empty,
every scanned key agrees with raw, and each pass leaves engine and buffer as they are. From an
empty chain a scanned key whose raw bit differs from cooked commits raw at the first pass by
which its threshold has passed since the first, and no other bit changes. -/
theorem held_run (hcap : L.capacity * L.cols < null) (hthr : ∀ x, 0 < t.threshold x)
    (hbyte : t.longest ≤ countdownCap) {s : State} (hs : s.WellFormed L t)
    (raw cooked : List (BitVec w)) (numRows : Nat) (p : Nat → Pass w)
    (hsample : ∀ i, 0 < i → (p i).raw = raw ∧ (p i).numRows = numRows)
    (hfirst : (p 1).changed = true)
    (hquiet : ∀ i, 1 < i → i ≤ t.longest + 1 →
      (p i).changed = false ∧ 0 < (p i).elapsed) :
    let out := runWith (fun s q c => s.step L t q.elapsed q.raw c q.numRows q.changed) s cooked p
    let n := rowsToScan numRows s.nodes.length raw.length cooked.length
    (∀ i, t.longest + 1 ≤ i → (∀ j, (out i).1.remainingAt L j = 0) ∧
      ∀ r c, r < n → c < L.cols → bitAt (out i).2 r c = bitAt raw r c) ∧
    (∀ i, t.longest + 1 ≤ i → out (i + 1) = out i) ∧
    (s.inFlight L = 0 → ∀ i r c, bitAt (out i).2 r c =
      if r < n ∧ c < L.cols ∧ bitAt raw r c ≠ bitAt cooked r c ∧
        t.threshold (bitAt raw r c) ≤ ticks p 1 i then bitAt raw r c else bitAt cooked r c) := by
  intro out n
  have hshape : ∀ i, (out i).1.WellFormed L t ∧ (out i).1.nodes.length = s.nodes.length ∧
      (out i).2.length = cooked.length := shape_run hcap hthr hs cooked p
  have hsp : ∀ r, decide (r < n) = true →
      decide (r < raw.length ∧ r < cooked.length) = true := fun r h => by
      have h' := of_decide_eq_true h
      exact decide_eq_true ⟨Nat.lt_of_lt_of_le h' (rowsToScan_le_raw _ _ _ _),
        Nat.lt_of_lt_of_le h' (rowsToScan_le_cooked _ _ _ _)⟩
  -- every key of the arena moves by the dense rule, told whether its row is scanned
  have hkey : ∀ r c, r < s.nodes.length → c < L.cols → ∀ i,
      ((out (i + 1)).1.remainingAt L (r * L.cols + c), bitAt (out (i + 1)).2 r c) =
        denseKey t (p (i + 1)).elapsed (p (i + 1)).changed (decide (r < n))
          (decide (r < raw.length ∧ r < cooked.length)) (bitAt raw r c) (bitAt (out i).2 r c)
          ((out i).1.remainingAt L (r * L.cols + c)) := by
    intro r c hr hc i
    obtain ⟨hraw, hrows⟩ := hsample (i + 1) (Nat.succ_pos i)
    have h : ((out (i + 1)).1.remainingAt L (r * L.cols + c), bitAt (out (i + 1)).2 r c) =
        denseKey t (p (i + 1)).elapsed (p (i + 1)).changed
          (decide (r < rowsToScan (p (i + 1)).numRows s.nodes.length (p (i + 1)).raw.length
            cooked.length))
          (decide (r < (p (i + 1)).raw.length ∧ r < cooked.length)) (bitAt (p (i + 1)).raw r c)
          (bitAt (out i).2 r c) ((out i).1.remainingAt L (r * L.cols + c)) :=
      key_run hcap hthr hs cooked p hr hc i
    rw [hraw, hrows] at h
    exact h
  have hsettle : ∀ i, t.longest + 1 ≤ i → ∀ r c, r < s.nodes.length → c < L.cols →
      (out i).1.remainingAt L (r * L.cols + c) = 0 ∧
        (r < n → bitAt (out i).2 r c = bitAt raw r c) := by
    intro i hi r c hr hc
    obtain ⟨hrem, hck⟩ := @held_settles w t p
      (fun i => (out i).1.remainingAt L (r * L.cols + c)) (fun i => bitAt (out i).2 r c)
      (decide (r < n)) (decide (r < raw.length ∧ r < cooked.length)) (bitAt raw r c)
      (hkey r c hr hc) hthr hbyte (hsp r) hfirst hquiet ((hshape 0).1.bounded _) i hi
    exact ⟨hrem, fun hrn => hck (decide_eq_true hrn)⟩
  -- settled: no key of the arena is in flight, and every scanned key agrees with raw
  have hsettled : ∀ i, t.longest + 1 ≤ i → (∀ j, (out i).1.remainingAt L j = 0) ∧
      ∀ r c, r < n → c < L.cols → bitAt (out i).2 r c = bitAt raw r c := by
    intro i hi
    obtain ⟨hwf, hlen, -⟩ := hshape i
    refine ⟨fun j => ?_, fun r c hr hc =>
      (hsettle i hi r c (Nat.lt_of_lt_of_le hr (rowsToScan_le_allocated _ _ _ _)) hc).2 hr⟩
    by_cases hj : j < s.nodes.length * L.cols
    · have hpos : 0 < L.cols := Nat.pos_of_ne_zero fun h0 => by simp [h0] at hj
      have hr : j / L.cols < s.nodes.length := (Nat.div_lt_iff_lt_mul hpos).mpr hj
      have hidx := Nat.div_add_mod' j L.cols
      have h := (hsettle i hi (j / L.cols) (j % L.cols) hr (Nat.mod_lt j hpos)).1
      rwa [hidx] at h
    · exact remainingAt_eq_zero hwf.shaped (by rw [hlen]; omega)
  refine ⟨hsettled, fun i hi => ?_, fun hidle i r c => ?_⟩
  · -- a settled engine is a fixed point of the held pass
    obtain ⟨hraw, hrows⟩ := hsample (i + 1) (Nat.succ_pos i)
    obtain ⟨hwf, hlen, hclen⟩ := hshape i
    obtain ⟨hzero, hagree⟩ := hsettled i hi
    show (out i).1.step L t (p (i + 1)).elapsed (p (i + 1)).raw (out i).2 (p (i + 1)).numRows
      (p (i + 1)).changed = out i
    rw [hraw, hrows, step_settled hwf hzero]
    rw [hlen, hclen]
    exact hagree
  · have h₀ := remainingAt_eq_zero_of_inFlight hs hidle
    by_cases hkey' : r < s.nodes.length ∧ c < L.cols
    · by_cases hrn : r < n
      · have h := @held_commits_once w t p (fun i => (out i).1.remainingAt L (r * L.cols + c))
          (fun i => bitAt (out i).2 r c) (decide (r < n))
          (decide (r < raw.length ∧ r < cooked.length)) (bitAt raw r c)
          (hkey r c hkey'.1 hkey'.2) hthr hbyte (decide_eq_true hrn) (hsp r) hfirst hquiet
          (h₀ _) i
        rw [h]
        simp only [hrn, hkey'.2, true_and]
        rfl
      · -- an unscanned idle key keeps its cooked bit
        have h := @countdown_rest w p
          (fun e changed b m => denseKey t e changed (decide (r < n))
            (decide (r < raw.length ∧ r < cooked.length)) (bitAt raw r c) b m)
          (fun i => (out i).1.remainingAt L (r * L.cols + c)) (fun i => bitAt (out i).2 r c)
          (bitAt raw r c) (decide (r < n)) (hkey r c hkey'.1 hkey'.2)
          (fun e changed b => denseKey_rest t e changed _ _ (bitAt raw r c) b) 0 (h₀ _)
          (fun h => absurd (of_decide_eq_true h) hrn) i (Nat.zero_le i)
        rw [h.2, if_neg fun h => hrn h.1]
        rfl
    · -- a bit outside the arena is never touched
      have hkeep : ∀ i, bitAt (out i).2 r c = bitAt cooked r c := by
        intro i
        induction i with
        | zero => rfl
        | succ i ih =>
          rw [← ih]
          obtain ⟨hwf, hlen, -⟩ := hshape i
          exact bitAt_step_of_not_key hwf _ _ _ _ _ (by rw [hlen]; omega)
      rw [hkeep, if_neg fun h => hkey' ⟨Nat.lt_of_lt_of_le h.1
        (rowsToScan_le_allocated _ _ _ _), h.2.1⟩]

end KeyDebounce.Chain
