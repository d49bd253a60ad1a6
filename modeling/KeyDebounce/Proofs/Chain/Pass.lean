import KeyDebounce.Proofs.Chain.Expire
import KeyDebounce.Proofs.Chain.Arm

/-!
# One pass of the chained engine

`WellFormed` is the invariant of the engine: every row holds `cols` keys, the chain from the
head holds exactly the keys counting down, idle keys link nowhere and no countdown exceeds the
longer threshold. A pass is the walk of `expire` followed by the fold of `touch` over the keys
with an edge; from the two halves each key moves by `denseKey`, the rule a dense engine that
visits every key would apply, and the invariant holds again.
-/

set_option autoImplicit false

namespace KeyDebounce.Chain

open Row State

variable {w : Nat}

namespace State

/-- The invariant of the chained engine. -/
structure WellFormed (s : State) (L : Layout) (t : Timing) : Prop where
  shaped : s.Shaped L
  fits : s.nodes.length ≤ L.capacity
  chained : s.Chained L
  detached : s.Detached L
  bounded : ∀ i, s.remainingAt L i ≤ t.longest

end State

def denseKey (t : Timing) (e : Nat) (changed scanned present : Bool) (x b : Bool) (n : Nat) :
    Nat × Bool :=
  let b' := if present && 0 < n && n ≤ e then x else b
  if scanned && x != b' then (armedRemaining t e changed x (n - e), b') else (n - e, b')

theorem denseKey_snd (t : Timing) (e : Nat) (changed scanned present x b : Bool) (n : Nat) :
    (denseKey t e changed scanned present x b n).2 =
      if present && 0 < n && n ≤ e then x else b := by
  unfold denseKey
  dsimp only
  rw [apply_ite Prod.snd, ite_self]

theorem denseKey_fst (t : Timing) (e : Nat) (changed scanned present x b : Bool) (n : Nat) :
    (denseKey t e changed scanned present x b n).1 =
      if scanned && x != (denseKey t e changed scanned present x b n).2 then
        armedRemaining t e changed x (n - e)
      else n - e := by
  rw [denseKey_snd]
  unfold denseKey
  dsimp only
  rw [apply_ite Prod.fst]

theorem denseKey_arm (t : Timing) (e : Nat) (changed present : Bool) {x b : Bool} (hx : x ≠ b) :
    denseKey t e changed true present x b 0 = (t.threshold x, b) := by
  simp [denseKey, armedRemaining, hx]

theorem denseKey_count (t : Timing) (changed scanned present x b : Bool) {e n : Nat}
    (he : e < n) (hn : n ≤ countdownCap) :
    denseKey t e changed scanned present x b n =
      (if changed && scanned && x != b then n else n - e, b) := by
  have hkeep : (present && decide (0 < n) && decide (n ≤ e)) = false := by
    simp only [Bool.and_eq_false_iff, decide_eq_false_iff_not]
    omega
  -- the credit gives back the ticks the walk took, and stays under the cap
  have hpos : n - e ≠ 0 := by omega
  have hback : min countdownCap (n - e + e) = n := by omega
  unfold denseKey armedRemaining
  simp only [hkeep, Bool.false_eq_true, if_false]
  cases changed <;> by_cases hscan : (scanned && x != b) = true <;> simp [hscan, hpos, hback]

theorem denseKey_expire (t : Timing) (e : Nat) (changed scanned present x b : Bool) {n : Nat}
    (hn : 0 < n) (he : n ≤ e) (hsp : scanned = true → present = true) :
    denseKey t e changed scanned present x b n = (0, if present then x else b) := by
  unfold denseKey
  cases present
  · cases scanned
    · simp
      omega
    · simp at hsp
  · simp [hn, he]

theorem denseKey_rest (t : Timing) (e : Nat) (changed scanned present x b : Bool)
    (h : scanned = true → x = b) :
    denseKey t e changed scanned present x b 0 = (0, b) := by
  unfold denseKey
  cases scanned
  · simp
  · simp [h rfl]

section Pass

variable {L : Layout} {t : Timing} {s : State}

theorem wellFormed_empty : State.empty.WellFormed L t where
  shaped := by simp [Shaped, State.empty]
  fits := Nat.zero_le _
  chained := ⟨[], rfl, fun i => by simp [remainingAt, node?, State.empty]⟩
  detached := fun i n h => by simp [node?, State.empty] at h
  bounded := fun i => by simp [remainingAt, node?, State.empty]

theorem node?_init {n : Nat} {s : State} (h : State.init L n = .ok s) {i : Nat} {m : Node}
    (hm : s.node? L i = some m) : m = Node.idle := by
  unfold State.init at h
  split at h
  · cases h
    obtain ⟨row, hrow, hm⟩ := Option.bind_eq_some_iff.mp hm
    rw [List.eq_of_mem_replicate (List.mem_of_getElem? hrow)] at hm
    exact List.eq_of_mem_replicate (List.mem_of_getElem? hm)
  · cases h

theorem wellFormed_init {n : Nat} {s : State} (h : State.init L n = .ok s) : s.WellFormed L t := by
  have hidle : ∀ i m, s.node? L i = some m → m = Node.idle := fun i m hm => node?_init h hm
  have hrem : ∀ i, s.remainingAt L i = 0 := fun i => by
    unfold remainingAt
    cases hm : s.node? L i with
    | none => rfl
    | some m => simp [hidle i m hm, Node.idle]
  unfold State.init at h
  split at h
  · rename_i hn
    cases h
    exact {
      shaped := by simp [Shaped]
      fits := by simpa using hn
      chained := ⟨[], rfl, fun i => by simp [hrem i]⟩
      detached := fun i m hm _ => by rw [hidle i m hm]; rfl
      bounded := fun i => by simp [hrem i] }
  · cases h

theorem remainingAt_eq_zero (hs : s.Shaped L) {i : Nat} (hi : s.nodes.length * L.cols ≤ i) :
    s.remainingAt L i = 0 := by
  have hnone : s.node? L i = none := by
    rw [← Option.not_isSome_iff_eq_none, node?_isSome_iff hs]
    omega
  simp [remainingAt, hnone]

theorem step_split (hs : s.WellFormed L t) (e : Nat) (raw cooked : List (BitVec w))
    (numRows : Nat) (changed : Bool) :
    ∃ l₀ s₁ cooked₁,
      s.Linked L s.head l₀ ∧ Expired s cooked raw L e l₀ s₁ cooked₁ ∧
      s.step L t e raw cooked numRows changed =
        ((edges L.cols (rowsToScan numRows s.nodes.length raw.length cooked.length) 0 raw
          cooked₁).foldl (·.touch L t e changed) s₁, cooked₁) := by
  obtain ⟨l₀, hl, hmem⟩ := hs.chained
  have hexp : Expired s cooked raw L e l₀ _ _ := expired_of_walk hl hmem hs.shaped hs.detached
  refine ⟨l₀, _, _, hl, hexp, ?_⟩
  unfold State.step
  generalize (if s.head = null then (s, cooked)
    else expire L e raw (s.size + 1) null s.head s cooked) = p at hexp ⊢
  obtain ⟨s₁, cooked₁⟩ := p
  have hfold := armRows_eq_foldl L t e changed
    (rowsToScan numRows s₁.nodes.length raw.length cooked₁.length) 0 s₁.nodes raw cooked₁
    s₁.head [] rfl hexp.shaped (rowsToScan_le_allocated _ _ _ _)
  rw [List.nil_append, List.nil_append] at hfold
  simp only [← hexp.length, ← hexp.cooked_length]
  rw [← hfold]

theorem Expired.chained {cooked₀ raw : List (BitVec w)} {e : Nat} {l₀ : List Nat} {s₁ : State}
    {cooked₁ : List (BitVec w)} (h : Expired s cooked₀ raw L e l₀ s₁ cooked₁)
    (hmem : ∀ i, i ∈ l₀ ↔ 0 < s.remainingAt L i) : s₁.Chained L := by
  refine ⟨survivors s L e l₀, h.linked, fun i => ?_⟩
  rw [mem_survivors, hmem, h.remaining i]
  omega

theorem key_mem_edges {cols n r c : Nat} {raw cooked : List (BitVec w)} {x : Bool}
    (hc : c < cols) :
    (r * cols + c, x) ∈ edges cols n 0 raw cooked ↔
      r < n ∧ r < raw.length ∧ r < cooked.length ∧ bitAt cooked r c ≠ bitAt raw r c ∧
        x = bitAt raw r c := by
  rw [mem_edges]
  constructor
  · rintro ⟨r', c', hr, hrr, hrc, hc', hne, heq⟩
    simp only [Nat.zero_add, Prod.mk.injEq] at heq
    obtain ⟨hi, rfl⟩ := heq
    have hr' : r = r' := by
      have := congrArg (· / cols) hi
      simpa only [index_div hc, index_div hc'] using this
    have hc'' : c = c' := by
      have := congrArg (· % cols) hi
      simpa only [index_mod hc, index_mod hc'] using this
    subst hr' hc''
    exact ⟨hr, hrr, hrc, hne, rfl⟩
  · rintro ⟨hr, hrr, hrc, hne, rfl⟩
    exact ⟨r, c, hr, hrr, hrc, hc, hne, by simp⟩

theorem key_mem_edges_fst {cols n r c : Nat} {raw cooked : List (BitVec w)} (hc : c < cols) :
    r * cols + c ∈ (edges cols n 0 raw cooked).map Prod.fst ↔
      r < n ∧ r < raw.length ∧ r < cooked.length ∧ bitAt cooked r c ≠ bitAt raw r c := by
  simp only [List.mem_map]
  constructor
  · rintro ⟨⟨i, x⟩, hp, rfl⟩
    obtain ⟨h₁, h₂, h₃, h₄, -⟩ := (key_mem_edges hc).mp hp
    exact ⟨h₁, h₂, h₃, h₄⟩
  · rintro ⟨h₁, h₂, h₃, h₄⟩
    exact ⟨(r * cols + c, bitAt raw r c),
      (key_mem_edges hc).mpr ⟨h₁, h₂, h₃, h₄, rfl⟩, rfl⟩

theorem key_lt_size {r c : Nat} (hr : r < s.nodes.length) (hc : c < L.cols) :
    r * L.cols + c < s.nodes.length * L.cols := by
  have h := Nat.mul_le_mul_right L.cols (Nat.succ_le_of_lt hr)
  rw [Nat.succ_mul] at h
  omega

theorem node?_isSome_of_mem_edges {n : Nat} {raw cooked : List (BitVec w)} (hs : s.Shaped L)
    (hn : n ≤ s.nodes.length) {p : Nat × Bool} (hp : p ∈ edges L.cols n 0 raw cooked) :
    (s.node? L p.1).isSome := by
  obtain ⟨r, c, hr, -, -, hc, -, rfl⟩ := mem_edges.mp hp
  rw [node?_isSome_iff hs, Nat.zero_add]
  exact key_lt_size (by omega) hc

theorem armedRemaining_le {e n : Nat} (changed x : Bool) (hn : n ≤ t.longest) :
    armedRemaining t e changed x (n - e) ≤ t.longest := by
  unfold armedRemaining
  split
  · exact Timing.threshold_le_longest t x
  · split
    · have : min countdownCap (n - e + e) ≤ n - e + e := Nat.min_le_right _ _
      omega
    · omega

/-- A pass keeps the invariant. -/
theorem wellFormed_step (hs : s.WellFormed L t) (hcap : L.capacity * L.cols ≤ null)
    (hthr : ∀ x, 0 < t.threshold x) (e : Nat) (raw cooked : List (BitVec w)) (numRows : Nat)
    (changed : Bool) : (s.step L t e raw cooked numRows changed).1.WellFormed L t := by
  obtain ⟨l₀, s₁, cooked₁, hl, hexp, hstep⟩ := step_split hs e raw cooked numRows changed
  rw [hstep]
  have hmem : ∀ i, i ∈ l₀ ↔ 0 < s.remainingAt L i := by
    obtain ⟨l, hl', hm⟩ := hs.chained
    rw [hl.unique hl']
    exact hm
  set E := edges L.cols (rowsToScan numRows s.nodes.length raw.length cooked.length) 0 raw cooked₁
  have hn : rowsToScan numRows s.nodes.length raw.length cooked.length ≤ s₁.nodes.length :=
    hexp.length ▸ rowsToScan_le_allocated _ _ _ _
  obtain ⟨hshape, hlen, -⟩ : (E.foldl (·.touch L t e changed) s₁).Shaped L ∧
      (E.foldl (·.touch L t e changed) s₁).nodes.length = s₁.nodes.length ∧ _ :=
    foldl_touch_shaped E hexp.shaped
  have hcap₁ : s₁.nodes.length * L.cols ≤ null :=
    le_trans (Nat.mul_le_mul_right _ (hexp.length ▸ hs.fits)) hcap
  obtain ⟨hchain, hdet⟩ := foldl_touch_chained E hexp.shaped hcap₁ hthr (hexp.chained hmem)
    hexp.detached
  refine ⟨hshape, by rw [hlen, hexp.length]; exact hs.fits, hchain, hdet, fun i => ?_⟩
  by_cases hi : i ∈ E.map Prod.fst
  · obtain ⟨⟨i, x⟩, hp, rfl⟩ := List.mem_map.mp hi
    rw [remainingAt_foldl_touch_of_mem (nodup_edges _ _ _ _) hp
      (node?_isSome_of_mem_edges hexp.shaped hn hp), hexp.remaining]
    exact armedRemaining_le changed x (hs.bounded i)
  · rw [remainingAt_foldl_touch_of_not_mem hi, hexp.remaining]
    exact le_trans (Nat.sub_le _ _) (hs.bounded i)

/-- Each key of a pass moves by the dense rule. -/
theorem step_key (hs : s.WellFormed L t) (e : Nat) (raw cooked : List (BitVec w))
    (numRows : Nat) (changed : Bool) {r c : Nat} (hr : r < s.nodes.length) (hc : c < L.cols) :
    ((s.step L t e raw cooked numRows changed).1.remainingAt L (r * L.cols + c),
      bitAt (s.step L t e raw cooked numRows changed).2 r c) =
      denseKey t e changed (decide (r < rowsToScan numRows s.nodes.length raw.length cooked.length))
        (decide (r < raw.length ∧ r < cooked.length)) (bitAt raw r c) (bitAt cooked r c)
        (s.remainingAt L (r * L.cols + c)) := by
  obtain ⟨l₀, s₁, cooked₁, hl, hexp, hstep⟩ := step_split hs e raw cooked numRows changed
  rw [hstep]
  have hbit : bitAt cooked₁ r c = (denseKey t e changed
      (decide (r < rowsToScan numRows s.nodes.length raw.length cooked.length))
      (decide (r < raw.length ∧ r < cooked.length)) (bitAt raw r c) (bitAt cooked r c)
      (s.remainingAt L (r * L.cols + c))).2 := by
    rw [hexp.bits, denseKey_snd]
    simp only [hc, true_and, Bool.and_eq_true, decide_eq_true_eq]
    exact if_congr (by tauto) rfl rfl
  have hsome : (s₁.node? L (r * L.cols + c)).isSome := by
    rw [hexp.isSome, node?_isSome_iff hs.shaped]
    exact key_lt_size hr hc
  have hscan := rowsToScan_le_raw numRows s.nodes.length raw.length cooked.length
  have hscan' := rowsToScan_le_cooked numRows s.nodes.length raw.length cooked.length
  refine Prod.ext ?_ hbit
  rw [denseKey_fst, ← hbit]
  by_cases hedge : r < rowsToScan numRows s.nodes.length raw.length cooked.length ∧
      bitAt cooked₁ r c ≠ bitAt raw r c
  · have hp := (key_mem_edges hc).mpr ⟨hedge.1, by omega, by rw [hexp.cooked_length]; omega,
      hedge.2, rfl⟩
    rw [remainingAt_foldl_touch_of_mem (nodup_edges _ _ _ _) hp hsome, hexp.remaining]
    simp [hedge.1, Ne.symm hedge.2]
  · rw [remainingAt_foldl_touch_of_not_mem fun hi => hedge ?_, hexp.remaining]
    · simp only [Bool.and_eq_true, decide_eq_true_eq, bne_iff_ne, ne_eq]
      rw [if_neg fun h => hedge ⟨h.1, Ne.symm h.2⟩]
    · obtain ⟨h₁, -, -, h₄⟩ := (key_mem_edges_fst hc).mp hi
      exact ⟨h₁, h₄⟩

theorem armedRemaining_pos {e n : Nat} (hthr : ∀ x, 0 < t.threshold x) (changed x : Bool) :
    0 < armedRemaining t e changed x n := by
  unfold armedRemaining
  split
  · exact hthr x
  · split
    · simp [countdownCap]
      omega
    · omega

theorem bitAt_step_of_not_key (hs : s.WellFormed L t) (e : Nat) (raw cooked : List (BitVec w))
    (numRows : Nat) (changed : Bool) {r c : Nat} (hrc : s.nodes.length ≤ r ∨ L.cols ≤ c) :
    bitAt (s.step L t e raw cooked numRows changed).2 r c = bitAt cooked r c := by
  obtain ⟨l₀, s₁, cooked₁, -, hexp, hstep⟩ := step_split hs e raw cooked numRows changed
  rw [hstep, hexp.bits]
  refine if_neg fun h => ?_
  rcases hrc with hr | hc
  · have hidx : s.nodes.length * L.cols ≤ r * L.cols + c :=
      le_trans (Nat.mul_le_mul_right _ hr) (Nat.le_add_right _ _)
    have := remainingAt_eq_zero hs.shaped hidx
    omega
  · omega

theorem length_step (hs : s.WellFormed L t) (e : Nat) (raw cooked : List (BitVec w))
    (numRows : Nat) (changed : Bool) :
    (s.step L t e raw cooked numRows changed).2.length = cooked.length ∧
      (s.step L t e raw cooked numRows changed).1.nodes.length = s.nodes.length := by
  obtain ⟨l₀, s₁, cooked₁, -, hexp, hstep⟩ := step_split hs e raw cooked numRows changed
  rw [hstep]
  exact ⟨hexp.cooked_length, (foldl_touch_shaped _ hexp.shaped).2.1.trans hexp.length⟩

end Pass

/-- A pass over an engine with the chain invariant moves every key by the dense rule
`denseKey`, changes no cooked bit outside the keys, and keeps the invariant, so the chain holds
exactly the keys in flight afterwards; every key of a scanned row whose raw bit differs from its
cooked bit is then in flight, whatever the hint. The rule reads no link, so two engines with the
same countdowns, chained in any order, give the same buffer and countdowns. -/
theorem step_refines_dense {L : Layout} {t : Timing} (hcap : L.capacity * L.cols < null)
    (hdown : 0 < t.down) (hup : 0 < t.up) {s : State} (hs : s.WellFormed L t) (e : Nat)
    (raw cooked : List (BitVec w)) (numRows : Nat) (changed : Bool) :
    let s' := (s.step L t e raw cooked numRows changed).1
    let cooked' := (s.step L t e raw cooked numRows changed).2
    let n := rowsToScan numRows s.nodes.length raw.length cooked.length
    (∀ r c, r < s.nodes.length → c < L.cols →
      (s'.remainingAt L (r * L.cols + c), bitAt cooked' r c) =
        denseKey t e changed (decide (r < n)) (decide (r < raw.length ∧ r < cooked.length))
          (bitAt raw r c) (bitAt cooked r c) (s.remainingAt L (r * L.cols + c))) ∧
    cooked'.length = cooked.length ∧
    (∀ r c, s.nodes.length ≤ r ∨ L.cols ≤ c → bitAt cooked' r c = bitAt cooked r c) ∧
    s'.WellFormed L t ∧ s'.nodes.length = s.nodes.length ∧
    (∀ r c, r < n → c < L.cols → bitAt raw r c ≠ bitAt cooked' r c →
      r * L.cols + c ∈ s'.pending L) ∧
    (∀ s₂ : State, s₂.WellFormed L t → s₂.nodes.length = s.nodes.length →
      (∀ i, s₂.remainingAt L i = s.remainingAt L i) →
      (s₂.step L t e raw cooked numRows changed).2 = cooked' ∧
        ∀ i, (s₂.step L t e raw cooked numRows changed).1.remainingAt L i =
          s'.remainingAt L i) := by
  dsimp only
  have hthr : ∀ x, 0 < t.threshold x := Timing.threshold_pos hdown hup
  have hwf := wellFormed_step hs (Nat.le_of_lt hcap) hthr e raw cooked numRows changed
  obtain ⟨hclen, hslen⟩ := length_step hs e raw cooked numRows changed
  refine ⟨fun r c hr hc => step_key hs e raw cooked numRows changed hr hc, hclen,
    fun r c hrc => bitAt_step_of_not_key hs e raw cooked numRows changed hrc, hwf, hslen,
    fun r c hr hc hne => ?_, fun s₂ hs₂ hlen hrem => ?_⟩
  · -- a scanned key whose raw bit differs from its new cooked bit has just been armed or extended
    have hr' : r < s.nodes.length := lt_of_lt_of_le hr (rowsToScan_le_allocated _ _ _ _)
    obtain ⟨hfst, hsnd⟩ := Prod.ext_iff.mp (step_key hs e raw cooked numRows changed hr' hc)
    dsimp only at hfst hsnd
    have hpos : 0 < (s.step L t e raw cooked numRows changed).1.remainingAt L (r * L.cols + c) := by
      rw [hfst, denseKey_fst, if_pos]
      · exact armedRemaining_pos hthr changed _
      · rw [← hsnd]
        simp [hr, hne]
    obtain ⟨l, hl, hmem⟩ := hwf.chained
    rw [hl.pending_eq hwf.shaped]
    exact (hmem _).mpr hpos
  · obtain ⟨hclen₂, hslen₂⟩ := length_step hs₂ e raw cooked numRows changed
    have hkey : ∀ r c, r < s.nodes.length → c < L.cols →
        (s₂.step L t e raw cooked numRows changed).1.remainingAt L (r * L.cols + c) =
          (s.step L t e raw cooked numRows changed).1.remainingAt L (r * L.cols + c) ∧
        bitAt (s₂.step L t e raw cooked numRows changed).2 r c =
          bitAt (s.step L t e raw cooked numRows changed).2 r c := by
      intro r c hr hc
      have h₁ := step_key hs₂ e raw cooked numRows changed (hlen ▸ hr) hc
      have h₂ := step_key hs e raw cooked numRows changed hr hc
      rw [hlen, hrem] at h₁
      exact Prod.ext_iff.mp (h₁.trans h₂.symm)
    refine ⟨ext_bitAt (hclen₂.trans hclen.symm) fun r c => ?_, fun i => ?_⟩
    · by_cases hrc : r < s.nodes.length ∧ c < L.cols
      · exact (hkey r c hrc.1 hrc.2).2
      · have hout : s.nodes.length ≤ r ∨ L.cols ≤ c := by omega
        rw [bitAt_step_of_not_key hs₂ e raw cooked numRows changed (hlen ▸ hout),
          bitAt_step_of_not_key hs e raw cooked numRows changed hout]
    · by_cases hi : i < s.nodes.length * L.cols
      · have hpos : 0 < L.cols := Nat.pos_of_ne_zero fun h0 => by simp [h0] at hi
        have hr : i / L.cols < s.nodes.length := (Nat.div_lt_iff_lt_mul hpos).mpr hi
        have hidx := Nat.div_add_mod' i L.cols
        have := (hkey (i / L.cols) (i % L.cols) hr (Nat.mod_lt i hpos)).1
        rwa [hidx] at this
      · have hwf₂ := wellFormed_step hs₂ (Nat.le_of_lt hcap) hthr e raw cooked numRows changed
        rw [remainingAt_eq_zero hwf₂.shaped (by rw [hslen₂, hlen]; omega),
          remainingAt_eq_zero hwf.shaped (by rw [hslen]; omega)]

/-- The first pass of a freshly sized two-row engine of four columns, which arms three keys. -/
theorem sized_step_refines_dense :
    let L : Layout := ⟨2, 4⟩
    let t : Timing := ⟨2, 8, 0⟩
    let s : State := ⟨List.replicate 2 (List.replicate 4 Node.idle), null⟩
    let raw := [0b0010#8, 0#8]
    let cooked := [0b0001#8, 0b1000#8]
    (L.capacity * L.cols < null ∧ 0 < t.down ∧ 0 < t.up ∧ s.WellFormed L t) ∧
    let s' := (s.step L t 1 raw cooked 2 true).1
    let cooked' := (s.step L t 1 raw cooked 2 true).2
    let n := rowsToScan 2 s.nodes.length raw.length cooked.length
    (∀ r c, r < s.nodes.length → c < L.cols →
      (s'.remainingAt L (r * L.cols + c), bitAt cooked' r c) =
        denseKey t 1 true (decide (r < n)) (decide (r < raw.length ∧ r < cooked.length))
          (bitAt raw r c) (bitAt cooked r c) (s.remainingAt L (r * L.cols + c))) ∧
    cooked'.length = cooked.length ∧
    (∀ r c, s.nodes.length ≤ r ∨ L.cols ≤ c → bitAt cooked' r c = bitAt cooked r c) ∧
    s'.WellFormed L t ∧ s'.nodes.length = s.nodes.length ∧
    (∀ r c, r < n → c < L.cols → bitAt raw r c ≠ bitAt cooked' r c →
      r * L.cols + c ∈ s'.pending L) ∧
    (∀ s₂ : State, s₂.WellFormed L t → s₂.nodes.length = s.nodes.length →
      (∀ i, s₂.remainingAt L i = s.remainingAt L i) →
      (s₂.step L t 1 raw cooked 2 true).2 = cooked' ∧
        ∀ i, (s₂.step L t 1 raw cooked 2 true).1.remainingAt L i = s'.remainingAt L i) :=
  have hs : (⟨List.replicate 2 (List.replicate 4 Node.idle), null⟩ : State).WellFormed
      ⟨2, 4⟩ ⟨2, 8, 0⟩ := @wellFormed_init ⟨2, 4⟩ ⟨2, 8, 0⟩ 2 _ rfl
  ⟨⟨by decide, by decide, by decide, hs⟩,
    step_refines_dense (by decide) (by decide) (by decide) hs
      1 [0b0010#8, 0#8] [0b0001#8, 0b1000#8] 2 true⟩

end KeyDebounce.Chain
