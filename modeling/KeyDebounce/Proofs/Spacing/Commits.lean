import KeyDebounce.Proofs.Spacing.Rules

/-!
# Commits of a key are spaced

Along a run after `init`, a key's cooked bit never flips faster than its debounce threshold: the
threshold of the state it flips to passes between two flips, and for the quiescing engine the
quiet window passes first. Each engine starts with every key idle, keeps its invariant pass after
pass, and moves every key by its rule or leaves it alone, so `Armed` or `Quiet` holds from each
flip to the next and `gap_of_changes` turns it into the spacing.
-/

set_option autoImplicit false

namespace KeyDebounce

open Row Pass

variable {w : Nat} {L : Layout} {t : Timing}

section Init

theorem Defer.counter_init {n : Nat} {s : Defer.State} (h : Defer.State.init L n = .ok s)
    (r c : Nat) :
    s.counter r c = 0 := by
  unfold Defer.State.init at h
  split at h
  · cases h
    simp only [Defer.State.counter, List.getElem?_replicate]
    split
    · simp [Defer.RowState.idle, List.getElem?_replicate]
      split <;> rfl
    · rfl
  · cases h

theorem Quiesce.key_init {n : Nat} {s : Quiesce.State} (h : Quiesce.State.init L n = .ok s)
    (r c : Nat) :
    s.key r c = Quiesce.Key.waiting := by
  unfold Quiesce.State.init at h
  split at h
  · cases h
    simp only [Quiesce.State.key, List.getElem?_replicate]
    split
    · simp [Quiesce.RowState.idle, List.getElem?_replicate]
      split <;> rfl
    · rfl
  · cases h

theorem Chain.remainingAt_init {n : Nat} {s : Chain.State} (h : Chain.State.init L n = .ok s)
    (i : Nat) :
    s.remainingAt L i = 0 := by
  unfold Chain.State.remainingAt
  cases hm : s.node? L i with
  | none => rfl
  | some m => rw [Chain.node?_init h hm]; rfl

theorem Defer.init_idle (s : Defer.State) (L : Layout) (n : Nat) :
    ∃ s₀, ((Engine.defer s).init L n).2 = .defer s₀ ∧ s₀.WellFormed L ∧
      ∀ r c, s₀.counter r c = 0 := by
  unfold Engine.init
  cases h : Defer.State.init L n with
  | ok s₀ => exact ⟨s₀, rfl, Defer.wellFormed_init h, Defer.counter_init h⟩
  | error err => exact ⟨Defer.State.empty, rfl, Defer.wellFormed_empty, fun r c => rfl⟩

theorem Quiesce.init_idle (s : Quiesce.State) (L : Layout) (n : Nat) :
    ∃ s₀, ((Engine.quiesce s).init L n).2 = .quiesce s₀ ∧ s₀.WellFormed L ∧
      ∀ r c, s₀.key r c = Quiesce.Key.waiting := by
  unfold Engine.init
  cases h : Quiesce.State.init L n with
  | ok s₀ => exact ⟨s₀, rfl, Quiesce.wellFormed_init h, Quiesce.key_init h⟩
  | error err => exact ⟨Quiesce.State.empty, rfl, Quiesce.wellFormed_empty, fun r c => rfl⟩

theorem Chain.init_idle (s : Chain.State) (L : Layout) (t : Timing) (n : Nat) :
    ∃ s₀, ((Engine.chain s).init L n).2 = .chain s₀ ∧ s₀.WellFormed L t ∧
      ∀ i, s₀.remainingAt L i = 0 := by
  rw [Engine.init_chain]
  cases h : Chain.State.init L n with
  | ok s₀ => exact ⟨s₀, rfl, Chain.wellFormed_init h, Chain.remainingAt_init h⟩
  | error err => exact ⟨Chain.State.empty, rfl, Chain.wellFormed_empty, fun i => rfl⟩

end Init

section Runs

variable (cooked : List (BitVec w)) (p : Nat → Pass w) (r c : Nat)

theorem Defer.wellFormed_run (hthr : ∀ x, 0 < t.threshold x) {s : Defer.State}
    (hs : s.WellFormed L) (i : Nat) :
    let run := runWith (fun s q c => s.step t q.elapsed q.raw c q.numRows q.changed) s cooked p
    (run i).1.WellFormed L ∧ (run i).1.rows.length = s.rows.length ∧
      (run i).2.length = cooked.length := by
  intro run
  induction i with
  | zero => exact ⟨hs, rfl, rfl⟩
  | succ i ih =>
    obtain ⟨hwf, hrows, hlen⟩ := ih
    have h : (run (i + 1)).1.rows.length = (run i).1.rows.length ∧
        (run (i + 1)).2.length = (run i).2.length := Defer.length_step _ _ _ _ _ _
    exact ⟨Defer.wellFormed_step hthr hwf _ _ _ _ _, h.1.trans hrows, h.2.trans hlen⟩

theorem Defer.key_run (hthr : ∀ x, 0 < t.threshold x) {s : Defer.State} (hs : s.WellFormed L)
    (i : Nat) :
    let run := runWith (fun s q c => s.step t q.elapsed q.raw c q.numRows q.changed) s cooked p
    let q := p (i + 1)
    ((run (i + 1)).1.counter r c, bitAt (run (i + 1)).2 r c) =
      if r < rowsToScan q.numRows s.rows.length q.raw.length cooked.length ∧ c < L.cols then
        Defer.deferKey t q.elapsed q.changed (bitAt q.raw r c) (bitAt (run i).2 r c)
          ((run i).1.counter r c)
      else ((run i).1.counter r c, bitAt (run i).2 r c) := by
  intro run q
  obtain ⟨hwf, hrows, hlen⟩ := Defer.wellFormed_run cooked p hthr hs i
  rw [← hrows, ← hlen]
  exact Defer.step_key hwf q.elapsed q.raw (run i).2 q.numRows q.changed r c

theorem Quiesce.wellFormed_run {s : Quiesce.State} (hs : s.WellFormed L) (i : Nat) :
    let run := runWith (fun s q c => s.step t q.elapsed q.raw c q.numRows) s cooked p
    (run i).1.WellFormed L := by
  intro run
  induction i with
  | zero => exact hs
  | succ i ih => exact Quiesce.wellFormed_step ih _ _ _ _

theorem Chain.wellFormed_run (hcap : L.capacity * L.cols < Chain.null)
    (hthr : ∀ x, 0 < t.threshold x) {s : Chain.State} (hs : s.WellFormed L t) (i : Nat) :
    let run := runWith (fun s q c => s.step L t q.elapsed q.raw c q.numRows q.changed) s cooked p
    (run i).1.WellFormed L t ∧ (run i).1.nodes.length = s.nodes.length := by
  intro run
  induction i with
  | zero => exact ⟨hs, rfl⟩
  | succ i ih =>
    obtain ⟨hwf, hlen⟩ := ih
    exact ⟨Chain.wellFormed_step hwf hcap.le hthr _ _ _ _ _,
      (Chain.length_step hwf _ _ _ _ _).2.trans hlen⟩

theorem Defer.spaced_run (hthr : ∀ x, 0 < t.threshold x) {s : Defer.State} (hs : s.WellFormed L)
    (hidle : ∀ r c, s.counter r c = 0) :
    let run := runWith (fun s q c => s.step t q.elapsed q.raw c q.numRows q.changed) s cooked p
    let bit := fun i => bitAt (run i).2 r c
    ∀ {k m}, k < m → (k = 0 ∨ bit k ≠ bit (k - 1)) →
      (∀ j, k < j → j < m → bit j = bit (j - 1)) → bit m ≠ bit (m - 1) →
      Spaced p t 0 k m (bit m) := by
  intro run bit k m hkm hk hsteady hm
  refine gap_of_changes (fun k i => Armed p t k i (bit i) ((run i).1.counter r c))
    (fun k m => Spaced p t 0 k m (bit m))
    (by rw [show (run 0).1 = s from rfl, hidle]; exact armed_zero) ?_ hkm hk hsteady hm
  intro k i hki harmed
  exact step_or_keep (Armed p t) (Spaced p t 0 k (i + 1)) (fun h => h.wait)
    (Defer.key_run cooked p r c hthr hs i)
    (fun _ => harmed.deferKey hki (p (i + 1)).changed (bitAt (p (i + 1)).raw r c)) harmed

theorem Quiesce.spaced_run {s : Quiesce.State} (hs : s.WellFormed L)
    (hidle : ∀ r c, s.key r c = Quiesce.Key.waiting) :
    let run := runWith (fun s q c => s.step t q.elapsed q.raw c q.numRows) s cooked p
    let bit := fun i => bitAt (run i).2 r c
    ∀ {k m}, k < m → (k = 0 ∨ bit k ≠ bit (k - 1)) →
      (∀ j, k < j → j < m → bit j = bit (j - 1)) → bit m ≠ bit (m - 1) →
      Spaced p t (quietPause t k) k m (bit m) := by
  intro run bit k m hkm hk hsteady hm
  refine gap_of_changes (fun k i => Quiet p t k i (bit i) ((run i).1.key r c))
    (fun k m => Spaced p t (quietPause t k) k m (bit m))
    (by simp [show (run 0).1 = s from rfl, hidle, Quiet, Quiesce.Key.waiting, quietPause])
    ?_ hkm hk hsteady hm
  intro k i hki hquiet
  let q := p (i + 1)
  have hkey : ((run (i + 1)).1.key r c, bit (i + 1)) =
      if r < rowsToScan q.numRows (run i).1.rows.length q.raw.length (run i).2.length ∧
        c < L.cols then
        Quiesce.quiesceKey t q.elapsed (bitAt q.raw r c) (bit i) ((run i).1.key r c)
      else ((run i).1.key r c, bit i) :=
    Quiesce.step_key (Quiesce.wellFormed_run cooked p hs i) q.elapsed q.raw (run i).2 q.numRows
      r c
  exact step_or_keep (Quiet p t) (Spaced p t (quietPause t k) k (i + 1))
    (fun h => h.wait hki) hkey (fun _ => hquiet.quiesceKey hki (bitAt q.raw r c)) hquiet

theorem Chain.spaced_run (hcap : L.capacity * L.cols < Chain.null) (hthr : ∀ x, 0 < t.threshold x)
    (hbyte : ∀ x, t.threshold x ≤ Chain.countdownCap) {s : Chain.State} (hs : s.WellFormed L t)
    (hidle : ∀ i, s.remainingAt L i = 0) :
    let run := runWith (fun s q c => s.step L t q.elapsed q.raw c q.numRows q.changed) s cooked p
    let bit := fun i => bitAt (run i).2 r c
    ∀ {k m}, k < m → (k = 0 ∨ bit k ≠ bit (k - 1)) →
      (∀ j, k < j → j < m → bit j = bit (j - 1)) → bit m ≠ bit (m - 1) →
      Spaced p t 0 k m (bit m) := by
  intro run bit k m hkm hk hsteady hm
  -- the arena keeps its rows, so whether the key exists is decided once
  refine gap_of_changes
    (fun k i => r < s.nodes.length → c < L.cols →
      Armed p t k i (bit i) ((run i).1.remainingAt L (r * L.cols + c)))
    (fun k m => Spaced p t 0 k m (bit m))
    (fun _ _ => by rw [show (run 0).1 = s from rfl, hidle]; exact armed_zero)
    ?_ hkm hk hsteady hm
  intro k i hki harmed
  let q := p (i + 1)
  obtain ⟨hwf, hlen⟩ := Chain.wellFormed_run cooked p hcap hthr hs i
  by_cases hin : r < s.nodes.length ∧ c < L.cols
  · have hkey : ((run (i + 1)).1.remainingAt L (r * L.cols + c), bit (i + 1)) =
        if True then Chain.denseKey t q.elapsed q.changed
          (decide (r < rowsToScan q.numRows (run i).1.nodes.length q.raw.length (run i).2.length))
          (decide (r < q.raw.length ∧ r < (run i).2.length)) (bitAt q.raw r c) (bit i)
          ((run i).1.remainingAt L (r * L.cols + c))
        else ((run i).1.remainingAt L (r * L.cols + c), bit i) :=
      Chain.step_key hwf q.elapsed q.raw (run i).2 q.numRows q.changed (hlen ▸ hin.1) hin.2
    obtain ⟨hsame, hflip⟩ := step_or_keep (Armed p t) (Spaced p t 0 k (i + 1))
      (fun h => h.wait) hkey (fun _ => (harmed hin.1 hin.2).denseKey hbyte hki _ _ _ _)
      (harmed hin.1 hin.2)
    exact ⟨fun hb _ _ => hsame hb, fun hb => ⟨(hflip hb).1, fun _ _ => (hflip hb).2⟩⟩
  · -- a key outside the arena keeps its cooked bit
    have hkeep : bit (i + 1) = bit i :=
      Chain.bitAt_step_of_not_key hwf q.elapsed q.raw (run i).2 q.numRows q.changed
        (by rw [hlen]; omega)
    exact ⟨fun _ h₁ h₂ => absurd ⟨h₁, h₂⟩ hin, fun hb => absurd hkeep hb⟩

end Runs

/-- Spacing with a pause read back as the bound of the engine: from the change before it, and
from the start for the first change. -/
theorem spacing_of_spaced {p : Nat → Pass w} {bit : Nat → Bool} (a : Algorithm)
    (pause : Nat → Nat) (hpause : ∀ k v, 0 < k → a.spacing t v ≤ pause k + t.threshold v)
    (h : ∀ k m, k < m → (k = 0 ∨ bit k ≠ bit (k - 1)) →
      (∀ j, k < j → j < m → bit j = bit (j - 1)) → bit m ≠ bit (m - 1) →
      Spaced p t (pause k) k m (bit m)) :
    (∀ k m, k < m → bit k ≠ bit (k - 1) →
      (∀ j, k < j → j < m → bit j = bit (j - 1)) →
      bit m ≠ bit (m - 1) → a.spacing t (bit m) ≤ ticks p k m) ∧
    (∀ m, (∀ j, 0 < j → j < m → bit j = bit (j - 1)) → bit m ≠ bit (m - 1) →
      t.threshold (bit m) ≤ ticks p 1 m) := by
  constructor
  · intro k m hkm hk hsteady hm
    have hk0 : 0 < k := Nat.pos_of_ne_zero fun h => hk (by rw [h])
    exact le_trans (hpause k _ hk0) (h k m hkm (Or.inr hk) hsteady hm).le_ticks
  · intro m hsteady hm
    have hm0 : 0 < m := Nat.pos_of_ne_zero fun h => hm (by rw [h])
    exact (h 0 m hm0 (Or.inl rfl) hsteady hm).first

/-- Whatever the raw samples, hints and elapsed ticks, a cooked key never flips faster than the
debounce threshold of its new state, counted from its previous flip, or from the first pass for
its first flip; the quiescing engine also waits out its quiet window after every flip. It holds
for every engine, sized by `init` (refused or not) and then run on the buffer it returns, when
the thresholds are positive bytes and, for the chained engine, the arena indices stay below the
chain's end marker. -/
theorem commits_spaced (hdown : 0 < t.down) (hup : 0 < t.up)
    (hbyte : t.longest ≤ Chain.countdownCap) (g : Engine)
    (hcap : g.kind = .eagerList → L.capacity * L.cols < Chain.null)
    (n : Nat) (cooked : List (BitVec w)) (p : Nat → Pass w) (r c : Nat) :
    let bit := fun i => bitAt (((g.init L n).2.run L t cooked p i).2) r c
    (∀ k m, k < m → bit k ≠ bit (k - 1) →
      (∀ j, k < j → j < m → bit j = bit (j - 1)) →
      bit m ≠ bit (m - 1) → g.kind.spacing t (bit m) ≤ ticks p k m) ∧
    (∀ m, (∀ j, 0 < j → j < m → bit j = bit (j - 1)) → bit m ≠ bit (m - 1) →
      t.threshold (bit m) ≤ ticks p 1 m) := by
  have hthr : ∀ x, 0 < t.threshold x := Timing.threshold_pos hdown hup
  have hle : ∀ x, t.threshold x ≤ Chain.countdownCap := fun x =>
    le_trans (t.threshold_le_longest x) hbyte
  intro bit
  cases g with
  | defer s =>
    obtain ⟨s₀, hg, hwf, hidle⟩ := Defer.init_idle s L n
    have hbit : bit = fun i =>
        bitAt (runWith (fun s q c => s.step t q.elapsed q.raw c q.numRows q.changed)
          s₀ cooked p i).2 r c := by
      funext i
      simp only [bit, hg, Engine.run_defer]
    rw [hbit]
    exact spacing_of_spaced .asymDefer (fun _ => 0) (fun _ _ _ => by simp [Algorithm.spacing])
      fun _ _ => Defer.spaced_run cooked p r c hthr hwf hidle
  | chain s =>
    obtain ⟨s₀, hg, hwf, hidle⟩ := Chain.init_idle s L t n
    have hbit : bit = fun i =>
        bitAt (runWith (fun s q c => s.step L t q.elapsed q.raw c q.numRows q.changed)
          s₀ cooked p i).2 r c := by
      funext i
      simp only [bit, hg, Engine.run_chain]
    rw [hbit]
    exact spacing_of_spaced .eagerList (fun _ => 0) (fun _ _ _ => by simp [Algorithm.spacing])
      fun _ _ => Chain.spaced_run cooked p r c (hcap rfl) hthr hle hwf hidle
  | quiesce s =>
    obtain ⟨s₀, hg, hwf, hidle⟩ := Quiesce.init_idle s L n
    have hbit : bit = fun i =>
        bitAt (runWith (fun s q c => s.step t q.elapsed q.raw c q.numRows)
          s₀ cooked p i).2 r c := by
      funext i
      simp only [bit, hg, Engine.run_quiesce]
    rw [hbit]
    exact spacing_of_spaced .quiesce (quietPause t)
      (fun k _ hk => by simp [Algorithm.spacing, quietPause, Nat.pos_iff_ne_zero.mp hk])
      fun _ _ => Quiesce.spaced_run cooked p r c hwf hidle

/-- A key of a quiescing engine of eight rows of 64 keys, more than a chain can index, with a
quiet window of ten ticks, held pressed and reported changed on every pass of one tick. -/
theorem held_key_commits_spaced :
    let L : Layout := ⟨8, 64⟩
    let t : Timing := ⟨5, 5, 10⟩
    let p : Nat → Pass 64 := fun _ => ⟨1, [0b0001#64], 1, true⟩
    let bit := fun i => bitAt (((Engine.new .quiesce).init L 1).2.run L t [0#64] p i).2 0 0
    (0 < t.down ∧ 0 < t.up ∧ t.longest ≤ Chain.countdownCap ∧
      ((Engine.new .quiesce).kind = .eagerList → L.capacity * L.cols < Chain.null)) ∧
    (∀ k m, k < m → bit k ≠ bit (k - 1) →
      (∀ j, k < j → j < m → bit j = bit (j - 1)) →
      bit m ≠ bit (m - 1) → (Engine.new .quiesce).kind.spacing t (bit m) ≤ ticks p k m) ∧
    (∀ m, (∀ j, 0 < j → j < m → bit j = bit (j - 1)) → bit m ≠ bit (m - 1) →
      t.threshold (bit m) ≤ ticks p 1 m) :=
  ⟨⟨by decide, by decide, by decide, by decide⟩,
    commits_spaced (by decide) (by decide) (by decide) (Engine.new .quiesce) (by decide) 1 [0#64]
      (fun _ => ⟨1, [0b0001#64], 1, true⟩) 0 0⟩

end KeyDebounce
