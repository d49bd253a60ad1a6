import KeyDebounce.Debounce.Defer
import KeyDebounce.Proofs.Rows

/-!
# The deferring engine key by key

A pass of the deferring engine is the row and key loops of `scanWith` and `keysWith` with its own
key step. A row counts exactly its running countdowns, so a row that a pass skips has none, and
every key of a scanned row moves by `deferKey`: an edge seen with the change hint rearms it with
the threshold of its raw bit, a running countdown advances, and one that runs out copies the raw
bit into the cooked buffer. Main statement: `step_refines_keys`, a pass is this rule applied to
every key of the scanned rows, and skipping an idle row when nothing changed loses nothing.
-/

set_option autoImplicit false

namespace KeyDebounce.Defer

open Row

variable {w : Nat}

def keyStep (t : Timing) (e : Nat) (changed : Bool) (raw delta : BitVec w) (col count active : Nat)
    (cooked : BitVec w) : Nat × Nat × BitVec w :=
  if changed && bit delta col then
    (t.threshold (bit raw col), if count = 0 then active + 1 else active, cooked)
  else if e < count then (count - e, active, cooked)
  else if count ≠ 0 then (0, active - 1, commitKey cooked raw col)
  else (count, active, cooked)

theorem keysStep_eq (t : Timing) (e : Nat) (changed : Bool) (raw delta : BitVec w) :
    ∀ (col : Nat) (counters : List Nat) (active : Nat) (cooked : BitVec w),
      keysStep t e changed raw delta col counters active cooked =
        keysWith (keyStep t e changed raw delta) col counters active cooked
  | _, [], _, _ => rfl
  | col, count :: rest, active, cooked => by
    simp only [keysStep, keysWith, keysStep_eq t e changed raw delta (col + 1) rest]
    rfl

theorem scanRows_eq (t : Timing) (e : Nat) (changed : Bool) :
    ∀ (n : Nat) (rows : List RowState) (raw cooked : List (BitVec w)),
      scanRows t e changed n rows raw cooked =
        scanWith (fun r x c => rowStep t e changed x c r) n rows raw cooked
  | n + 1, r :: rows, x :: raw, c :: cooked => by
    rw [scanRows, scanWith, scanRows_eq t e changed n rows raw cooked]
  | 0, _, _, _ | _ + 1, [], _, _ | _ + 1, _ :: _, [], _ | _ + 1, _ :: _, _ :: _, [] => by
    simp [scanRows, scanWith]

def deferKey (t : Timing) (e : Nat) (changed x b : Bool) (n : Nat) : Nat × Bool :=
  if changed && x != b then (t.threshold x, b)
  else if e < n then (n - e, b)
  else if 0 < n then (0, x)
  else (n, b)

theorem bit_keyStep_of_ne (t : Timing) (e : Nat) (changed : Bool) (raw delta : BitVec w)
    (col count active : Nat) (cooked : BitVec w) {c : Nat} (hc : c ≠ col) :
    bit (keyStep t e changed raw delta col count active cooked).2.2 c = bit cooked c := by
  unfold keyStep
  split
  · rfl
  · split
    · rfl
    · split
      · rw [bit_commitKey_eq, if_neg hc]
      · rfl

theorem keyStep_key (t : Timing) (e : Nat) (changed : Bool) (raw delta : BitVec w)
    (col count active : Nat) (cooked : BitVec w)
    (hdelta : bit delta col = (bit raw col != bit cooked col)) :
    ((keyStep t e changed raw delta col count active cooked).1,
      bit (keyStep t e changed raw delta col count active cooked).2.2 col) =
      deferKey t e changed (bit raw col) (bit cooked col) count := by
  unfold keyStep deferKey
  rw [hdelta]
  split
  · rfl
  · split
    · rfl
    · simp only [ne_eq, Nat.pos_iff_ne_zero]
      split
      · rw [bit_commitKey_eq, if_pos rfl]
      · rfl

def State.counter (s : State) (r c : Nat) : Nat :=
  ((s.rows[r]?).map fun row => row.counters[c]?.getD 0).getD 0

def RowState.WellFormed (L : Layout) (row : RowState) : Prop :=
  row.counters.length = L.cols ∧ row.active = row.counters.countP (0 < ·)

/-- The invariant of the deferring engine: every row is well formed. -/
def State.WellFormed (s : State) (L : Layout) : Prop := ∀ row ∈ s.rows, row.WellFormed L

variable {L : Layout} {t : Timing}

theorem idle_wellFormed : (RowState.idle L.cols).WellFormed L := by
  simp [RowState.WellFormed, RowState.idle, List.countP_replicate]

theorem wellFormed_init {n : Nat} {s : State} (h : State.init L n = .ok s) : s.WellFormed L := by
  unfold State.init at h
  split at h
  · cases h
    intro row hrow
    rw [List.eq_of_mem_replicate hrow]
    exact idle_wellFormed
  · cases h

theorem wellFormed_empty : State.empty.WellFormed L := by
  simp [State.WellFormed, State.empty]

theorem counter_eq_zero_of_idle {row : RowState} (hrow : row.WellFormed L) (h : row.active = 0)
    {c : Nat} (hc : c < row.counters.length) : row.counters[c] = 0 := by
  rw [hrow.2, List.countP_eq_zero] at h
  simpa using h _ (List.getElem_mem hc)

theorem keyStep_count (hthr : ∀ x, 0 < t.threshold x) (e : Nat) (changed : Bool)
    (raw delta : BitVec w)
    (col count base : Nat) (cooked : BitVec w) :
    (keyStep t e changed raw delta col count (base + if 0 < count then 1 else 0) cooked).2.1 =
      base + if 0 < (keyStep t e changed raw delta col count
        (base + if 0 < count then 1 else 0) cooked).1 then 1 else 0 := by
  have hpos := hthr (bit raw col)
  unfold keyStep
  split
  · -- an idle key becomes busy, a busy one stays busy
    by_cases h : count = 0
    · simp [h]
    · dsimp only
      rw [if_neg h, if_pos (Nat.pos_of_ne_zero h)]
  · split
    · simp only [show 0 < count by omega, show 0 < count - e by omega, if_true]
    · split
      · rename_i hcount
        simp [Nat.pos_of_ne_zero hcount]
      · simp_all

theorem length_rowStep (e : Nat) (changed : Bool) (raw cooked : BitVec w) (row : RowState) :
    (rowStep t e changed raw cooked row).1.counters.length = row.counters.length := by
  unfold rowStep
  split
  · rfl
  · simp only [keysStep_eq, length_keysWith]

theorem rowStep_wellFormed (hthr : ∀ x, 0 < t.threshold x) (e : Nat) (changed : Bool)
    (raw cooked : BitVec w) {row : RowState} (hrow : row.WellFormed L) :
    (rowStep t e changed raw cooked row).1.WellFormed L := by
  by_cases hskip : (row.active = 0 && !changed) = true
  · simpa [rowStep, hskip] using hrow
  · have hcount := keysWith_countP (keyStep t e changed raw (raw ^^^ cooked))
      (fun n => decide (0 < n))
      (by simpa using keyStep_count hthr e changed raw (raw ^^^ cooked)) 0 row.counters 0 cooked
    rw [Nat.zero_add, ← hrow.2] at hcount
    refine ⟨(length_rowStep e changed raw cooked row).trans hrow.1, ?_⟩
    simpa [rowStep, hskip, keysStep_eq] using hcount

theorem step_eq (s : State) (t : Timing) (e : Nat) (raw cooked : List (BitVec w)) (numRows : Nat)
    (changed : Bool) :
    s.step t e raw cooked numRows changed =
      let out := scanWith (fun r x c => rowStep t e changed x c r)
        (rowsToScan numRows s.rows.length raw.length cooked.length) s.rows raw cooked
      (⟨out.1⟩, out.2) := by
  simp only [State.step, scanRows_eq]

theorem wellFormed_step (hthr : ∀ x, 0 < t.threshold x) {s : State} (hs : s.WellFormed L)
    (e : Nat) (raw cooked : List (BitVec w)) (numRows : Nat) (changed : Bool) :
    (s.step t e raw cooked numRows changed).1.WellFormed L := by
  rw [step_eq]
  exact scanWith_forall _ (RowState.WellFormed L)
    (fun r x c hr => rowStep_wellFormed hthr e changed x c hr) _ _ _ _ hs

theorem length_step (s : State) (e : Nat) (raw cooked : List (BitVec w)) (numRows : Nat)
    (changed : Bool) :
    (s.step t e raw cooked numRows changed).1.rows.length = s.rows.length ∧
      (s.step t e raw cooked numRows changed).2.length = cooked.length := by
  rw [step_eq]
  exact length_scanWith _ _ _ _ _

theorem rowStep_key (e : Nat) (changed : Bool) (raw cooked : BitVec w) {row : RowState}
    (hrow : row.WellFormed L) {c : Nat} (hc : c < L.cols) :
    ((rowStep t e changed raw cooked row).1.counters[c]?.getD 0,
      bit (rowStep t e changed raw cooked row).2 c) =
      deferKey t e changed (bit raw c) (bit cooked c) (row.counters[c]?.getD 0) := by
  have hc' : c < row.counters.length := hrow.1 ▸ hc
  unfold rowStep
  split
  · -- a skipped row has no running countdown and no change to see
    rename_i hskip
    simp only [Bool.and_eq_true, decide_eq_true_eq, Bool.not_eq_true'] at hskip
    rw [List.getElem?_eq_getElem hc', Option.getD_some, counter_eq_zero_of_idle hrow hskip.1 hc']
    simp [deferKey, hskip.2]
  · obtain ⟨a', x, hx, hk, hb⟩ := keysWith_key (keyStep t e changed raw (raw ^^^ cooked))
      (fun col count active x c hc => bit_keyStep_of_ne t e changed raw _ col count active x hc)
      0 row.counters row.active cooked c hc'
    rw [Nat.zero_add] at hx hk hb
    simp only [keysStep_eq]
    rw [hk, hb, List.getElem?_eq_getElem hc', Option.getD_some, Option.getD_some, ← hx]
    apply keyStep_key
    rw [hx]
    simp [bit]

theorem bit_rowStep_of_le (e : Nat) (changed : Bool) (raw cooked : BitVec w) {row : RowState}
    (hrow : row.WellFormed L) {c : Nat} (hc : L.cols ≤ c) :
    bit (rowStep t e changed raw cooked row).2 c = bit cooked c := by
  unfold rowStep
  split
  · rfl
  · simp only [keysStep_eq]
    exact bit_keysWith_of_not_mem _
      (fun col count active x c hc => bit_keyStep_of_ne t e changed raw _ col count active x hc)
      0 row.counters row.active cooked c (by rw [hrow.1]; omega)

theorem rowStep_key_or_keep (e : Nat) (changed : Bool) (raw cooked : BitVec w) {row : RowState}
    (hrow : row.WellFormed L) (c : Nat) :
    ((rowStep t e changed raw cooked row).1.counters[c]?.getD 0,
      bit (rowStep t e changed raw cooked row).2 c) =
      if c < L.cols then deferKey t e changed (bit raw c) (bit cooked c) (row.counters[c]?.getD 0)
      else (row.counters[c]?.getD 0, bit cooked c) := by
  by_cases hc : c < L.cols
  · rw [if_pos hc]
    exact rowStep_key e changed raw cooked hrow hc
  · have hlen : (rowStep t e changed raw cooked row).1.counters.length ≤ c := by
      rw [length_rowStep, hrow.1]
      omega
    rw [if_neg hc, List.getElem?_eq_none hlen,
      List.getElem?_eq_none (hrow.1 ▸ Nat.le_of_not_lt hc),
      bit_rowStep_of_le e changed raw cooked hrow (Nat.le_of_not_lt hc)]

/-- Each key of a pass over a well-formed engine moves by `deferKey` when its row is scanned and
its column exists, and stays as it is otherwise. -/
theorem step_key {s : State} (hs : s.WellFormed L) (e : Nat) (raw cooked : List (BitVec w))
    (numRows : Nat) (changed : Bool) (r c : Nat) :
    ((s.step t e raw cooked numRows changed).1.counter r c,
      bitAt (s.step t e raw cooked numRows changed).2 r c) =
      if r < rowsToScan numRows s.rows.length raw.length cooked.length ∧ c < L.cols then
        deferKey t e changed (bitAt raw r c) (bitAt cooked r c) (s.counter r c)
      else (s.counter r c, bitAt cooked r c) := by
  rw [step_eq]
  exact scanWith_scanned_key _ (RowState.WellFormed L) (fun row => row.counters[c]?.getD 0) 0 c
    L.cols (deferKey t e changed) (fun row x y hrow => rowStep_key_or_keep e changed x y hrow c)
    numRows s.rows raw cooked hs r

theorem rowStep_skip_exact (e : Nat) (raw cooked : BitVec w) {row : RowState}
    (hrow : row.WellFormed L) (hidle : row.active = 0) :
    rowStep t e false raw cooked row = (row, cooked) ∧
      keysStep t e false raw (raw ^^^ cooked) 0 row.counters row.active cooked =
        (row.counters, row.active, cooked) := by
  refine ⟨by simp [rowStep, hidle], ?_⟩
  rw [keysStep_eq]
  apply keysWith_eq_self
  intro j hj
  simp [keyStep, counter_eq_zero_of_idle hrow hidle hj]

/-- A pass over a deferring engine whose rows count their running countdowns moves each key of a
scanned row, in an existing column, by `deferKey`: from its own countdown, raw bit and cooked bit,
the change hint and the ticks, and from nothing else. Rows past the scan keep their countdowns and
their cooked row, and no cooked bit past the columns changes. Skipping a row with nothing running
when no change is reported is exact: the key loop would leave row and cooked row as they are. -/
theorem step_refines_keys {s : State} (hs : s.WellFormed L) (e : Nat)
    (raw cooked : List (BitVec w)) (numRows : Nat) (changed : Bool) :
    let out := s.step t e raw cooked numRows changed
    let n := rowsToScan numRows s.rows.length raw.length cooked.length
    (∀ r c, r < n → c < L.cols →
      (out.1.counter r c, bitAt out.2 r c) =
        deferKey t e changed (bitAt raw r c) (bitAt cooked r c) (s.counter r c)) ∧
    (∀ r, n ≤ r → out.1.rows[r]? = s.rows[r]? ∧ out.2[r]? = cooked[r]?) ∧
    (∀ r c, L.cols ≤ c → bitAt out.2 r c = bitAt cooked r c) ∧
    out.1.rows.length = s.rows.length ∧ out.2.length = cooked.length ∧
    (changed = false → ∀ row ∈ s.rows, row.active = 0 → ∀ x y : BitVec w,
      rowStep t e changed x y row = (row, y) ∧
        keysStep t e changed x (x ^^^ y) 0 row.counters row.active y =
          (row.counters, row.active, y)) := by
  dsimp only
  have hkey := @step_key w L t s hs e raw cooked numRows changed
  obtain ⟨hrows, hcooked⟩ := @length_step w t s e raw cooked numRows changed
  refine ⟨fun r c hr hc => ?_, fun r hr => ?_, fun r c hc => ?_, hrows, hcooked,
    fun hquiet row hrow hidle x y => ?_⟩
  · rw [hkey r c, if_pos ⟨hr, hc⟩]
  · rw [step_eq]
    exact scanWith_of_le _ _ _ _ _ r (.inl hr)
  · -- a column past the row keeps its cooked bit, scanned or not
    have h := congrArg Prod.snd (hkey r c)
    rw [apply_ite Prod.snd, if_neg fun h => Nat.not_le_of_lt h.2 hc] at h
    exact h
  · subst hquiet
    exact rowStep_skip_exact e x y (hs row hrow) hidle

/-- A two-row engine of four columns, one row with a countdown running and one idle row whose
raw and cooked bits differ, in a pass that reports no change: the idle row is skipped. -/
theorem running_row_refines_keys :
    let L : Layout := ⟨2, 4⟩
    let t : Timing := ⟨2, 8, 0⟩
    let s : State := ⟨[⟨[0, 3, 0, 0], 1⟩, RowState.idle 4]⟩
    let raw := [0b0101#8, 0b1000#8]
    let cooked := [0b0010#8, 0#8]
    s.WellFormed L ∧
    let out := s.step t 1 raw cooked 2 false
    let n := rowsToScan 2 s.rows.length raw.length cooked.length
    (∀ r c, r < n → c < L.cols →
      (out.1.counter r c, bitAt out.2 r c) =
        deferKey t 1 false (bitAt raw r c) (bitAt cooked r c) (s.counter r c)) ∧
    (∀ r, n ≤ r → out.1.rows[r]? = s.rows[r]? ∧ out.2[r]? = cooked[r]?) ∧
    (∀ r c, L.cols ≤ c → bitAt out.2 r c = bitAt cooked r c) ∧
    out.1.rows.length = s.rows.length ∧ out.2.length = cooked.length ∧
    (false = false → ∀ row ∈ s.rows, row.active = 0 → ∀ x y : BitVec 8,
      rowStep t 1 false x y row = (row, y) ∧
        keysStep t 1 false x (x ^^^ y) 0 row.counters row.active y =
          (row.counters, row.active, y)) :=
  have hs : (⟨[⟨[0, 3, 0, 0], 1⟩, RowState.idle 4]⟩ : State).WellFormed ⟨2, 4⟩ := by
    simp [State.WellFormed, RowState.WellFormed, RowState.idle]
  ⟨hs, step_refines_keys hs 1 [0b0101#8, 0b1000#8] [0b0010#8, 0#8] 2 false⟩

end KeyDebounce.Defer
