import KeyDebounce.Debounce.Quiesce
import KeyDebounce.Debounce.Engine
import KeyDebounce.Proofs.Rows

/-!
# The quiescing engine key by key

A pass of the quiescing engine is the row and key loops of `scanWith` and `keysWith` with
`keyStep`. A row counts exactly its keys that are not waiting, so a row that a pass skips has every
key waiting and raw equal to cooked, and every key of a scanned row moves by `quiesceKey`. Main
statement: `step_refines_phases`, a pass is this rule applied to every key of the scanned rows,
whatever the change hint, and skipping a quiet row loses nothing.
-/

set_option autoImplicit false

namespace KeyDebounce.Quiesce

open Row

variable {w : Nat}

theorem keysStep_eq (t : Timing) (e : Nat) (raw delta : BitVec w) :
    ∀ (col : Nat) (keys : List Key) (active : Nat) (cooked : BitVec w),
      keysStep t e raw delta col keys active cooked =
        keysWith (fun col k active cooked => keyStep t e raw col (bit delta col) k active cooked)
          col keys active cooked
  | _, [], _, _ => rfl
  | col, k :: rest, active, cooked => by
    simp only [keysStep, keysWith, keysStep_eq t e raw delta (col + 1) rest]

theorem scanRows_eq (t : Timing) (e : Nat) :
    ∀ (n : Nat) (rows : List RowState) (raw cooked : List (BitVec w)),
      scanRows t e n rows raw cooked = scanWith (fun r x c => rowStep t e x c r) n rows raw cooked
  | n + 1, r :: rows, x :: raw, c :: cooked => by
    rw [scanRows, scanWith, scanRows_eq t e n rows raw cooked]
  | 0, _, _, _ | _ + 1, [], _, _ | _ + 1, _ :: _, [], _ | _ + 1, _ :: _, _ :: _, [] => by
    simp [scanRows, scanWith]

theorem step_eq (s : State) (t : Timing) (e : Nat) (raw cooked : List (BitVec w)) (numRows : Nat) :
    s.step t e raw cooked numRows =
      let out := scanWith (fun r x c => rowStep t e x c r)
        (rowsToScan numRows s.rows.length raw.length cooked.length) s.rows raw cooked
      (⟨out.1⟩, out.2) := by
  simp only [State.step, scanRows_eq]

def quiesceKey (t : Timing) (e : Nat) (x b : Bool) (k : Key) : Key × Bool :=
  match k.phase with
  | .waiting => if x != b then (⟨.debouncing, t.threshold x⟩, b) else (k, b)
  | .debouncing =>
    if x == b then (Key.waiting, b)
    else if e < k.remaining then ({ k with remaining := k.remaining - e }, b)
    else if t.quiesce = 0 then (Key.waiting, x)
    else (⟨.quiescing, t.quiesce⟩, x)
  | .quiescing =>
    if e < k.remaining then ({ k with remaining := k.remaining - e }, b) else (Key.waiting, b)

theorem bit_keyStep_of_ne (t : Timing) (e : Nat) (raw : BitVec w) (col : Nat) (edge : Bool)
    (k : Key)
    (active : Nat) (cooked : BitVec w) {c : Nat} (hc : c ≠ col) :
    bit (keyStep t e raw col edge k active cooked).2.2 c = bit cooked c := by
  unfold keyStep
  split
  · split <;> rfl
  · split
    · rfl
    · split
      · rfl
      · split <;> rw [bit_commitKey_eq, if_neg hc]
  · split <;> rfl

theorem keyStep_key (t : Timing) (e : Nat) (raw : BitVec w) (col : Nat) (k : Key) (active : Nat)
    (cooked : BitVec w) :
    ((keyStep t e raw col (bit raw col != bit cooked col) k active cooked).1,
      bit (keyStep t e raw col (bit raw col != bit cooked col) k active cooked).2.2 col) =
      quiesceKey t e (bit raw col) (bit cooked col) k := by
  have hne : (!(bit raw col != bit cooked col)) = (bit raw col == bit cooked col) := by
    cases bit raw col <;> cases bit cooked col <;> rfl
  cases hp : k.phase with
  | waiting =>
    simp only [keyStep, quiesceKey, hp]
    split <;> rfl
  | debouncing =>
    simp only [keyStep, quiesceKey, hp, hne]
    split
    · rfl
    · split
      · rfl
      · split <;> simp [bit_commitKey_eq]
  | quiescing =>
    simp only [keyStep, quiesceKey, hp]
    split <;> rfl

def State.key (s : State) (r c : Nat) : Key :=
  ((s.rows[r]?).map fun row => row.keys[c]?.getD Key.waiting).getD Key.waiting

def Key.busy (k : Key) : Bool := k.phase != .waiting

def RowState.WellFormed (L : Layout) (row : RowState) : Prop :=
  row.keys.length = L.cols ∧ row.active = row.keys.countP Key.busy

/-- The invariant of the quiescing engine: every row is well formed. -/
def State.WellFormed (s : State) (L : Layout) : Prop := ∀ row ∈ s.rows, row.WellFormed L

variable {L : Layout} {t : Timing}

theorem idle_wellFormed : (RowState.idle L.cols).WellFormed L := by
  simp [RowState.WellFormed, RowState.idle, List.countP_replicate, Key.busy, Key.waiting]

theorem wellFormed_init {n : Nat} {s : State} (h : State.init L n = .ok s) : s.WellFormed L := by
  unfold State.init at h
  split at h
  · cases h
    intro row hrow
    rw [List.eq_of_mem_replicate hrow]
    exact idle_wellFormed
  · cases h

theorem wellFormed_empty : State.empty.WellFormed L := by
  simp [State.WellFormed, State.empty]

theorem phase_eq_waiting_of_idle {row : RowState} (hrow : row.WellFormed L) (h : row.active = 0)
    {c : Nat} (hc : c < row.keys.length) : row.keys[c].phase = .waiting := by
  rw [hrow.2, List.countP_eq_zero] at h
  simpa [Key.busy] using h _ (List.getElem_mem hc)

theorem keyStep_count (e : Nat) (raw : BitVec w) (col : Nat) (edge : Bool) (k : Key) (base : Nat)
    (cooked : BitVec w) :
    (keyStep t e raw col edge k (base + if k.busy then 1 else 0) cooked).2.1 =
      base + if (keyStep t e raw col edge k (base + if k.busy then 1 else 0) cooked).1.busy
        then 1 else 0 := by
  cases hp : k.phase with
  | waiting =>
    simp only [keyStep, Key.busy, hp]
    split
    · simp
    · simp [hp]
  | debouncing =>
    simp only [keyStep, Key.busy, hp]
    split
    · simp [Key.waiting]
    · split
      · simp
      · split <;> simp [Key.waiting]
  | quiescing =>
    simp only [keyStep, Key.busy, hp]
    split
    · simp
    · simp [Key.waiting]

theorem rowStep_of_skip (e : Nat) {raw cooked : BitVec w} {row : RowState}
    (h : row.active = 0 ∧ raw = cooked) :
    rowStep t e raw cooked row = (row, cooked) := by
  simp [rowStep, h]

theorem rowStep_of_scan (e : Nat) {raw cooked : BitVec w} {row : RowState}
    (h : ¬(row.active = 0 ∧ raw = cooked)) :
    rowStep t e raw cooked row =
      let out := keysWith
        (fun col k active x => keyStep t e raw col (bit (raw ^^^ cooked) col) k active x) 0
        row.keys row.active cooked
      (⟨out.1, out.2.1⟩, out.2.2) := by
  unfold rowStep
  dsimp only
  rw [if_neg (by simpa using h), keysStep_eq]

theorem length_rowStep (e : Nat) (raw cooked : BitVec w) (row : RowState) :
    (rowStep t e raw cooked row).1.keys.length = row.keys.length := by
  by_cases hskip : row.active = 0 ∧ raw = cooked
  · rw [rowStep_of_skip e hskip]
  · rw [rowStep_of_scan e hskip]
    exact length_keysWith _ _ _ _ _

theorem rowStep_wellFormed (e : Nat) (raw cooked : BitVec w) {row : RowState}
    (hrow : row.WellFormed L) :
    (rowStep t e raw cooked row).1.WellFormed L := by
  by_cases hskip : row.active = 0 ∧ raw = cooked
  · rwa [rowStep_of_skip e hskip]
  · have hcount := keysWith_countP
      (fun col k active x => keyStep t e raw col (bit (raw ^^^ cooked) col) k active x)
      Key.busy (fun col k base x => keyStep_count e raw col _ k base x) 0 row.keys 0 cooked
    simp only [Nat.zero_add, ← hrow.2] at hcount
    refine ⟨(length_rowStep e raw cooked row).trans hrow.1, ?_⟩
    rw [rowStep_of_scan e hskip]
    exact hcount

theorem length_step (s : State) (e : Nat) (raw cooked : List (BitVec w)) (numRows : Nat) :
    (s.step t e raw cooked numRows).1.rows.length = s.rows.length ∧
      (s.step t e raw cooked numRows).2.length = cooked.length := by
  rw [step_eq]
  exact length_scanWith _ _ _ _ _

theorem wellFormed_step {s : State} (hs : s.WellFormed L) (e : Nat) (raw cooked : List (BitVec w))
    (numRows : Nat) : (s.step t e raw cooked numRows).1.WellFormed L := by
  rw [step_eq]
  exact scanWith_forall _ (RowState.WellFormed L) (fun r x c hr => rowStep_wellFormed e x c hr)
    _ _ _ _ hs

theorem rowStep_key (e : Nat) (raw cooked : BitVec w) {row : RowState} (hrow : row.WellFormed L)
    {c : Nat}
    (hc : c < L.cols) :
    ((rowStep t e raw cooked row).1.keys[c]?.getD Key.waiting,
      bit (rowStep t e raw cooked row).2 c) =
      quiesceKey t e (bit raw c) (bit cooked c) (row.keys[c]?.getD Key.waiting) := by
  have hc' : c < row.keys.length := hrow.1 ▸ hc
  have hdelta : bit (raw ^^^ cooked) c = (bit raw c != bit cooked c) := by
    simp [bit, BitVec.getLsbD_xor]
  by_cases hskip : row.active = 0 ∧ raw = cooked
  · -- a skipped row has every key waiting and raw equal to cooked
    rw [rowStep_of_skip e hskip, List.getElem?_eq_getElem hc', Option.getD_some]
    simp [quiesceKey, phase_eq_waiting_of_idle hrow hskip.1 hc', hskip.2]
  · rw [rowStep_of_scan e hskip]
    obtain ⟨a', x, hx, hk, hb⟩ := keysWith_key
      (fun col k active x => keyStep t e raw col (bit (raw ^^^ cooked) col) k active x)
      (fun col k active x c hc => bit_keyStep_of_ne t e raw col _ k active x hc) 0 row.keys
      row.active cooked c hc'
    rw [Nat.zero_add] at hx hk hb
    dsimp only
    rw [hk, hb, List.getElem?_eq_getElem hc', Option.getD_some, Option.getD_some, ← hx, hdelta,
      ← hx]
    exact keyStep_key t e raw c _ a' x

theorem bit_rowStep_of_le (e : Nat) (raw cooked : BitVec w) {row : RowState}
    (hrow : row.WellFormed L)
    {c : Nat} (hc : L.cols ≤ c) : bit (rowStep t e raw cooked row).2 c = bit cooked c := by
  by_cases hskip : row.active = 0 ∧ raw = cooked
  · rw [rowStep_of_skip e hskip]
  · rw [rowStep_of_scan e hskip]
    exact bit_keysWith_of_not_mem _
      (fun col k active x c hc => bit_keyStep_of_ne t e raw col _ k active x hc)
      0 row.keys row.active cooked c (by rw [hrow.1]; omega)

theorem rowStep_key_or_keep (e : Nat) (raw cooked : BitVec w) {row : RowState}
    (hrow : row.WellFormed L)
    (c : Nat) :
    ((rowStep t e raw cooked row).1.keys[c]?.getD Key.waiting,
      bit (rowStep t e raw cooked row).2 c) =
      if c < L.cols then quiesceKey t e (bit raw c) (bit cooked c) (row.keys[c]?.getD Key.waiting)
      else (row.keys[c]?.getD Key.waiting, bit cooked c) := by
  by_cases hc : c < L.cols
  · rw [if_pos hc]
    exact rowStep_key e raw cooked hrow hc
  · have hlen : (rowStep t e raw cooked row).1.keys.length ≤ c := by
      rw [length_rowStep, hrow.1]
      omega
    rw [if_neg hc, List.getElem?_eq_none hlen,
      List.getElem?_eq_none (hrow.1 ▸ Nat.le_of_not_lt hc),
      bit_rowStep_of_le e raw cooked hrow (Nat.le_of_not_lt hc)]

/-- Each key of a pass over a well-formed engine moves by `quiesceKey` when its row is scanned
and its column exists, and stays as it is otherwise. -/
theorem step_key {s : State} (hs : s.WellFormed L) (e : Nat) (raw cooked : List (BitVec w))
    (numRows : Nat) (r c : Nat) :
    ((s.step t e raw cooked numRows).1.key r c, bitAt (s.step t e raw cooked numRows).2 r c) =
      if r < rowsToScan numRows s.rows.length raw.length cooked.length ∧ c < L.cols then
        quiesceKey t e (bitAt raw r c) (bitAt cooked r c) (s.key r c)
      else (s.key r c, bitAt cooked r c) := by
  rw [step_eq]
  exact scanWith_scanned_key _ (RowState.WellFormed L) (fun row => row.keys[c]?.getD Key.waiting)
    Key.waiting c L.cols (quiesceKey t e) (fun row x y hrow => rowStep_key_or_keep e x y hrow c)
    numRows s.rows raw cooked hs r

theorem rowStep_skip_exact (e : Nat) (x : BitVec w) {row : RowState} (hrow : row.WellFormed L)
    (hidle : row.active = 0) :
    rowStep t e x x row = (row, x) ∧
      keysStep t e x (x ^^^ x) 0 row.keys row.active x = (row.keys, row.active, x) := by
  refine ⟨rowStep_of_skip e ⟨hidle, rfl⟩, ?_⟩
  rw [keysStep_eq]
  apply keysWith_eq_self
  intro j hj
  simp [keyStep, phase_eq_waiting_of_idle hrow hidle hj, bit]

/-- A pass over a quiescing engine whose rows count their keys that are not waiting moves each
key of a scanned row, in an existing column, by `quiesceKey`, told whether its raw and cooked bits
differ. Rows past the scan keep their keys and their cooked row, no cooked bit past the columns
changes, and the change hint is not read. Skipping a row with every key waiting and raw equal to
cooked is exact: the key loop would leave row and cooked row as they are. -/
theorem step_refines_phases {s : State} (hs : s.WellFormed L) (e : Nat)
    (raw cooked : List (BitVec w)) (numRows : Nat) :
    let out := s.step t e raw cooked numRows
    let n := rowsToScan numRows s.rows.length raw.length cooked.length
    (∀ r c, r < n → c < L.cols →
      (out.1.key r c, bitAt out.2 r c) =
        quiesceKey t e (bitAt raw r c) (bitAt cooked r c) (s.key r c)) ∧
    (∀ r, n ≤ r → out.1.rows[r]? = s.rows[r]? ∧ out.2[r]? = cooked[r]?) ∧
    (∀ r c, L.cols ≤ c → bitAt out.2 r c = bitAt cooked r c) ∧
    out.1.rows.length = s.rows.length ∧ out.2.length = cooked.length ∧
    (∀ changed, (Engine.quiesce s).step L t e raw cooked numRows changed =
      (.quiesce out.1, out.2)) ∧
    (∀ row ∈ s.rows, row.active = 0 → ∀ x : BitVec w,
      rowStep t e x x row = (row, x) ∧
        keysStep t e x (x ^^^ x) 0 row.keys row.active x = (row.keys, row.active, x)) := by
  dsimp only
  have hkey := @step_key w L t s hs e raw cooked numRows
  obtain ⟨hrows, hcooked⟩ := @length_step w t s e raw cooked numRows
  refine ⟨fun r c hr hc => ?_, fun r hr => ?_, fun r c hc => ?_, hrows, hcooked,
    fun changed => rfl, fun row hrow hidle x => rowStep_skip_exact e x (hs row hrow) hidle⟩
  · rw [hkey r c, if_pos ⟨hr, hc⟩]
  · rw [step_eq]
    exact scanWith_of_le _ _ _ _ _ r (.inl hr)
  · -- a column past the row keeps its cooked bit, scanned or not
    have h := congrArg Prod.snd (hkey r c)
    rw [apply_ite Prod.snd, if_neg fun h => Nat.not_le_of_lt h.2 hc] at h
    exact h

/-- A one-row engine of four columns with one key debouncing, one quiescing and one waiting key
whose raw and cooked bits differ, in a pass of two ticks. -/
theorem debouncing_row_refines_phases :
    let L : Layout := ⟨1, 4⟩
    let t : Timing := ⟨2, 3, 4⟩
    let s : State := ⟨[⟨[⟨.debouncing, 2⟩, ⟨.quiescing, 3⟩, Key.waiting, Key.waiting], 2⟩]⟩
    let raw := [0b0101#8]
    let cooked := [0b0000#8]
    s.WellFormed L ∧
    let out := s.step t 2 raw cooked 1
    let n := rowsToScan 1 s.rows.length raw.length cooked.length
    (∀ r c, r < n → c < L.cols →
      (out.1.key r c, bitAt out.2 r c) =
        quiesceKey t 2 (bitAt raw r c) (bitAt cooked r c) (s.key r c)) ∧
    (∀ r, n ≤ r → out.1.rows[r]? = s.rows[r]? ∧ out.2[r]? = cooked[r]?) ∧
    (∀ r c, L.cols ≤ c → bitAt out.2 r c = bitAt cooked r c) ∧
    out.1.rows.length = s.rows.length ∧ out.2.length = cooked.length ∧
    (∀ changed, (Engine.quiesce s).step L t 2 raw cooked 1 changed = (.quiesce out.1, out.2)) ∧
    (∀ row ∈ s.rows, row.active = 0 → ∀ x : BitVec 8,
      rowStep t 2 x x row = (row, x) ∧
        keysStep t 2 x (x ^^^ x) 0 row.keys row.active x = (row.keys, row.active, x)) :=
  have hs : (⟨[⟨[⟨.debouncing, 2⟩, ⟨.quiescing, 3⟩, Key.waiting, Key.waiting], 2⟩]⟩ :
      State).WellFormed ⟨1, 4⟩ := by
    intro row hrow
    rw [List.mem_singleton] at hrow
    subst hrow
    exact ⟨rfl, by decide⟩
  ⟨hs, step_refines_phases hs 2 [0b0101#8] [0b0000#8] 1⟩

end KeyDebounce.Quiesce
