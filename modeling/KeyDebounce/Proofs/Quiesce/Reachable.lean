import KeyDebounce.Proofs.Invariant

/-!
# Phases of every reachable quiescing engine

In every quiescing engine reachable through any requests each row counts exactly its keys that
are not waiting, and each key's countdown fits its phase: none while waiting, at most the longer
threshold while debouncing, and a positive one within the quiet window while quiescing, so with
no quiet window no key ever quiesces. The count the row loop carries when it reaches a key is the
number of busy keys among those it has stepped and those it has not reached, so with at most 255
columns the byte count never overflows when a waiting key starts debouncing and never underflows
when a busy key returns to waiting. The keys in flight are the busy keys.
-/

set_option autoImplicit false

namespace KeyDebounce.Quiesce

variable {L : Layout} {t : Timing}

theorem Key.Fits.waiting_iff {k : Key} (hk : k.Fits t) :
    k.phase = .waiting ↔ k.remaining = 0 := by
  unfold Key.Fits at hk
  cases hp : k.phase with
  | waiting => simpa [hp] using hk
  | debouncing =>
    rw [hp] at hk
    simp only [reduceCtorEq, false_iff]
    omega
  | quiescing =>
    rw [hp] at hk
    simp only [reduceCtorEq, false_iff]
    omega

theorem Key.Fits.debouncing {k : Key} (hk : k.Fits t) (hp : k.phase = .debouncing) :
    0 < k.remaining ∧ k.remaining ≤ t.longest := by
  unfold Key.Fits at hk
  rwa [hp] at hk

theorem Key.Fits.quiescing {k : Key} (hk : k.Fits t) (hp : k.phase = .quiescing) :
    0 < k.remaining ∧ k.remaining ≤ t.quiesce := by
  unfold Key.Fits at hk
  rwa [hp] at hk

theorem keysStep_take_count_bounds {row : RowState} (hrow : row.WellFormed L) {w : Nat} (e : Nat)
    (x y : BitVec w) {j : Nat} (hj : j < row.keys.length) :
    let a := (keysStep t e x (x ^^^ y) 0 (row.keys.take j) row.active y).2.1
    (row.keys[j].busy = false → a + 1 ≤ L.cols) ∧ (row.keys[j].busy = true → 1 ≤ a) := by
  intro a
  have h := keysWith_take_count_bounds
    (fun col k active c => keyStep t e x col (Row.bit (x ^^^ y) col) k active c) Key.busy
    (fun col k base c => keyStep_count e x col _ k base c) 0 row.keys y hj
  rw [← hrow.2, hrow.1, ← keysStep_eq] at h
  exact h

/-- Every quiescing engine reachable through any requests has no more rows than reserved, each
with one key per column and a count of its keys that are not waiting. A key is waiting exactly
when no countdown is left; a debouncing key counts down from at most the longer threshold, and a
quiescing key has a positive countdown within the quiet window, so none quiesces when there is no
quiet window. With at most 255 columns, the count the row loop holds when it reaches a key leaves
room to start debouncing that key when it is waiting and is positive when it is busy: the byte
count never overflows or underflows. The keys in flight are the busy keys. -/
theorem reachable_phases (hdown : 0 < t.down) (hup : 0 < t.up) (hcols : L.cols ≤ 255)
    {s : State} (h : (Engine.quiesce s).Reachable L t) :
    s.rows.length ≤ L.capacity ∧
    (∀ row ∈ s.rows, row.keys.length = L.cols ∧ row.active = row.keys.countP Key.busy) ∧
    (∀ r c, (s.key r c).phase = .waiting ↔ (s.key r c).remaining = 0) ∧
    (∀ r c, (s.key r c).phase = .debouncing → (s.key r c).remaining ≤ t.longest) ∧
    (∀ r c, (s.key r c).phase = .quiescing →
      0 < (s.key r c).remaining ∧ (s.key r c).remaining ≤ t.quiesce) ∧
    (t.quiesce = 0 → ∀ r c, (s.key r c).phase ≠ .quiescing) ∧
    (∀ row ∈ s.rows, ∀ {w : Nat} (e : Nat) (x y : BitVec w) (j : Nat)
      (hj : j < row.keys.length),
      let a := (keysStep t e x (x ^^^ y) 0 (row.keys.take j) row.active y).2.1
      (row.keys[j].busy = false → a + 1 ≤ 255) ∧ (row.keys[j].busy = true → 1 ≤ a)) ∧
    s.inFlight = (s.rows.flatMap (·.keys)).countP Key.busy := by
  have hthr : ∀ x, 0 < t.threshold x := Timing.threshold_pos hdown hup
  have hs : s.Invariant L t := Engine.invariant_of_reachable hthr (fun h => by cases h) h
  refine ⟨hs.fits, hs.wellFormed, fun r c => (hs.phases r c).waiting_iff,
    fun r c hp => ((hs.phases r c).debouncing hp).2, fun r c hp => (hs.phases r c).quiescing hp,
    fun h0 r c hp => ?_, fun row hrow w e x y j hj => ?_, ?_⟩
  · -- a quiescing key has a positive countdown within the quiet window
    have := (hs.phases r c).quiescing hp
    omega
  · have hb := @keysStep_take_count_bounds L t _ (hs.wellFormed row hrow) w e x y j hj
    exact ⟨fun hz => le_trans (hb.1 hz) hcols, hb.2⟩
  · -- each row's count is its number of busy keys
    unfold State.inFlight
    rw [List.countP_flatMap]
    congr 1
    exact List.map_congr_left fun row hrow => (hs.wellFormed row hrow).2

/-- A one-row engine of four columns after a pass that starts debouncing two keys. -/
theorem debouncing_row_phases :
    let L : Layout := ⟨1, 4⟩
    let t : Timing := ⟨2, 8, 3⟩
    let s := ((⟨[RowState.idle 4]⟩ : State).step t 1 [0b0101#8] [0#8] 1).1
    (0 < t.down ∧ 0 < t.up ∧ L.cols ≤ 255 ∧ (Engine.quiesce s).Reachable L t) ∧
    s.rows.length ≤ L.capacity ∧
    (∀ row ∈ s.rows, row.keys.length = L.cols ∧ row.active = row.keys.countP Key.busy) ∧
    (∀ r c, (s.key r c).phase = .waiting ↔ (s.key r c).remaining = 0) ∧
    (∀ r c, (s.key r c).phase = .debouncing → (s.key r c).remaining ≤ t.longest) ∧
    (∀ r c, (s.key r c).phase = .quiescing →
      0 < (s.key r c).remaining ∧ (s.key r c).remaining ≤ t.quiesce) ∧
    (t.quiesce = 0 → ∀ r c, (s.key r c).phase ≠ .quiescing) ∧
    (∀ row ∈ s.rows, ∀ {w : Nat} (e : Nat) (x y : BitVec w) (j : Nat)
      (hj : j < row.keys.length),
      let a := (keysStep t e x (x ^^^ y) 0 (row.keys.take j) row.active y).2.1
      (row.keys[j].busy = false → a + 1 ≤ 255) ∧ (row.keys[j].busy = true → 1 ≤ a)) ∧
    s.inFlight = (s.rows.flatMap (·.keys)).countP Key.busy :=
  have h : (Engine.quiesce ((⟨[RowState.idle 4]⟩ : State).step ⟨2, 8, 3⟩ 1 [0b0101#8] [0#8]
      1).1).Reachable ⟨1, 4⟩ ⟨2, 8, 3⟩ :=
    .step 1 [0b0101#8] [0#8] 1 true (.init 1 (.new .quiesce))
  ⟨⟨by decide, by decide, by decide, h⟩, reachable_phases (by decide) (by decide) (by decide) h⟩

end KeyDebounce.Quiesce
