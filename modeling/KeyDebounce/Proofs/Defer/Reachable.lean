import KeyDebounce.Proofs.Invariant

/-!
# Row counts of every reachable deferring engine

In every deferring engine reachable through any requests each row counts exactly its running
countdowns and no countdown exceeds the longer threshold. The count the row loop carries when it
reaches a key is the number of running countdowns among the keys it has stepped and those it has
not reached, so it has room for one more when the key is idle and is positive when the key is
running: with at most 255 columns the byte count never overflows or underflows. The keys in flight
are the running countdowns.
-/

set_option autoImplicit false

namespace KeyDebounce.Defer

variable {L : Layout} {t : Timing}

theorem keysStep_take_count_bounds (hthr : ∀ x, 0 < t.threshold x) {row : RowState}
    (hrow : row.WellFormed L) {w : Nat} (e : Nat) (changed : Bool) (x y : BitVec w) {j : Nat}
    (hj : j < row.counters.length) :
    let a := (keysStep t e changed x (x ^^^ y) 0 (row.counters.take j) row.active y).2.1
    (row.counters[j] = 0 → a + 1 ≤ L.cols) ∧ (0 < row.counters[j] → 1 ≤ a) := by
  intro a
  have h := keysWith_take_count_bounds (keyStep t e changed x (x ^^^ y)) (fun n => decide (0 < n))
    (by simpa using keyStep_count hthr e changed x (x ^^^ y)) 0 row.counters y hj
  rw [← hrow.2, hrow.1, ← keysStep_eq] at h
  exact ⟨fun hz => h.1 (by simp [hz]), fun hp => h.2 (by simpa using hp)⟩

/-- Every deferring engine reachable through any requests has no more rows than reserved, each
with one countdown per column and a count of its running countdowns, and no countdown past the
longer threshold. So, with at most 255 columns, the count the row loop holds when it reaches a key
leaves room to arm that key when it is idle and is positive when it is running: the byte count
never overflows or underflows. The keys in flight are the running countdowns. -/
theorem reachable_row_counts (hdown : 0 < t.down) (hup : 0 < t.up) (hcols : L.cols ≤ 255)
    {s : State} (h : (Engine.defer s).Reachable L t) :
    s.rows.length ≤ L.capacity ∧
    (∀ row ∈ s.rows, row.counters.length = L.cols ∧ row.active = row.counters.countP (0 < ·)) ∧
    (∀ r c, s.counter r c ≤ t.longest) ∧
    (∀ row ∈ s.rows, ∀ {w : Nat} (e : Nat) (changed : Bool) (x y : BitVec w) (j : Nat)
      (hj : j < row.counters.length),
      let a := (keysStep t e changed x (x ^^^ y) 0 (row.counters.take j) row.active y).2.1
      (row.counters[j] = 0 → a + 1 ≤ 255) ∧ (0 < row.counters[j] → 1 ≤ a)) ∧
    s.inFlight = (s.rows.flatMap (·.counters)).countP (0 < ·) := by
  have hthr : ∀ x, 0 < t.threshold x := Timing.threshold_pos hdown hup
  have hs : s.Invariant L t := Engine.invariant_of_reachable hthr (fun h => by cases h) h
  refine ⟨hs.fits, hs.wellFormed, hs.bounded, fun row hrow w e changed x y j hj => ?_, ?_⟩
  · have hb := keysStep_take_count_bounds hthr (hs.wellFormed row hrow) e changed x y hj
    exact ⟨fun hz => le_trans (hb.1 hz) hcols, hb.2⟩
  · -- each row's count is its number of running countdowns
    unfold State.inFlight
    rw [List.countP_flatMap]
    congr 1
    exact List.map_congr_left fun row hrow => (hs.wellFormed row hrow).2

/-- A one-row engine of four columns after a pass that arms two keys. -/
theorem armed_row_counts :
    let L : Layout := ⟨1, 4⟩
    let t : Timing := ⟨2, 8, 0⟩
    let s := ((⟨[RowState.idle 4]⟩ : State).step t 1 [0b0101#8] [0#8] 1 true).1
    (0 < t.down ∧ 0 < t.up ∧ L.cols ≤ 255 ∧ (Engine.defer s).Reachable L t) ∧
    s.rows.length ≤ L.capacity ∧
    (∀ row ∈ s.rows, row.counters.length = L.cols ∧ row.active = row.counters.countP (0 < ·)) ∧
    (∀ r c, s.counter r c ≤ t.longest) ∧
    (∀ row ∈ s.rows, ∀ {w : Nat} (e : Nat) (changed : Bool) (x y : BitVec w) (j : Nat)
      (hj : j < row.counters.length),
      let a := (keysStep t e changed x (x ^^^ y) 0 (row.counters.take j) row.active y).2.1
      (row.counters[j] = 0 → a + 1 ≤ 255) ∧ (0 < row.counters[j] → 1 ≤ a)) ∧
    s.inFlight = (s.rows.flatMap (·.counters)).countP (0 < ·) :=
  have h : (Engine.defer ((⟨[RowState.idle 4]⟩ : State).step ⟨2, 8, 0⟩ 1 [0b0101#8] [0#8] 1
      true).1).Reachable ⟨1, 4⟩ ⟨2, 8, 0⟩ :=
    .step 1 [0b0101#8] [0#8] 1 true (.init 1 (.new .asymDefer))
  ⟨⟨by decide, by decide, by decide, h⟩, reachable_row_counts (by decide) (by decide) (by decide) h⟩

end KeyDebounce.Defer
