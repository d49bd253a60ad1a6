import KeyDebounce.Tracker
import KeyDebounce.Proofs.Bits

/-!
# What the change tracker reports

`update` walks the stored sample and a new one side by side, over the rows both hold: it reports a
change exactly when one of those rows differs, stores them, and keeps every stored row past the
end of a short sample. Fed samples that all hold row `r` of the stored sample, the tracker
therefore holds row `r` of the previous sample at every update, and a key of that row never
changes between two samples without the second update reporting it: the honest hint that the
deferring engine's commit window asks of its caller.
-/

set_option autoImplicit false

namespace KeyDebounce.Tracker

open Row

variable {w : Nat}

theorem getElem?_refresh (ps rs : List (BitVec w)) (i : Nat) :
    (refresh ps rs).2[i]? = if i < min ps.length rs.length then rs[i]? else ps[i]? := by
  induction ps generalizing rs i with
  | nil => cases rs <;> simp [refresh]
  | cons p ps ih =>
    cases rs with
    | nil => simp [refresh]
    | cons r rs =>
      cases i with
      | zero => simp [refresh]
      | succ i => simp [refresh, ih, Nat.succ_min_succ]

theorem refresh_reports_iff (ps rs : List (BitVec w)) :
    (refresh ps rs).1 = true ↔ ∃ i, i < min ps.length rs.length ∧ rs[i]? ≠ ps[i]? := by
  induction ps generalizing rs with
  | nil => simp [refresh]
  | cons p ps ih =>
    cases rs with
    | nil => simp [refresh]
    | cons r rs =>
      simp only [refresh, Bool.or_eq_true, bne_iff_ne, ne_eq, ih]
      constructor
      · rintro (h | ⟨i, hi, h⟩)
        · exact ⟨0, by simp, by simpa [eq_comm] using h⟩
        · exact ⟨i + 1, by simp [Nat.succ_min_succ]; omega, by simpa using h⟩
      · rintro ⟨i, hi, h⟩
        -- the first rows, or a pair further along
        cases i with
        | zero => exact Or.inl (by simpa [eq_comm] using h)
        | succ i => exact Or.inr ⟨i, by simp [Nat.succ_min_succ] at hi; omega, by simpa using h⟩

def feed (t : Tracker w) (raw : Nat → List (BitVec w)) : Nat → Bool × Tracker w
  | 0 => (false, t)
  | i + 1 => (feed t raw i).2.update (raw (i + 1))

theorem length_feed (t : Tracker w) (raw : Nat → List (BitVec w)) (i : Nat) :
    (t.feed raw i).2.previous.length = t.previous.length := by
  induction i with
  | zero => rfl
  | succ i ih => rw [feed, update, ← ih, length_refresh]

theorem feed_row (t : Tracker w) (raw : Nat → List (BitVec w)) {r i : Nat}
    (hr : r < t.previous.length) (hraw : r < (raw (i + 1)).length) :
    (t.feed raw (i + 1)).2.previous[r]? = (raw (i + 1))[r]? := by
  have hmin : r < min (t.feed raw i).2.previous.length (raw (i + 1)).length := by
    rw [length_feed]
    omega
  simp only [feed, update]
  rw [getElem?_refresh, if_pos hmin]

/-- `update` reports a change exactly when a row held by both the stored sample and the new one
differs, stores those rows of the new sample and keeps every other stored row. Hence a tracker
fed samples that all hold row `r` of the stored sample reports every change of a key of that row
between two consecutive samples. -/
theorem update_reports_changes :
    (∀ (t : Tracker w) (raw : List (BitVec w)),
      ((t.update raw).1 = true ↔
        ∃ i, i < min t.previous.length raw.length ∧ raw[i]? ≠ t.previous[i]?) ∧
      ∀ i, (t.update raw).2.previous[i]? =
        if i < min t.previous.length raw.length then raw[i]? else t.previous[i]?) ∧
    ∀ (t : Tracker w) (raw : Nat → List (BitVec w)) (r : Nat), r < t.previous.length →
      (∀ i, 0 < i → r < (raw i).length) →
      ∀ i c, 1 < i → bitAt (raw i) r c ≠ bitAt (raw (i - 1)) r c → (t.feed raw i).1 = true := by
  refine ⟨fun t raw => ⟨refresh_reports_iff t.previous raw, getElem?_refresh t.previous raw⟩, ?_⟩
  intro t raw r hr hraw i c hi hbit
  obtain ⟨j, rfl⟩ : ∃ j, i = j + 2 := ⟨i - 2, by omega⟩
  -- the tracker holds row `r` of sample `j + 1` when sample `j + 2` arrives
  have hprev : (t.feed raw (j + 1)).2.previous[r]? = (raw (j + 1))[r]? :=
    feed_row t raw hr (hraw (j + 1) (by omega))
  have hrow : (raw (j + 2))[r]? ≠ (t.feed raw (j + 1)).2.previous[r]? := by
    rw [hprev]
    exact fun h => hbit (bitAt_congr h c)
  show ((t.feed raw (j + 1)).2.update (raw (j + 2))).1 = true
  apply (refresh_reports_iff _ _).2
  refine ⟨r, ?_, hrow⟩
  rw [length_feed]
  exact Nat.lt_min.2 ⟨hr, hraw (j + 2) (by omega)⟩

/-- A sample shorter than the stored one is compared and stored over its own rows only. -/
example : (⟨[1, 2]⟩ : Tracker 8).update [3] = (true, ⟨[3, 2]⟩) := by decide

/-- A tracker of two rows fed a counter in its first row reports every change of it. -/
theorem counter_row_reported :
    0 < (new 2 : Tracker 8).previous.length ∧
      (∀ i, 0 < i → 0 < [BitVec.ofNat 8 i].length) ∧
      ∀ i c, 1 < i → bitAt [BitVec.ofNat 8 i] 0 c ≠ bitAt [BitVec.ofNat 8 (i - 1)] 0 c →
        ((new 2 : Tracker 8).feed (fun i => [BitVec.ofNat 8 i]) i).1 = true :=
  ⟨by decide, fun _ _ => Nat.one_pos,
    update_reports_changes.2 (new 2) (fun i => [BitVec.ofNat 8 i]) 0 (by decide)
      fun _ _ => Nat.one_pos⟩

end KeyDebounce.Tracker
