import KeyDebounce.Proofs.Defer.Settle
import KeyDebounce.Proofs.Chain.Settle
import KeyDebounce.Proofs.Quiesce.Settle

/-!
# A held sample settles every engine

Hold one raw sample, with the same rows asked for and the buffer threaded through, from any
reachable engine: the first pass reports a change, and the passes after it report none and take a
tick or more each. The deferring and chained engines have settled after `longest + 1` passes; the
quiescing engine has cooked equal to raw after `quiesce + longest + 2` passes and has settled
after `2 * quiesce + longest + 2`, a quiet window later. Settled, every scanned key agrees with
raw and is out of flight, and a pass over the held sample, whatever else it reports, changes
nothing. From an engine with no key in flight each key commits at most once.
-/

set_option autoImplicit false

namespace KeyDebounce

open Row Pass

variable {w : Nat} {L : Layout} {t : Timing}

def Algorithm.settleCalls (a : Algorithm) (t : Timing) : Nat :=
  match a with
  | .quiesce => 2 * t.quiesce + t.longest + 2
  | _ => t.longest + 1

def Algorithm.agreeCalls (a : Algorithm) (t : Timing) : Nat :=
  match a with
  | .quiesce => t.quiesce + t.longest + 2
  | _ => t.longest + 1

/-- Hold one raw sample from any reachable engine, a chained one with its arena indices below the
null link: pass `1` reports a change, and passes `2` to `settleCalls` report none and take a tick
or more each. From pass `agreeCalls` on the scanned rows of cooked equal raw on every column;
from pass `settleCalls` on no key of them is in flight and each further pass with that sample,
whatever its ticks and change report, leaves engine and buffer as they are. From an engine with
no key in flight, a key whose raw bit differs from its cooked bit changes exactly once, at the
first pass by which its threshold has passed since the first, and no other cooked bit changes. -/
theorem held_sample_settles (hdown : 0 < t.down) (hup : 0 < t.up)
    (hbyte : t.longest ≤ Chain.countdownCap) {g : Engine}
    (hcap : g.kind = .eagerList → L.capacity * L.cols < Chain.null) (hg : g.Reachable L t)
    (raw cooked : List (BitVec w)) (numRows : Nat) (p : Nat → Pass w)
    (hsample : ∀ i, 0 < i → (p i).raw = raw ∧ (p i).numRows = numRows)
    (hfirst : (p 1).changed = true)
    (hquiet : ∀ i, 1 < i → i ≤ g.kind.settleCalls t →
      (p i).changed = false ∧ 0 < (p i).elapsed) :
    let run := g.run L t cooked p
    let n := rowsToScan numRows g.rowCount raw.length cooked.length
    (∀ i, g.kind.agreeCalls t ≤ i → ∀ r c, r < n → c < L.cols →
      bitAt (run i).2 r c = bitAt raw r c) ∧
    (∀ i, g.kind.settleCalls t ≤ i → ∀ r c, r < n → c < L.cols →
      (run i).1.keyInFlight L r c = false) ∧
    (∀ i, g.kind.settleCalls t ≤ i → run (i + 1) = run i) ∧
    (g.inFlight L = 0 → ∀ i r c, bitAt (run i).2 r c =
      if r < n ∧ c < L.cols ∧ bitAt raw r c ≠ bitAt cooked r c ∧
        t.threshold (bitAt raw r c) ≤ ticks p 1 i then bitAt raw r c else bitAt cooked r c) := by
  have hthr : ∀ x, 0 < t.threshold x := Timing.threshold_pos hdown hup
  have hinv : g.Invariant L t := Engine.invariant_of_reachable hthr (fun h => (hcap h).le) hg
  intro run n
  cases g with
  | defer s =>
    obtain ⟨hsettle, hfix, honce⟩ := Defer.held_run hthr hinv raw cooked numRows p hsample hfirst
      hquiet
    have hrun : ∀ i, run i = (.defer _, _) := Engine.run_defer L t cooked p s
    refine ⟨fun i hi r c hr hc => ?_, fun i hi r c hr hc => ?_, fun i hi => ?_,
      fun hidle i r c => by rw [hrun]; exact honce hidle i r c⟩
    · rw [hrun]
      exact (hsettle i hi r c hr hc).2
    · rw [hrun]
      simp [Engine.keyInFlight, (hsettle i hi r c hr hc).1]
    · rw [hrun, hrun, hfix i hi]
  | chain s =>
    obtain ⟨hsettle, hfix, honce⟩ := Chain.held_run (hcap rfl) hthr hbyte hinv raw cooked numRows
      p hsample hfirst hquiet
    have hrun : ∀ i, run i = (.chain _, _) := Engine.run_chain L t cooked p s
    refine ⟨fun i hi r c hr hc => ?_, fun i hi r c hr hc => ?_, fun i hi => ?_,
      fun hidle i r c => by rw [hrun]; exact honce hidle i r c⟩
    · rw [hrun]
      exact (hsettle i hi).2 r c hr hc
    · -- an empty chain holds no key
      rw [hrun]
      have hwf := (Chain.shape_run (hcap rfl) hthr hinv cooked p i).1
      simp [Engine.keyInFlight, Chain.mem_pending_iff hwf, (hsettle i hi).1]
    · rw [hrun, hrun, hfix i hi]
  | quiesce s =>
    obtain ⟨hagree, hwait, hfix, honce⟩ := Quiesce.held_run hthr hinv raw cooked numRows p hsample
      fun i h₁ h₂ => (hquiet i h₁ h₂).2
    have hrun : ∀ i, run i = (.quiesce _, _) := Engine.run_quiesce L t cooked p s
    refine ⟨fun i hi r c hr hc => ?_, fun i hi r c hr hc => ?_, fun i hi => ?_,
      fun hidle i r c => by rw [hrun]; exact honce hidle i r c⟩
    · rw [hrun]
      exact hagree i hi r c hr hc
    · rw [hrun]
      simp [Engine.keyInFlight, Quiesce.Key.busy, hwait i hi r c hr hc]
    · rw [hrun, hrun, hfix i hi]

/-- A pressed key of a quiescing engine of eight rows of 64 keys, more than a chain can index,
sized for one row, with the sample held from a pass that reports the change. -/
theorem pressed_key_settles :
    let L : Layout := ⟨8, 64⟩
    let t : Timing := ⟨2, 3, 1⟩
    let g := ((Engine.new .quiesce).init L 1).2
    let raw : List (BitVec 64) := [0b0001#64]
    let p : Nat → Pass 64 := fun i => ⟨1, raw, 1, decide (i = 1)⟩
    let run := g.run L t [0#64] p
    let n := rowsToScan 1 g.rowCount raw.length 1
    (0 < t.down ∧ 0 < t.up ∧ t.longest ≤ Chain.countdownCap ∧
      (g.kind = .eagerList → L.capacity * L.cols < Chain.null) ∧ g.Reachable L t ∧
      (∀ i, 0 < i → (p i).raw = raw ∧ (p i).numRows = 1) ∧ (p 1).changed = true ∧
      ∀ i, 1 < i → i ≤ g.kind.settleCalls t → (p i).changed = false ∧ 0 < (p i).elapsed) ∧
    (∀ i, g.kind.agreeCalls t ≤ i → ∀ r c, r < n → c < L.cols →
      bitAt (run i).2 r c = bitAt raw r c) ∧
    (∀ i, g.kind.settleCalls t ≤ i → ∀ r c, r < n → c < L.cols →
      (run i).1.keyInFlight L r c = false) ∧
    (∀ i, g.kind.settleCalls t ≤ i → run (i + 1) = run i) ∧
    (g.inFlight L = 0 → ∀ i r c, bitAt (run i).2 r c =
      if r < n ∧ c < L.cols ∧ bitAt raw r c ≠ bitAt [0#64] r c ∧
        t.threshold (bitAt raw r c) ≤ ticks p 1 i then bitAt raw r c else bitAt [0#64] r c) :=
  have hg : ((Engine.new .quiesce).init ⟨8, 64⟩ 1).2.Reachable ⟨8, 64⟩ ⟨2, 3, 1⟩ :=
    .init 1 (.new .quiesce)
  have hsample : ∀ i, 0 < i →
      (⟨1, [0b0001#64], 1, decide (i = 1)⟩ : Pass 64).raw = [0b0001#64] ∧
        (⟨1, [0b0001#64], 1, decide (i = 1)⟩ : Pass 64).numRows = 1 := fun _ _ => ⟨rfl, rfl⟩
  have hquiet : ∀ i, 1 < i → i ≤ ((Engine.new .quiesce).init ⟨8, 64⟩ 1).2.kind.settleCalls
      ⟨2, 3, 1⟩ →
      (⟨1, [0b0001#64], 1, decide (i = 1)⟩ : Pass 64).changed = false ∧
        0 < (⟨1, [0b0001#64], 1, decide (i = 1)⟩ : Pass 64).elapsed :=
    fun i h₁ _ => ⟨decide_eq_false (by omega), Nat.one_pos⟩
  ⟨⟨by decide, by decide, by decide, by decide, hg, hsample, rfl, hquiet⟩,
    held_sample_settles (by decide) (by decide) (by decide) (by decide) hg [0b0001#64] [0#64] 1
      (fun i => ⟨1, [0b0001#64], 1, decide (i = 1)⟩) hsample rfl hquiet⟩

end KeyDebounce
