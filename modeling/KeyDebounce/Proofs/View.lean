import KeyDebounce.Proofs.Invariant

/-!
# One key of an engine

What a caller can read of one key of an engine of any kind: its countdown, whether it is in flight
(the keys `inFlight` counts), and for the quiescing engine its phase. Along a run of a dense engine
each key moves by its rule while its row is scanned and stays otherwise; a chained key moves by
the dense rule.
-/

set_option autoImplicit false

namespace KeyDebounce

open Row

variable {w : Nat} {L : Layout} {t : Timing}

namespace Engine

def rowCount : Engine → Nat
  | defer s => s.rows.length
  | chain s => s.nodes.length
  | quiesce s => s.rows.length

def countdown (g : Engine) (L : Layout) (r c : Nat) : Nat :=
  match g with
  | defer s => s.counter r c
  | chain s => if c < L.cols then s.remainingAt L (r * L.cols + c) else 0
  | quiesce s => (s.key r c).remaining

def keyInFlight (g : Engine) (L : Layout) (r c : Nat) : Bool :=
  match g with
  | defer s => decide (0 < s.counter r c)
  | chain s => decide (c < L.cols ∧ r * L.cols + c ∈ s.pending L)
  | quiesce s => (s.key r c).busy

def phase? (g : Engine) (r c : Nat) : Option KeyPhase :=
  match g with
  | quiesce s => s.phase? r c
  | _ => none

end Engine

namespace Quiesce

theorem phase?_eq {s : State} (hs : s.WellFormed L) {r c : Nat} (hr : r < s.rows.length)
    (hc : c < L.cols) : s.phase? r c = some (s.key r c).phase := by
  have hrow := hs _ (List.getElem_mem hr)
  have hc' : c < s.rows[r].keys.length := hrow.1 ▸ hc
  simp [State.phase?, State.key, List.getElem?_eq_getElem hr, List.getElem?_eq_getElem hc']

theorem shape_run {s : State} (hs : s.WellFormed L) (cooked : List (BitVec w))
    (p : Nat → Pass w) (i : Nat) :
    let run := runWith (fun s q c => s.step t q.elapsed q.raw c q.numRows) s cooked p
    (run i).1.WellFormed L ∧ (run i).1.rows.length = s.rows.length ∧
      (run i).2.length = cooked.length := by
  intro run
  induction i with
  | zero => exact ⟨hs, rfl, rfl⟩
  | succ i ih =>
    obtain ⟨hwf, hrows, hlen⟩ := ih
    have h : (run (i + 1)).1.rows.length = (run i).1.rows.length ∧
        (run (i + 1)).2.length = (run i).2.length := length_step _ _ _ _ _
    exact ⟨wellFormed_step hwf _ _ _ _, h.1.trans hrows, h.2.trans hlen⟩

theorem key_run {s : State} (hs : s.WellFormed L) (cooked : List (BitVec w)) (p : Nat → Pass w)
    (r c i : Nat) :
    let run := runWith (fun s q c => s.step t q.elapsed q.raw c q.numRows) s cooked p
    let q := p (i + 1)
    ((run (i + 1)).1.key r c, bitAt (run (i + 1)).2 r c) =
      if r < rowsToScan q.numRows s.rows.length q.raw.length cooked.length ∧ c < L.cols then
        quiesceKey t q.elapsed (bitAt q.raw r c) (bitAt (run i).2 r c) ((run i).1.key r c)
      else ((run i).1.key r c, bitAt (run i).2 r c) := by
  intro run q
  obtain ⟨hwf, hrows, hlen⟩ := @shape_run w L t s hs cooked p i
  rw [← hrows, ← hlen]
  exact step_key hwf q.elapsed q.raw (run i).2 q.numRows r c

end Quiesce

namespace Chain

theorem mem_pending_iff {s : State} (hs : s.WellFormed L t) (i : Nat) :
    i ∈ s.pending L ↔ 0 < s.remainingAt L i := by
  obtain ⟨l, hl, hmem⟩ := hs.chained
  rw [hl.pending_eq hs.shaped]
  exact hmem i

theorem shape_run (hcap : L.capacity * L.cols < null) (hthr : ∀ x, 0 < t.threshold x)
    {s : State} (hs : s.WellFormed L t) (cooked : List (BitVec w)) (p : Nat → Pass w) (i : Nat) :
    let run := runWith (fun s q c => s.step L t q.elapsed q.raw c q.numRows q.changed) s cooked p
    (run i).1.WellFormed L t ∧ (run i).1.nodes.length = s.nodes.length ∧
      (run i).2.length = cooked.length := by
  intro run
  induction i with
  | zero => exact ⟨hs, rfl, rfl⟩
  | succ i ih =>
    obtain ⟨hwf, hrows, hlen⟩ := ih
    have h : (run (i + 1)).2.length = (run i).2.length ∧
        (run (i + 1)).1.nodes.length = (run i).1.nodes.length := length_step hwf _ _ _ _ _
    exact ⟨wellFormed_step hwf hcap.le hthr _ _ _ _ _, h.2.trans hrows, h.1.trans hlen⟩

theorem key_run (hcap : L.capacity * L.cols < null) (hthr : ∀ x, 0 < t.threshold x)
    {s : State} (hs : s.WellFormed L t) (cooked : List (BitVec w)) (p : Nat → Pass w)
    {r c : Nat} (hr : r < s.nodes.length) (hc : c < L.cols) (i : Nat) :
    let run := runWith (fun s q c => s.step L t q.elapsed q.raw c q.numRows q.changed) s cooked p
    let q := p (i + 1)
    ((run (i + 1)).1.remainingAt L (r * L.cols + c), bitAt (run (i + 1)).2 r c) =
      denseKey t q.elapsed q.changed
        (decide (r < rowsToScan q.numRows s.nodes.length q.raw.length cooked.length))
        (decide (r < q.raw.length ∧ r < cooked.length)) (bitAt q.raw r c) (bitAt (run i).2 r c)
        ((run i).1.remainingAt L (r * L.cols + c)) := by
  intro run q
  obtain ⟨hwf, hlen, hcooked⟩ := shape_run hcap hthr hs cooked p i
  rw [← hlen, ← hcooked]
  exact step_key hwf q.elapsed q.raw (run i).2 q.numRows q.changed (hlen ▸ hr) hc

end Chain

end KeyDebounce
