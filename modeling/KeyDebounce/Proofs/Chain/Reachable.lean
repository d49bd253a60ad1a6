import KeyDebounce.Proofs.Chain.Pass
import KeyDebounce.Proofs.Runs

/-!
# The chain of every reachable engine

A new engine, a freshly sized one and a torn-down one have no key in flight, and a pass keeps the
chain invariant; so every chained engine reachable through any requests is well formed. Its chain
is then a finite list without repetition that `pending` returns whole, every key on it exists and
is counting down, and no key index reaches the `null` link.
-/

set_option autoImplicit false

namespace KeyDebounce.Chain

open Row State

variable {L : Layout} {t : Timing}

/-- Every chained engine reachable from a new one is well formed. -/
theorem wellFormed_of_reachable (hcap : L.capacity * L.cols ≤ null)
    (hthr : ∀ x, 0 < t.threshold x) {g : Engine} (h : g.Reachable L t) :
    ∀ s, g = .chain s → s.WellFormed L t := by
  induction h with
  | new a =>
    intro s hs
    cases a <;> simp only [Engine.new, Engine.chain.injEq, reduceCtorEq] at hs
    subst hs
    exact wellFormed_empty
  | @init g n _ ih =>
    intro s hs
    obtain ⟨c, rfl⟩ :=
      Engine.eq_chain_of_kind ((Engine.kind_init g L n).symm.trans (hs ▸ rfl))
    rw [Engine.init_chain] at hs
    cases hinit : State.init L n with
    | ok s' =>
      rw [hinit, Engine.chain.injEq] at hs
      exact hs ▸ wellFormed_init hinit
    | error err =>
      rw [hinit, Engine.chain.injEq] at hs
      exact hs ▸ wellFormed_empty
  | @step g w e raw cooked numRows changed _ ih =>
    intro s hs
    obtain ⟨c, rfl⟩ := Engine.eq_chain_of_kind
      ((Engine.kind_step g L t e raw cooked numRows changed).symm.trans (hs ▸ rfl))
    simp only [Engine.step, Engine.chain.injEq] at hs
    subst hs
    exact wellFormed_step (ih c rfl) hcap hthr e raw cooked numRows changed
  | @teardown g _ ih =>
    intro s hs
    obtain ⟨c, rfl⟩ :=
      Engine.eq_chain_of_kind ((Engine.kind_teardown g).symm.trans (hs ▸ rfl))
    simp only [Engine.teardown, Engine.chain.injEq] at hs
    subst hs
    exact wellFormed_empty

/-- In every chained engine reachable from a new one the invariant holds, and so: the links from
the head visit distinct existing keys, each counting down, in no more steps than there are keys,
before they reach `null`, which `pending` follows to the end; no key index reaches `null`; and the
number of keys in flight is the number of keys with a running countdown. -/
theorem reachable_chain_wellFormed (hcap : L.capacity * L.cols < null) (hdown : 0 < t.down)
    (hup : 0 < t.up) {s : State} (h : (Engine.chain s).Reachable L t) :
    s.WellFormed L t ∧
    (∀ r c, r < s.nodes.length → c < L.cols → r * L.cols + c < null) ∧
    (∃ l, s.Linked L s.head l ∧ l.Nodup ∧ l.length ≤ s.size ∧ s.pending L = l ∧
      ∀ i ∈ l, i < s.nodes.length * L.cols ∧
        ∃ n, s.node? L i = some n ∧ 0 < n.remaining) ∧
    s.inFlight L = ((Finset.range s.size).filter fun i => 0 < s.remainingAt L i).card := by
  have hthr : ∀ x, 0 < t.threshold x := Timing.threshold_pos hdown hup
  have hwf := wellFormed_of_reachable hcap.le hthr h s rfl
  have hfit : s.nodes.length * L.cols ≤ L.capacity * L.cols := Nat.mul_le_mul_right _ hwf.fits
  obtain ⟨l, hl, hmem⟩ := hwf.chained
  -- a key on the chain exists, so it lies inside the arena
  have hkey : ∀ i ∈ l,
      i < s.nodes.length * L.cols ∧ ∃ n, s.node? L i = some n ∧ 0 < n.remaining := by
    intro i hi
    obtain ⟨-, hsome⟩ := Walk.mem hl hi
    obtain ⟨n, hn⟩ := Option.isSome_iff_exists.mp hsome
    refine ⟨(node?_isSome_iff hwf.shaped i).mp hsome, n, hn, ?_⟩
    rw [← remainingAt_of_node? hn]
    exact (hmem i).mp hi
  refine ⟨hwf, fun r c hr hc => ?_, ⟨l, hl, hl.nodup, hl.length_le hwf.shaped,
    hl.pending_eq hwf.shaped, hkey⟩, ?_⟩
  · have := key_lt_size (s := s) hr hc
    omega
  · unfold inFlight
    rw [hl.pending_eq hwf.shaped, ← List.toFinset_card_of_nodup hl.nodup]
    congr 1
    ext i
    rw [List.mem_toFinset, Finset.mem_filter, Finset.mem_range, size_eq hwf.shaped]
    exact ⟨fun hi => ⟨(hkey i hi).1, (hmem i).mp hi⟩, fun hi => (hmem i).mpr hi.2⟩

/-- The two-row engine of four columns after its first pass, which armed three keys. -/
theorem first_scan_chain_wellFormed :
    let L : Layout := ⟨2, 4⟩
    let t : Timing := ⟨2, 8, 0⟩
    let s := ((⟨List.replicate 2 (List.replicate 4 Node.idle), null⟩ : State).step L t 1
      [0b0010#8, 0#8] [0b0001#8, 0b1000#8] 2 true).1
    (L.capacity * L.cols < null ∧ 0 < t.down ∧ 0 < t.up ∧ (Engine.chain s).Reachable L t) ∧
    s.WellFormed L t ∧
    (∀ r c, r < s.nodes.length → c < L.cols → r * L.cols + c < null) ∧
    (∃ l, s.Linked L s.head l ∧ l.Nodup ∧ l.length ≤ s.size ∧ s.pending L = l ∧
      ∀ i ∈ l, i < s.nodes.length * L.cols ∧
        ∃ n, s.node? L i = some n ∧ 0 < n.remaining) ∧
    s.inFlight L = ((Finset.range s.size).filter fun i => 0 < s.remainingAt L i).card :=
  have h : (Engine.chain ((⟨List.replicate 2 (List.replicate 4 Node.idle), null⟩ : State).step
      ⟨2, 4⟩ ⟨2, 8, 0⟩ 1 [0b0010#8, 0#8] [0b0001#8, 0b1000#8] 2 true).1).Reachable
      ⟨2, 4⟩ ⟨2, 8, 0⟩ :=
    .step 1 [0b0010#8, 0#8] [0b0001#8, 0b1000#8] 2 true (.init 2 (.new .eagerList))
  ⟨⟨by decide, by decide, by decide, h⟩,
    reachable_chain_wellFormed (by decide) (by decide) (by decide) h⟩

end KeyDebounce.Chain
