import KeyDebounce.Proofs.Chain.Pass

/-!
# The chained engine over unbounded countdowns

Countdowns of the chained engine are bytes: extending one by the elapsed ticks saturates, and the
ticks between passes are clamped to a byte before a pass sees them. Over countdowns of any size a
pass adds the ticks in full. `armKeysWith` and `armRowsWith` are the arming loops with the
extension of a key in flight as a parameter, so the engine's loops and the unbounded ones are two
instances. With the chain invariant and every threshold within a byte, neither bound shows: a key
that the walk keeps had more than the clamped ticks left, so the clamp took nothing off it and its
extension gives it back no more than it had; and a pass a byte's worth late or more runs out every
countdown, whatever the true delay.
-/

set_option autoImplicit false

namespace KeyDebounce.Chain

open Row State

variable {w : Nat}

def armKeysWith (L : Layout) (t : Timing) (grow : Nat → Nat) (changed : Bool) (row : Nat)
    (raw delta : BitVec w) : Nat → List Node → Nat → List Node × Nat
  | _, [], head => ([], head)
  | col, node :: rest, head =>
    let (node', head') :=
      if bit delta col then
        if node.remaining = 0 then
          (⟨t.threshold (bit raw col), head⟩, row * L.cols + col)
        else if changed then ({ node with remaining := grow node.remaining }, head)
        else (node, head)
      else (node, head)
    let (rest', head'') := armKeysWith L t grow changed row raw delta (col + 1) rest head'
    (node' :: rest', head'')

def armRowsWith (L : Layout) (t : Timing) (grow : Nat → Nat) (changed : Bool) :
    Nat → Nat → List (List Node) → List (BitVec w) → List (BitVec w) → Nat →
      List (List Node) × Nat
  | n + 1, row, keys :: rows, x :: raw, c :: cooked, head =>
    let delta := c ^^^ x
    let (keys', head') :=
      if delta = 0 then (keys, head) else armKeysWith L t grow changed row x delta 0 keys head
    let (rows', head'') := armRowsWith L t grow changed n (row + 1) rows raw cooked head'
    (keys' :: rows', head'')
  | _, _, rows, _, _, head => (rows, head)

/-- A pass over countdowns of unbounded size, `e` ticks after the previous one: a key in flight
that sees a change is extended by the `e` ticks in full. -/
def State.stepUnbounded (s : State) (L : Layout) (t : Timing) (e : Nat)
    (raw cooked : List (BitVec w)) (numRows : Nat) (changed : Bool) : State × List (BitVec w) :=
  let (s, cooked) :=
    if s.head = null then (s, cooked) else expire L e raw (s.size + 1) null s.head s cooked
  let n := rowsToScan numRows s.nodes.length raw.length cooked.length
  let (nodes, head) := armRowsWith L t (· + e) changed n 0 s.nodes raw cooked s.head
  (⟨nodes, head⟩, cooked)

section Loops

variable (L : Layout) (t : Timing) (changed : Bool)

theorem armKeys_eq_armKeysWith (e row : Nat) (raw delta : BitVec w) :
    ∀ (col : Nat) (nodes : List Node) (head : Nat),
      armKeys L t e changed row raw delta col nodes head =
        armKeysWith L t (fun n => min countdownCap (n + e)) changed row raw delta col nodes head
  | _, [], _ => rfl
  | col, node :: rest, head => by
    simp only [armKeys, armKeysWith, armKeys_eq_armKeysWith e row raw delta (col + 1) rest]

theorem armRows_eq_armRowsWith (e : Nat) :
    ∀ (n row : Nat) (rows : List (List Node)) (raw cooked : List (BitVec w)) (head : Nat),
      armRows L t e changed n row rows raw cooked head =
        armRowsWith L t (fun n => min countdownCap (n + e)) changed n row rows raw cooked head
  | n + 1, row, keys :: rows, x :: raw, c :: cooked, head => by
    simp only [armRows, armRowsWith, armKeys_eq_armKeysWith,
      armRows_eq_armRowsWith e n (row + 1) rows raw cooked]
  | 0, _, _, _, _, _ | _ + 1, _, [], _, _, _ | _ + 1, _, _ :: _, [], _, _
  | _ + 1, _, _ :: _, _ :: _, [], _ => by simp [armRows, armRowsWith]

variable {grow grow' : Nat → Nat}

theorem armKeysWith_congr (row : Nat) (raw delta : BitVec w) :
    ∀ (col : Nat) (nodes : List Node) (head : Nat),
      (∀ node ∈ nodes, node.remaining ≠ 0 → grow node.remaining = grow' node.remaining) →
      armKeysWith L t grow changed row raw delta col nodes head =
        armKeysWith L t grow' changed row raw delta col nodes head
  | _, [], _, _ => rfl
  | col, node :: rest, head, h => by
    have hrest := fun head => armKeysWith_congr row raw delta (col + 1) rest head
      fun n hn => h n (List.mem_cons_of_mem _ hn)
    by_cases hz : node.remaining = 0
    · simp only [armKeysWith, hz, ↓reduceIte, hrest]
    · simp only [armKeysWith, hz, h node List.mem_cons_self hz, hrest]

theorem armRowsWith_congr :
    ∀ (n row : Nat) (rows : List (List Node)) (raw cooked : List (BitVec w)) (head : Nat),
      (∀ keys ∈ rows, ∀ node ∈ keys, node.remaining ≠ 0 →
        grow node.remaining = grow' node.remaining) →
      armRowsWith L t grow changed n row rows raw cooked head =
        armRowsWith L t grow' changed n row rows raw cooked head
  | n + 1, row, keys :: rows, x :: raw, c :: cooked, head, h => by
    have hkeys := fun head => armKeysWith_congr L t changed row x (c ^^^ x) 0 keys head
      (h keys List.mem_cons_self)
    have hrest := fun head => armRowsWith_congr n (row + 1) rows raw cooked head
      fun k hk => h k (List.mem_cons_of_mem _ hk)
    simp only [armRowsWith, hkeys, hrest]
  | 0, _, _, _, _, _, _ | _ + 1, _, [], _, _, _, _ | _ + 1, _, _ :: _, [], _, _, _
  | _ + 1, _, _ :: _, _ :: _, [], _, _ => by simp [armRowsWith]

end Loops

theorem exists_node?_of_mem {L : Layout} {s : State} (hs : s.Shaped L) {keys : List Node}
    (hk : keys ∈ s.nodes) {node : Node} (hn : node ∈ keys) : ∃ i, s.node? L i = some node := by
  obtain ⟨r, hr, rfl⟩ := List.getElem_of_mem hk
  obtain ⟨c, hc, rfl⟩ := List.getElem_of_mem hn
  have hc' : c < L.cols := hs _ hk ▸ hc
  refine ⟨r * L.cols + c, ?_⟩
  rw [node?_index s L hc', List.getElem?_eq_getElem hr, Option.bind_some,
    List.getElem?_eq_getElem hc]

theorem expire_eq_of_cap_le {L : Layout} {e d : Nat} (he : countdownCap ≤ e)
    (hd : countdownCap ≤ d) (raw : List (BitVec w)) :
    ∀ (fuel prev cur : Nat) (s : State) (cooked : List (BitVec w)),
      (∀ i, s.remainingAt L i ≤ countdownCap) →
      expire L e raw fuel prev cur s cooked = expire L d raw fuel prev cur s cooked
  | 0, _, _, _, _, _ => rfl
  | fuel + 1, prev, cur, s, cooked, hs => by
    by_cases hcur : cur = null
    · simp [expire, hcur]
    cases hn : s.node? L cur with
    | none => simp [expire, hcur, hn]
    | some node =>
      have hle : node.remaining ≤ countdownCap := remainingAt_of_node? hn ▸ hs cur
      rw [expire_unlink L e raw fuel prev cur s cooked hcur hn (by omega),
        expire_unlink L d raw fuel prev cur s cooked hcur hn (by omega)]
      apply expire_eq_of_cap_le he hd raw fuel
      -- unlinking makes the key idle and moves only a link
      intro i
      rw [remainingAt_relink, remainingAt_setNode]
      split
      · exact Nat.zero_le _
      · exact hs i

theorem walk_clamp {L : Layout} {s : State} (hle : ∀ i, s.remainingAt L i ≤ countdownCap)
    (d : Nat) (raw cooked : List (BitVec w)) :
    (if s.head = null then (s, cooked)
      else expire L (min d 255) raw (s.size + 1) null s.head s cooked) =
      (if s.head = null then (s, cooked)
        else expire L d raw (s.size + 1) null s.head s cooked) := by
  have hcap : countdownCap = 255 := rfl
  by_cases hd : d ≤ 255
  · rw [Nat.min_eq_left hd]
  · split
    · rfl
    · exact expire_eq_of_cap_le (by omega) (by omega) raw _ _ _ _ _ hle

theorem Expired.extend_clamp {s₀ s₁ : State} {cooked₀ cooked₁ raw : List (BitVec w)}
    {L : Layout} {d : Nat} {l₀ : List Nat} (h : Expired s₀ cooked₀ raw L (min d 255) l₀ s₁ cooked₁)
    (hle : ∀ i, s₀.remainingAt L i ≤ countdownCap) :
    ∀ keys ∈ s₁.nodes, ∀ node ∈ keys, node.remaining ≠ 0 →
      min countdownCap (node.remaining + min d 255) = node.remaining + d := by
  have hcap : countdownCap = 255 := rfl
  intro keys hkeys node hnode hz
  obtain ⟨i, hi⟩ := exists_node?_of_mem h.shaped hkeys hnode
  have hrem := h.remaining i
  rw [remainingAt_of_node? hi] at hrem
  have hi₀ := hle i
  omega

/-- A pass of an engine with the chain invariant and every threshold within a byte, run with the
elapsed ticks clamped to a byte, is the pass over unbounded countdowns with the true ticks. -/
theorem step_clamp {L : Layout} {t : Timing} (hbyte : t.longest ≤ countdownCap) {s : State}
    (hs : s.WellFormed L t) (d : Nat) (raw cooked : List (BitVec w)) (numRows : Nat)
    (changed : Bool) :
    s.step L t (min d 255) raw cooked numRows changed =
      s.stepUnbounded L t d raw cooked numRows changed := by
  have hle : ∀ i, s.remainingAt L i ≤ countdownCap := fun i => le_trans (hs.bounded i) hbyte
  obtain ⟨l₀, hl, hmem⟩ := hs.chained
  have hexp : Expired s cooked raw L (min d 255) l₀ _ _ :=
    expired_of_walk hl hmem hs.shaped hs.detached
  unfold State.step State.stepUnbounded
  rw [walk_clamp hle] at hexp ⊢
  -- the two passes share the walk; only the arming of its survivors is left to compare
  generalize (if s.head = null then (s, cooked)
    else expire L d raw (s.size + 1) null s.head s cooked) = p at hexp ⊢
  obtain ⟨s₁, cooked₁⟩ := p
  dsimp only at hexp ⊢
  rw [armRows_eq_armRowsWith,
    @armRowsWith_congr w L t changed _ (· + d) _ _ _ _ _ _ (hexp.extend_clamp hle)]

end KeyDebounce.Chain
