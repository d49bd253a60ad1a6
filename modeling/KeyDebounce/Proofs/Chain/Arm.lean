import KeyDebounce.Proofs.Chain.Arena
import KeyDebounce.Proofs.Bits

/-!
# Arming the new edges

The second half of a pass visits, row by row, every key where raw and cooked differ. An idle key
is armed with the threshold of its raw bit and pushed at the head of the chain; a key in flight
is extended by the elapsed ticks when the scan reports a change. The row loop `armRows` computes
exactly the fold of `touch` over the list `edges` of these keys, so what a pass does to the chain
is what one `touch` does, repeated.
-/

set_option autoImplicit false

namespace KeyDebounce.Chain

open Row State

variable {w : Nat}

def armedRemaining (t : Timing) (e : Nat) (changed x : Bool) (n : Nat) : Nat :=
  if n = 0 then t.threshold x else if changed then min countdownCap (n + e) else n

namespace State

def touch (s : State) (L : Layout) (t : Timing) (e : Nat) (changed : Bool) (k : Nat × Bool) :
    State :=
  match s.node? L k.1 with
  | none => s
  | some n =>
    if n.remaining = 0 then { s.setNode L k.1 ⟨t.threshold k.2, s.head⟩ with head := k.1 }
    else if changed then s.setNode L k.1 { n with remaining := min countdownCap (n.remaining + e) }
    else s

end State

def rowEdges (cols row : Nat) (x delta : BitVec w) (col len : Nat) : List (Nat × Bool) :=
  ((List.range' col len).filter fun c => bit delta c).map fun c => (row * cols + c, bit x c)

def edges (cols : Nat) : Nat → Nat → List (BitVec w) → List (BitVec w) → List (Nat × Bool)
  | n + 1, row, x :: raw, c :: cooked =>
    rowEdges cols row x (c ^^^ x) 0 cols ++ edges cols n (row + 1) raw cooked
  | _, _, _, _ => []

/-! ## The row loop is a fold of `touch` -/

theorem modify_middle {α : Type} (pre post : List α) (K : α) (f : α → α) :
    (pre ++ K :: post).modify pre.length f = pre ++ f K :: post := by
  induction pre with
  | nil => simp
  | cons a pre ih => simp [ih]

theorem node?_middle (L : Layout) (pre post : List (List Node)) (K : List Node) (h : Nat)
    {col : Nat} (hc : col < L.cols) :
    (⟨pre ++ K :: post, h⟩ : State).node? L (pre.length * L.cols + col) = K[col]? := by
  rw [node?_index _ L hc]
  simp

theorem setNode_middle (L : Layout) (pre post : List (List Node)) (K : List Node) (h : Nat)
    {col : Nat} (hc : col < L.cols) (n : Node) :
    (⟨pre ++ K :: post, h⟩ : State).setNode L (pre.length * L.cols + col) n =
      ⟨pre ++ K.set col n :: post, h⟩ := by
  simp only [setNode, index_div hc, index_mod hc, modify_middle]

theorem rowEdges_succ (cols row : Nat) (x delta : BitVec w) (col len : Nat) :
    rowEdges cols row x delta col (len + 1) =
      (if bit delta col then [(row * cols + col, bit x col)] else []) ++
        rowEdges cols row x delta (col + 1) len := by
  unfold rowEdges
  rw [List.range'_succ, List.filter_cons]
  split <;> simp

variable (L : Layout) (t : Timing) (e : Nat) (changed : Bool)

theorem armKeys_eq_foldl (row : Nat) (x delta : BitVec w) (pre post : List (List Node))
    (hpre : pre.length = row) :
    ∀ (keys kpre : List Node) (head : Nat), kpre.length + keys.length = L.cols →
      (⟨pre ++ (kpre ++ (armKeys L t e changed row x delta kpre.length keys head).1) :: post,
        (armKeys L t e changed row x delta kpre.length keys head).2⟩ : State) =
      (rowEdges L.cols row x delta kpre.length keys.length).foldl (·.touch L t e changed)
        ⟨pre ++ (kpre ++ keys) :: post, head⟩
  | [], kpre, head, _ => by simp [armKeys, rowEdges]
  | node :: rest, kpre, head, hlen => by
    have hc : kpre.length < L.cols := by simp at hlen; omega
    have hnode : (⟨pre ++ (kpre ++ node :: rest) :: post, head⟩ : State).node? L
        (row * L.cols + kpre.length) = some node := by
      rw [← hpre, node?_middle L pre post _ head hc]
      simp
    have hset : ∀ n : Node, (⟨pre ++ (kpre ++ node :: rest) :: post, head⟩ : State).setNode L
        (row * L.cols + kpre.length) n = ⟨pre ++ ((kpre ++ [n]) ++ rest) :: post, head⟩ := by
      intro n
      rw [← hpre, setNode_middle L pre post _ head hc]
      simp
    have ih := fun n h' => armKeys_eq_foldl row x delta pre post hpre rest (kpre ++ [n]) h'
      (by simp at hlen ⊢; omega)
    simp only [List.length_append, List.length_singleton] at ih
    rw [List.length_cons, rowEdges_succ, List.foldl_append]
    by_cases hb : bit delta kpre.length
    · by_cases h0 : node.remaining = 0
      · have := ih ⟨t.threshold (bit x kpre.length), head⟩ (row * L.cols + kpre.length)
        simp only [armKeys, hb, h0, ↓reduceIte, List.foldl_cons, List.foldl_nil, touch, hnode,
          hset] at this ⊢
        simpa using this
      · by_cases hch : changed
        · have := ih { node with remaining := min countdownCap (node.remaining + e) } head
          simp only [armKeys, hb, h0, hch, ↓reduceIte, List.foldl_cons, List.foldl_nil, touch,
            hnode, hset] at this ⊢
          simpa using this
        · have := ih node head
          simp only [armKeys, hb, h0, hch, ↓reduceIte, List.foldl_cons, List.foldl_nil, touch,
            hnode] at this ⊢
          simpa using this
    · have := ih node head
      simp only [armKeys, hb] at this ⊢
      simpa using this

theorem rowEdges_zero (cols row : Nat) (x : BitVec w) (col len : Nat) :
    rowEdges cols row x 0 col len = [] := by
  simp [rowEdges, bit]

theorem armRows_eq_foldl : ∀ (n row : Nat) (rows : List (List Node))
    (raw cooked : List (BitVec w)) (head : Nat) (pre : List (List Node)), pre.length = row →
    (∀ r ∈ rows, r.length = L.cols) → n ≤ rows.length →
    (⟨pre ++ (armRows L t e changed n row rows raw cooked head).1,
      (armRows L t e changed n row rows raw cooked head).2⟩ : State) =
      (edges L.cols n row raw cooked).foldl (·.touch L t e changed) ⟨pre ++ rows, head⟩
  | 0, _, _, _, _, _, _, _, _, _ => by simp [armRows, edges]
  | _ + 1, _, [], _, _, _, _, _, _, hn => by simp at hn
  | _ + 1, _, _ :: _, [], _, _, _, _, _, _ => by simp [armRows, edges]
  | _ + 1, _, _ :: _, _ :: _, [], _, _, _, _, _ => by simp [armRows, edges]
  | n + 1, row, keys :: rows, x :: raw, c :: cooked, head, pre, hpre, hrows, hn => by
    have hkeys : keys.length = L.cols := hrows keys List.mem_cons_self
    have hrow := armKeys_eq_foldl L t e changed row x (c ^^^ x) pre rows hpre keys [] head
      (by simpa using hkeys)
    simp only [List.nil_append, List.length_nil, hkeys] at hrow
    have ih := fun keys' head' => armRows_eq_foldl n (row + 1) rows raw cooked head'
      (pre ++ [keys']) (by simp [hpre]) (fun r hr => hrows r (List.mem_cons_of_mem _ hr))
      (by simpa using hn)
    simp only [List.append_assoc, List.singleton_append] at ih
    rw [edges, List.foldl_append]
    by_cases h0 : c ^^^ x = 0
    · simp only [armRows, h0, ↓reduceIte, rowEdges_zero, List.foldl_nil]
      exact ih keys head
    · simp only [armRows, h0, ↓reduceIte]
      rw [← hrow]
      exact ih _ _

/-! ## What one `touch` does -/

section Touch

variable {L t e changed} {s : State} {k : Nat × Bool}

theorem node?_touch_isSome (j : Nat) :
    ((s.touch L t e changed k).node? L j).isSome = (s.node? L j).isSome := by
  unfold touch
  split
  · rfl
  · rename_i n hn
    split
    · show ((s.setNode L k.1 _).node? L j).isSome = _
      rw [node?_setNode]
      split <;> simp_all
    · split
      · rw [node?_setNode]
        split <;> simp_all
      · rfl

theorem length_touch : (s.touch L t e changed k).nodes.length = s.nodes.length := by
  unfold touch
  split
  · rfl
  · split
    · exact length_setNode s L _ _
    · split
      · exact length_setNode s L _ _
      · rfl

theorem State.Shaped.touch (hs : s.Shaped L) : (s.touch L t e changed k).Shaped L := by
  unfold State.touch
  split
  · exact hs
  · split
    · exact hs.setNode _ _
    · split
      · exact hs.setNode _ _
      · exact hs

theorem remainingAt_touch (j : Nat) :
    (s.touch L t e changed k).remainingAt L j =
      if k.1 = j ∧ (s.node? L j).isSome then armedRemaining t e changed k.2 (s.remainingAt L j)
      else s.remainingAt L j := by
  unfold touch
  split
  · rename_i hn
    split
    · rename_i h
      obtain ⟨rfl, hs⟩ := h
      simp [hn] at hs
    · rfl
  · rename_i n hn
    have hrem : s.remainingAt L k.1 = n.remaining := by simp [remainingAt, hn]
    split
    · rename_i h0
      show (s.setNode L k.1 _).remainingAt L j = _
      rw [remainingAt_setNode]
      by_cases hj : k.1 = j
      · subst hj
        simp [hn, hrem, h0, armedRemaining]
      · simp [hj]
    · rename_i h0
      split
      · rename_i hch
        rw [remainingAt_setNode]
        by_cases hj : k.1 = j
        · subst hj
          simp [hn, hrem, h0, hch, armedRemaining]
        · simp [hj]
      · rename_i hch
        by_cases hj : k.1 = j
        · subst hj
          simp [hn, hrem, h0, hch, armedRemaining]
        · simp [hj]

theorem touch_chained (hs : s.Shaped L) (hcap : s.nodes.length * L.cols ≤ null)
    (hthr : 0 < t.threshold k.2) (hc : s.Chained L) (hd : s.Detached L) :
    (s.touch L t e changed k).Chained L ∧ (s.touch L t e changed k).Detached L := by
  obtain ⟨l, hl, hmem⟩ := hc
  unfold touch
  split
  · exact ⟨⟨l, hl, hmem⟩, hd⟩
  · rename_i n hn
    have hrem : s.remainingAt L k.1 = n.remaining := remainingAt_of_node? hn
    have hnull : k.1 ≠ null := by
      have := (node?_isSome_iff hs k.1).mp (by simp [hn])
      omega
    have hother : ∀ (m : Node) j, j ≠ k.1 → (s.setNode L k.1 m).node? L j = s.node? L j :=
      fun m j hj => by rw [node?_setNode, if_neg (Ne.symm hj)]
    split
    · rename_i h0
      have hk : k.1 ∉ l := fun h => by have := (hmem _).mp h; omega
      refine ⟨⟨k.1 :: l, ⟨rfl, hnull, ⟨t.threshold k.2, s.head⟩, ?_, ?_⟩,
        fun j => ?_⟩, ?_⟩
      · simp [node?_setNode, hn]
      · exact hl.frame fun j hj => by
          simp [hother _ j fun h => hk (h ▸ hj)]
      · rw [remainingAt_withHead, remainingAt_setNode, List.mem_cons]
        by_cases hj : k.1 = j
        · subst hj
          simp [hn, hthr]
        · simp [hj, Ne.symm hj, hmem]
      · intro j m hjm hm0
        rw [node?_withHead, node?_setNode] at hjm
        split at hjm
        · rename_i hj
          subst hj
          simp [hn] at hjm
          subst hjm
          simp at hm0
          omega
        · exact hd j m hjm hm0
    · rename_i h0
      split
      · refine ⟨⟨l, hl.frame fun j hj => ?_, fun j => ?_⟩, ?_⟩
        · rw [node?_setNode]
          split
          · rename_i hj'
            subst hj'
            simp [hn]
          · rfl
        · rw [remainingAt_setNode, hmem]
          by_cases hj : k.1 = j
          · subst hj
            simp [hn, hrem, countdownCap]
            omega
          · simp [hj]
        · intro j m hjm hm0
          rw [node?_setNode] at hjm
          split at hjm
          · rename_i hj
            subst hj
            simp [hn] at hjm
            subst hjm
            simp [countdownCap] at hm0
            omega
          · exact hd j m hjm hm0
      · exact ⟨⟨l, hl, hmem⟩, hd⟩

end Touch

/-! ## A fold of touches -/

section Fold

variable {L t e changed}

theorem foldl_touch_shaped (E : List (Nat × Bool)) {s : State} (hs : s.Shaped L) :
    (E.foldl (·.touch L t e changed) s).Shaped L ∧
      (E.foldl (·.touch L t e changed) s).nodes.length = s.nodes.length ∧
      ∀ j, ((E.foldl (·.touch L t e changed) s).node? L j).isSome = (s.node? L j).isSome := by
  induction E generalizing s with
  | nil => exact ⟨hs, rfl, fun _ => rfl⟩
  | cons k E ih =>
    obtain ⟨hs', hlen, hsome⟩ := ih hs.touch
    exact ⟨hs', hlen.trans length_touch, fun j => (hsome j).trans (node?_touch_isSome j)⟩

theorem foldl_touch_chained (E : List (Nat × Bool)) {s : State} (hs : s.Shaped L)
    (hcap : s.nodes.length * L.cols ≤ null) (hthr : ∀ x, 0 < t.threshold x) (hc : s.Chained L)
    (hd : s.Detached L) :
    (E.foldl (·.touch L t e changed) s).Chained L ∧
      (E.foldl (·.touch L t e changed) s).Detached L := by
  induction E generalizing s with
  | nil => exact ⟨hc, hd⟩
  | cons k E ih =>
    obtain ⟨hc', hd'⟩ := touch_chained hs hcap (hthr k.2) hc hd
    exact ih hs.touch (by rw [length_touch]; exact hcap) hc' hd'

theorem remainingAt_foldl_touch_of_not_mem {E : List (Nat × Bool)} {s : State} {j : Nat}
    (hj : j ∉ E.map Prod.fst) :
    (E.foldl (·.touch L t e changed) s).remainingAt L j = s.remainingAt L j := by
  induction E generalizing s with
  | nil => rfl
  | cons k E ih =>
    simp only [List.map_cons, List.mem_cons, not_or] at hj
    rw [List.foldl_cons, ih hj.2, remainingAt_touch, if_neg fun h => hj.1 h.1.symm]

theorem remainingAt_foldl_touch_of_mem {E : List (Nat × Bool)} (hE : (E.map Prod.fst).Nodup)
    {s : State} {j : Nat} {x : Bool} (hjx : (j, x) ∈ E) (hj : (s.node? L j).isSome) :
    (E.foldl (·.touch L t e changed) s).remainingAt L j =
      armedRemaining t e changed x (s.remainingAt L j) := by
  induction E generalizing s with
  | nil => cases hjx
  | cons k E ih =>
    simp only [List.map_cons, List.nodup_cons] at hE
    rw [List.foldl_cons]
    rcases List.mem_cons.mp hjx with rfl | hjx
    · rw [remainingAt_foldl_touch_of_not_mem hE.1, remainingAt_touch, if_pos ⟨rfl, hj⟩]
    · have hkj : k.1 ≠ j := fun h => hE.1 (h ▸ List.mem_map_of_mem hjx)
      rw [ih hE.2 hjx ((node?_touch_isSome j).trans hj), remainingAt_touch, if_neg fun h => hkj h.1]

end Fold

/-! ## The keys with an edge -/

theorem mem_rowEdges {cols row col len : Nat} {x delta : BitVec w} {p : Nat × Bool} :
    p ∈ rowEdges cols row x delta col len ↔
      ∃ c, col ≤ c ∧ c < col + len ∧ bit delta c = true ∧
        p = (row * cols + c, bit x c) := by
  simp only [rowEdges, List.mem_map, List.mem_filter, List.mem_range'_1]
  constructor
  · rintro ⟨c, ⟨⟨h1, h2⟩, h3⟩, rfl⟩
    exact ⟨c, h1, h2, h3, rfl⟩
  · rintro ⟨c, h1, h2, h3, rfl⟩
    exact ⟨c, ⟨⟨h1, h2⟩, h3⟩, rfl⟩

theorem mem_edges {cols : Nat} : ∀ {n row : Nat} {raw cooked : List (BitVec w)} {p : Nat × Bool},
    p ∈ edges cols n row raw cooked ↔
      ∃ r c, r < n ∧ r < raw.length ∧ r < cooked.length ∧ c < cols ∧
        bitAt cooked r c ≠ bitAt raw r c ∧ p = ((row + r) * cols + c, bitAt raw r c)
  | 0, _, _, _, _ => by simp [edges]
  | _ + 1, _, [], _, _ => by simp [edges]
  | _ + 1, _, _ :: _, [], _ => by simp [edges]
  | n + 1, row, x :: raw, c₀ :: cooked, p => by
    rw [edges, List.mem_append, mem_rowEdges, mem_edges]
    constructor
    · rintro (⟨c, -, hc, hd, rfl⟩ | ⟨r, c, hr, hrr, hrc, hc, hne, rfl⟩)
      · refine ⟨0, c, by omega, by simp, by simp, by omega, ?_, rfl⟩
        simpa [bitAt_cons_zero, bit] using hd
      · refine ⟨r + 1, c, by omega, by simpa using hrr, by simpa using hrc, hc, ?_, ?_⟩
        · simpa [bitAt_cons_succ] using hne
        · simp [bitAt_cons_succ, Nat.add_assoc, Nat.add_comm 1 r]
    · rintro ⟨r, c, hr, hrr, hrc, hc, hne, rfl⟩
      cases r with
      | zero =>
        refine .inl ⟨c, Nat.zero_le _, by omega, ?_, by simp [bitAt_cons_zero]⟩
        simpa [bitAt_cons_zero, bit] using hne
      | succ r =>
        refine .inr ⟨r, c, by omega, by simpa using hrr, by simpa using hrc, hc, ?_, ?_⟩
        · simpa [bitAt_cons_succ] using hne
        · simp [bitAt_cons_succ, Nat.add_assoc, Nat.add_comm 1 r]

theorem nodup_edges {cols : Nat} : ∀ (n row : Nat) (raw cooked : List (BitVec w)),
    ((edges cols n row raw cooked).map Prod.fst).Nodup
  | 0, _, _, _ => by simp [edges]
  | _ + 1, _, [], _ => by simp [edges]
  | _ + 1, _, _ :: _, [] => by simp [edges]
  | n + 1, row, x :: raw, c₀ :: cooked => by
    rw [edges, List.map_append, List.nodup_append]
    refine ⟨?_, nodup_edges n (row + 1) raw cooked, ?_⟩
    · simp only [rowEdges, List.map_map]
      exact ((List.nodup_range' 1).filter _).map fun a b h => by simpa using h
    · intro a ha b hb
      obtain ⟨p, hp, rfl⟩ := List.mem_map.mp ha
      obtain ⟨q, hq, rfl⟩ := List.mem_map.mp hb
      obtain ⟨c, -, hc, -, rfl⟩ := mem_rowEdges.mp hp
      obtain ⟨r, c', -, -, -, -, -, rfl⟩ := mem_edges.mp hq
      have hmul : (row + 1) * cols ≤ (row + 1 + r) * cols := Nat.mul_le_mul_right _ (by omega)
      have hsucc : (row + 1) * cols = row * cols + cols := Nat.succ_mul row cols
      simp only [Nat.zero_add] at hc
      omega

end KeyDebounce.Chain
