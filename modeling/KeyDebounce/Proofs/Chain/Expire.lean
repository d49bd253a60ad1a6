import KeyDebounce.Proofs.Chain.Arena
import KeyDebounce.Proofs.Bits

/-!
# Advancing the chain

`expire` walks the chain from the head with the key before it in hand. A key with more than `e`
ticks left is advanced and kept; any other is made idle, commits its raw bit and is unlinked,
through the key before it or, at the front, through the head. What the walk has passed is the
chain of the kept keys, from the head up to the key in hand, and the unvisited rest is still
linked after it. So the walk ends with the chain of the kept keys in their old order, every
countdown advanced by `e`, and the cooked bit of every expired key replaced by its raw bit.
-/

set_option autoImplicit false

namespace KeyDebounce.Chain

open Row State

variable {w : Nat}

/-! ## Committing one key -/

theorem length_commitAt (raw cooked : List (BitVec w)) (row col : Nat) :
    (commitAt raw cooked row col).length = cooked.length := by
  unfold commitAt
  split <;> simp

theorem bitAt_commitAt (raw cooked : List (BitVec w)) (row col r c : Nat) :
    bitAt (commitAt raw cooked row col) r c =
      if r = row ∧ c = col ∧ row < raw.length ∧ row < cooked.length then bitAt raw r c
      else bitAt cooked r c := by
  unfold commitAt
  split
  · rename_i x y hx hy
    obtain ⟨hxr, rfl⟩ := List.getElem?_eq_some_iff.mp hx
    obtain ⟨hyr, rfl⟩ := List.getElem?_eq_some_iff.mp hy
    rw [bitAt_set, bit_commitKey_eq]
    by_cases hr : r = row
    · subst hr
      by_cases hc : c = col <;> simp [hc, hxr, hyr, bitAt]
    · simp [hr, Ne.symm hr]
  · rename_i hnone
    have hnot : ¬(row < raw.length ∧ row < cooked.length) := fun h =>
      hnone _ _ (List.getElem?_eq_getElem h.1) (List.getElem?_eq_getElem h.2)
    simp only [hnot, and_false, ↓reduceIte]

theorem key_eq_index_iff {cols r c i : Nat} (hpos : 0 < cols) :
    (r = i / cols ∧ c = i % cols) ↔ (c < cols ∧ r * cols + c = i) := by
  constructor
  · rintro ⟨rfl, rfl⟩
    exact ⟨Nat.mod_lt i hpos, Nat.div_add_mod' i cols⟩
  · rintro ⟨hc, rfl⟩
    exact ⟨(index_div hc).symm, (index_mod hc).symm⟩

/-! ## One step of the walk -/

def relink (s : State) (L : Layout) (prev next : Nat) : State :=
  if prev = null then { s with head := next }
  else
    match s.node? L prev with
    | some p => s.setNode L prev { p with next := next }
    | none => s

theorem relink_head (s : State) (L : Layout) (prev next : Nat) :
    (relink s L prev next).head = if prev = null then next else s.head := by
  unfold relink
  split
  · rfl
  · split <;> rfl

theorem node?_relink (s : State) (L : Layout) (prev next i : Nat) :
    (relink s L prev next).node? L i =
      if prev ≠ null ∧ prev = i then (s.node? L i).map fun p => { p with next := next }
      else s.node? L i := by
  unfold relink
  by_cases hp : prev = null
  · simp only [hp, ↓reduceIte, ne_eq, not_true_eq_false, false_and]
    rfl
  · simp only [hp, ↓reduceIte, ne_eq, not_false_eq_true, true_and]
    cases hprev : s.node? L prev with
    | none =>
      by_cases hi : prev = i
      · subst hi
        simp [hprev]
      · simp [hi]
    | some p =>
      rw [node?_setNode]
      by_cases hi : prev = i
      · subst hi
        simp [hprev]
      · simp [hi]

theorem remainingAt_relink (s : State) (L : Layout) (prev next i : Nat) :
    (relink s L prev next).remainingAt L i = s.remainingAt L i := by
  unfold remainingAt
  rw [node?_relink]
  split
  · cases s.node? L i <;> rfl
  · rfl

theorem length_relink (s : State) (L : Layout) (prev next : Nat) :
    (relink s L prev next).nodes.length = s.nodes.length := by
  unfold relink
  split
  · rfl
  · split <;> simp

theorem State.Shaped.relink {s : State} {L : Layout} (hs : s.Shaped L) (prev next : Nat) :
    (relink s L prev next).Shaped L := by
  unfold Chain.relink
  split
  · exact hs
  · split
    · exact hs.setNode _ _
    · exact hs

theorem node?_unlink (s : State) (L : Layout) {prev cur k : Nat} (next : Nat)
    (hkc : k ≠ cur) (hkp : k ≠ prev) :
    (relink (s.setNode L cur Node.idle) L prev next).node? L k = s.node? L k := by
  rw [node?_relink, if_neg fun hp => hkp hp.2.symm, node?_setNode, if_neg (Ne.symm hkc)]

theorem expire_keep (L : Layout) (e : Nat) (raw : List (BitVec w)) (fuel prev cur : Nat)
    (s : State) (cooked : List (BitVec w)) {n : Node} (hcur : cur ≠ null)
    (hn : s.node? L cur = some n) (he : e < n.remaining) :
    expire L e raw (fuel + 1) prev cur s cooked =
      expire L e raw fuel cur n.next (s.setNode L cur { n with remaining := n.remaining - e })
        cooked := by
  simp only [expire, hcur, ↓reduceIte, hn, he]

theorem expire_unlink (L : Layout) (e : Nat) (raw : List (BitVec w)) (fuel prev cur : Nat)
    (s : State) (cooked : List (BitVec w)) {n : Node} (hcur : cur ≠ null)
    (hn : s.node? L cur = some n) (he : ¬e < n.remaining) :
    expire L e raw (fuel + 1) prev cur s cooked =
      expire L e raw fuel prev n.next (relink (s.setNode L cur Node.idle) L prev n.next)
        (commitAt raw cooked (cur / L.cols) (cur % L.cols)) := by
  simp only [expire, hcur, ↓reduceIte, hn, he]
  rfl

def survivors (s : State) (L : Layout) (e : Nat) (l : List Nat) : List Nat :=
  l.filter fun i => e < s.remainingAt L i

section Walk

variable (s₀ : State) (cooked₀ raw : List (BitVec w)) (L : Layout) (e : Nat)

/-- The walk of `expire` from `s₀`, having visited `done` of the chain `done ++ rest`, in state
`s` with `cur` the next key and `prev` the last key kept. -/
structure WalkInv (done rest : List Nat) (prev cur : Nat) (s : State) (cooked : List (BitVec w)) :
    Prop where
  kept : s.Walk L s.head (survivors s₀ L e done) cur
  last : (survivors s₀ L e done = [] ∧ prev = null) ∨
    ∃ l, survivors s₀ L e done = l ++ [prev]
  rest : s.Linked L cur rest
  shaped : s.Shaped L
  length : s.nodes.length = s₀.nodes.length
  isSome : ∀ i, (s.node? L i).isSome = (s₀.node? L i).isSome
  remaining : ∀ i, s.remainingAt L i =
    if i ∈ done then s₀.remainingAt L i - e else s₀.remainingAt L i
  detached : ∀ i n, s.node? L i = some n → n.remaining = 0 → n.next = null
  cooked_length : cooked.length = cooked₀.length
  bits : ∀ r c, bitAt cooked r c =
    if c < L.cols ∧ r * L.cols + c ∈ done ∧ s₀.remainingAt L (r * L.cols + c) ≤ e ∧
      r < raw.length ∧ r < cooked₀.length then bitAt raw r c else bitAt cooked₀ r c

variable {s₀ cooked₀ raw L e}

theorem mem_survivors {l : List Nat} {i : Nat} :
    i ∈ survivors s₀ L e l ↔ i ∈ l ∧ e < s₀.remainingAt L i := by
  simp [survivors]

variable {done rest : List Nat} {prev cur : Nat} {s : State} {cooked : List (BitVec w)}

theorem WalkInv.at_cur (h : WalkInv s₀ cooked₀ raw L e done (cur :: rest) prev cur s cooked)
    (hl : (done ++ cur :: rest).Nodup) {n : Node} (hn : s.node? L cur = some n) :
    cur ∉ done ∧ cur ∉ rest ∧ n.remaining = s₀.remainingAt L cur ∧ cur ≠ null ∧
      s.Linked L n.next rest := by
  have hdone : cur ∉ done := fun hc =>
    (List.nodup_append.mp hl).2.2 cur hc cur List.mem_cons_self rfl
  obtain ⟨-, hnull, n', hn', hnext⟩ := h.rest
  rw [hn, Option.some.injEq] at hn'
  subst hn'
  refine ⟨hdone, (List.nodup_cons.mp (List.nodup_append.mp hl).2.1).1, ?_, hnull, hnext⟩
  rw [← remainingAt_of_node? hn, h.remaining cur, if_neg hdone]

theorem WalkInv.prev_kept (h : WalkInv s₀ cooked₀ raw L e done rest prev cur s cooked) :
    prev = null ∨ (prev ∈ done ∧ e < s₀.remainingAt L prev) := by
  rcases h.last with ⟨-, hp⟩ | ⟨l, hl⟩
  · exact .inl hp
  · exact .inr (mem_survivors.mp (hl ▸ List.mem_append_right l List.mem_cons_self))

theorem WalkInv.prev_ne (h : WalkInv s₀ cooked₀ raw L e done rest prev cur s cooked)
    (hp : prev ≠ null) {k : Nat} (hk : k ∉ done) : prev ≠ k :=
  fun hpk => hk (hpk ▸ (h.prev_kept.resolve_left hp).1)

/-- A key with more than `e` ticks left is advanced and becomes the last key kept. -/
theorem WalkInv.keep (h : WalkInv s₀ cooked₀ raw L e done (cur :: rest) prev cur s cooked)
    (hl : (done ++ cur :: rest).Nodup) {n : Node} (hn : s.node? L cur = some n)
    (he : e < n.remaining) :
    WalkInv s₀ cooked₀ raw L e (done ++ [cur]) rest cur n.next
      (s.setNode L cur { n with remaining := n.remaining - e }) cooked := by
  obtain ⟨hdone, hrest, hrem, hnull, hnext⟩ := h.at_cur hl hn
  have hsurv : survivors s₀ L e (done ++ [cur]) = survivors s₀ L e done ++ [cur] := by
    simp [survivors, List.filter_append, ← hrem, he]
  have hother : ∀ k, k ≠ cur →
      (s.setNode L cur { n with remaining := n.remaining - e }).node? L k = s.node? L k :=
    fun k hk => by rw [node?_setNode, if_neg (Ne.symm hk)]
  constructor
  · rw [hsurv, setNode_head, walk_append]
    refine ⟨cur, h.kept.frame fun k hk => ?_, rfl, hnull, { n with remaining := n.remaining - e },
      ?_, rfl⟩
    · rw [hother k fun hkc => hdone (hkc ▸ (mem_survivors.mp hk).1)]
    · rw [node?_setNode, if_pos rfl, hn]
      rfl
  · exact .inr ⟨_, hsurv⟩
  · exact hnext.frame fun k hk => by rw [hother k fun hkc => hrest (hkc ▸ hk)]
  · exact h.shaped.setNode _ _
  · rw [length_setNode, h.length]
  · intro i
    rw [node?_setNode, ← h.isSome i]
    split
    · rename_i hi
      subst hi
      simp [hn]
    · rfl
  · intro i
    rw [remainingAt_setNode, h.remaining i]
    by_cases hi : cur = i
    · subst hi
      simp [hn, hdone, hrem]
    · simp [hi, Ne.symm hi]
  · intro i m him hm0
    by_cases hi : cur = i
    · subst hi
      rw [node?_setNode, if_pos rfl, hn] at him
      cases him
      simp at hm0
      omega
    · rw [hother i (Ne.symm hi)] at him
      exact h.detached i m him hm0
  · exact h.cooked_length
  · intro r c
    rw [h.bits r c]
    by_cases hk : r * L.cols + c = cur
    · have hle : ¬s₀.remainingAt L cur ≤ e := by omega
      simp [hk, hdone, hle]
    · simp [hk]

theorem WalkInv.kept_unlink (h : WalkInv s₀ cooked₀ raw L e done (cur :: rest) prev cur s cooked)
    (hl : (done ++ cur :: rest).Nodup) (hdone : cur ∉ done) (next : Nat) :
    (relink (s.setNode L cur Node.idle) L prev next).Walk L
      (relink (s.setNode L cur Node.idle) L prev next).head (survivors s₀ L e done) next := by
  rw [relink_head]
  rcases h.last with ⟨hnil, hp⟩ | ⟨l, hl'⟩
  · rw [hnil, if_pos hp]
    rfl
  · have hkept := h.kept
    rw [hl', walk_append] at hkept
    obtain ⟨j, hwalk, rfl, hpnull, p, hp, -⟩ := hkept
    have hnodup : (l ++ [prev]).Nodup := hl'.symm ▸ (List.nodup_append.mp hl).1.filter _
    have hpl : prev ∉ l := fun hm =>
      (List.nodup_append.mp hnodup).2.2 prev hm prev List.mem_cons_self rfl
    rw [if_neg hpnull, hl', walk_append]
    refine ⟨prev, hwalk.frame fun k hk => ?_, rfl, hpnull, { p with next := next }, ?_, rfl⟩
    · have hkd : k ∈ done := (mem_survivors.mp (hl' ▸ List.mem_append_left _ hk)).1
      rw [node?_unlink s L next (fun hkc : k = cur => hdone (hkc ▸ hkd))
        (fun hkp : k = prev => hpl (hkp ▸ hk))]
    · rw [node?_relink, if_pos ⟨hpnull, rfl⟩, node?_setNode, if_neg (h.prev_ne hpnull hdone).symm,
        hp]
      rfl

theorem WalkInv.detached_unlink
    (h : WalkInv s₀ cooked₀ raw L e done (cur :: rest) prev cur s cooked) (hdone : cur ∉ done)
    {n : Node} (hn : s.node? L cur = some n) (next : Nat) (i : Nat) (m : Node)
    (him : (relink (s.setNode L cur Node.idle) L prev next).node? L i = some m)
    (hm0 : m.remaining = 0) : m.next = null := by
  by_cases hic : i = cur
  · subst hic
    have hpc : ¬(prev ≠ null ∧ prev = i) := fun ⟨hp, hpi⟩ => h.prev_ne hp hdone hpi
    rw [node?_relink, if_neg hpc, node?_setNode, if_pos rfl, hn] at him
    cases him
    rfl
  by_cases hip : prev ≠ null ∧ prev = i
  · obtain ⟨hpnull, rfl⟩ := hip
    rw [node?_relink, if_pos ⟨hpnull, rfl⟩, node?_setNode, if_neg (Ne.symm hic)] at him
    obtain ⟨p, hp, rfl⟩ := Option.map_eq_some_iff.mp him
    obtain ⟨hpd, hkept⟩ := h.prev_kept.resolve_left hpnull
    have hpr := h.remaining prev
    rw [remainingAt_of_node? hp, if_pos hpd] at hpr
    have hm0' : p.remaining = 0 := hm0
    omega
  · rw [node?_relink, if_neg hip, node?_setNode, if_neg (Ne.symm hic)] at him
    exact h.detached i m him hm0

theorem WalkInv.bits_unlink
    (h : WalkInv s₀ cooked₀ raw L e done (cur :: rest) prev cur s cooked) (hdone : cur ∉ done)
    {n : Node} (hn : s.node? L cur = some n) (hle : s₀.remainingAt L cur ≤ e) (r c : Nat) :
    bitAt (commitAt raw cooked (cur / L.cols) (cur % L.cols)) r c =
      if c < L.cols ∧ r * L.cols + c ∈ done ++ [cur] ∧ s₀.remainingAt L (r * L.cols + c) ≤ e ∧
        r < raw.length ∧ r < cooked₀.length then bitAt raw r c else bitAt cooked₀ r c := by
  have hpos : 0 < L.cols := by
    have hlt := (node?_isSome_iff h.shaped cur).mp (by simp [hn])
    exact Nat.pos_of_ne_zero fun h0 => by simp [h0] at hlt
  rw [bitAt_commitAt, h.bits r c, h.cooked_length]
  -- the committed bit is the key `cur`, at its row and column
  by_cases hk : c < L.cols ∧ r * L.cols + c = cur
  · obtain ⟨hc, hidx⟩ := hk
    obtain ⟨hr', hc'⟩ := (key_eq_index_iff hpos).mpr ⟨hc, hidx⟩
    rw [← hr', ← hc']
    simp [hidx, hc, hdone, hle]
  · have hne : ¬(r = cur / L.cols ∧ c = cur % L.cols) := fun h' =>
      hk ((key_eq_index_iff hpos).mp h')
    rw [if_neg fun h' => hne ⟨h'.1, h'.2.1⟩]
    by_cases hc : c < L.cols
    · simp [hc, show r * L.cols + c ≠ cur from fun h' => hk ⟨hc, h'⟩]
    · simp [hc]

/-- A key with at most `e` ticks left commits its raw bit, becomes idle and is unlinked. -/
theorem WalkInv.unlink (h : WalkInv s₀ cooked₀ raw L e done (cur :: rest) prev cur s cooked)
    (hl : (done ++ cur :: rest).Nodup) {n : Node} (hn : s.node? L cur = some n)
    (he : ¬e < n.remaining) :
    WalkInv s₀ cooked₀ raw L e (done ++ [cur]) rest prev n.next
      (relink (s.setNode L cur Node.idle) L prev n.next)
      (commitAt raw cooked (cur / L.cols) (cur % L.cols)) := by
  obtain ⟨hdone, hrest, hrem, -, hnext⟩ := h.at_cur hl hn
  have hsurv : survivors s₀ L e (done ++ [cur]) = survivors s₀ L e done := by
    simp [survivors, List.filter_append, ← hrem, he]
  -- the key before `cur` is `null` or kept, so no key of the rest
  have hprest : ∀ k ∈ rest, k ≠ prev := by
    intro k hk hkp
    rcases h.prev_kept with hp | ⟨hpd, -⟩
    · exact (hnext.mem hk).1 (hkp.trans hp)
    · exact (List.nodup_append.mp hl).2.2 prev hpd k (List.mem_cons_of_mem _ hk) hkp.symm
  constructor
  · rw [hsurv]
    exact h.kept_unlink hl hdone n.next
  · rw [hsurv]
    exact h.last
  · exact hnext.frame fun k hk => by
      rw [node?_unlink s L n.next (fun hkc : k = cur => hrest (hkc ▸ hk)) (hprest k hk)]
  · exact State.Shaped.relink (h.shaped.setNode cur Node.idle) prev n.next
  · rw [length_relink, length_setNode, h.length]
  · intro i
    rw [node?_relink, ← h.isSome i]
    split <;> rw [node?_setNode] <;> split <;> simp_all
  · intro i
    rw [remainingAt_relink, remainingAt_setNode, h.remaining i]
    by_cases hi : cur = i
    · subst hi
      simp [hn, hdone, Node.idle]
      omega
    · simp [hi, Ne.symm hi]
  · exact h.detached_unlink hdone hn n.next
  · rw [length_commitAt, h.cooked_length]
  · exact h.bits_unlink hdone hn (by omega)

theorem WalkInv.start {l₀ : List Nat} (hlinked : s₀.Linked L s₀.head l₀)
    (hs : s₀.Shaped L)
    (hdet : ∀ i n, s₀.node? L i = some n → n.remaining = 0 → n.next = null) :
    WalkInv s₀ cooked₀ raw L e [] l₀ null s₀.head s₀ cooked₀ where
  kept := rfl
  last := .inl ⟨rfl, rfl⟩
  rest := hlinked
  shaped := hs
  length := rfl
  isSome _ := rfl
  remaining i := by simp
  detached := hdet
  cooked_length := rfl
  bits r c := by simp

/-- With fuel for every key left, the walk visits the whole chain and stops at `null`. -/
theorem WalkInv.run {l₀ : List Nat} (hl : l₀.Nodup) :
    ∀ (fuel : Nat) (done rest : List Nat) (prev cur : Nat) (s : State) (cooked : List (BitVec w)),
      done ++ rest = l₀ → WalkInv s₀ cooked₀ raw L e done rest prev cur s cooked →
      rest.length < fuel →
      ∃ prev', WalkInv s₀ cooked₀ raw L e l₀ [] prev' null
        (expire L e raw fuel prev cur s cooked).1 (expire L e raw fuel prev cur s cooked).2
  | 0, _, _, _, _, _, _, _, _, hf => absurd hf (Nat.not_lt_zero _)
  | fuel + 1, done, rest, prev, cur, s, cooked, hsplit, h, hf => by
    cases rest with
    | nil =>
      have hcur : cur = null := h.rest
      subst hcur
      rw [List.append_nil] at hsplit
      subst hsplit
      exact ⟨prev, by simpa [expire] using h⟩
    | cons k rest =>
      obtain ⟨hk, hcur, n, hn, -⟩ := h.rest
      subst k
      have hl' : (done ++ cur :: rest).Nodup := hsplit ▸ hl
      have hsplit' : (done ++ [cur]) ++ rest = l₀ := by simp [← hsplit]
      have hf' : rest.length < fuel := by simpa using hf
      by_cases he : e < n.remaining
      · rw [expire_keep L e raw fuel prev cur s cooked hcur hn he]
        exact WalkInv.run hl fuel _ _ _ _ _ _ hsplit' (h.keep hl' hn he) hf'
      · rw [expire_unlink L e raw fuel prev cur s cooked hcur hn he]
        exact WalkInv.run hl fuel _ _ _ _ _ _ hsplit' (h.unlink hl' hn he) hf'

end Walk

structure Expired (s₀ : State) (cooked₀ raw : List (BitVec w)) (L : Layout) (e : Nat)
    (l₀ : List Nat) (s : State) (cooked : List (BitVec w)) : Prop where
  linked : s.Linked L s.head (survivors s₀ L e l₀)
  shaped : s.Shaped L
  length : s.nodes.length = s₀.nodes.length
  isSome : ∀ i, (s.node? L i).isSome = (s₀.node? L i).isSome
  remaining : ∀ i, s.remainingAt L i = s₀.remainingAt L i - e
  detached : ∀ i n, s.node? L i = some n → n.remaining = 0 → n.next = null
  cooked_length : cooked.length = cooked₀.length
  bits : ∀ r c, bitAt cooked r c =
    if c < L.cols ∧ 0 < s₀.remainingAt L (r * L.cols + c) ∧
      s₀.remainingAt L (r * L.cols + c) ≤ e ∧ r < raw.length ∧ r < cooked₀.length
    then bitAt raw r c else bitAt cooked₀ r c

section Spec

variable {s₀ : State} {cooked₀ raw : List (BitVec w)} {L : Layout} {e : Nat} {l₀ : List Nat}

theorem WalkInv.expired (hmem : ∀ i, i ∈ l₀ ↔ 0 < s₀.remainingAt L i) {prev : Nat}
    {s : State}
    {cooked : List (BitVec w)} (h : WalkInv s₀ cooked₀ raw L e l₀ [] prev null s cooked) :
    Expired s₀ cooked₀ raw L e l₀ s cooked where
  linked := h.kept
  shaped := h.shaped
  length := h.length
  isSome := h.isSome
  remaining i := by
    rw [h.remaining i]
    split
    · rfl
    · have hi : s₀.remainingAt L i = 0 := by
        by_contra hne
        exact ‹i ∉ l₀› ((hmem i).mpr (Nat.pos_of_ne_zero hne))
      simp [hi]
  detached := h.detached
  cooked_length := h.cooked_length
  bits r c := by simp only [h.bits r c, hmem]

/-- The walk of a pass, taken only when the chain is not empty, visits every key in flight:
it advances the kept ones and commits and unlinks the others. -/
theorem expired_of_walk (hlinked : s₀.Linked L s₀.head l₀)
    (hmem : ∀ i, i ∈ l₀ ↔ 0 < s₀.remainingAt L i) (hs : s₀.Shaped L)
    (hdet : ∀ i n, s₀.node? L i = some n → n.remaining = 0 → n.next = null) :
    Expired s₀ cooked₀ raw L e l₀
      (if s₀.head = null then (s₀, cooked₀)
        else expire L e raw (s₀.size + 1) null s₀.head s₀ cooked₀).1
      (if s₀.head = null then (s₀, cooked₀)
        else expire L e raw (s₀.size + 1) null s₀.head s₀ cooked₀).2 := by
  split
  · rename_i hnull
    have hl : l₀ = [] := eq_nil_of_linked_null (hnull ▸ hlinked)
    subst hl
    have hrun : WalkInv s₀ cooked₀ raw L e [] [] null s₀.head s₀ cooked₀ :=
      WalkInv.start hlinked hs hdet
    rw [hnull] at hrun
    exact hrun.expired hmem
  · obtain ⟨prev, h⟩ :=
      WalkInv.run hlinked.nodup (s₀.size + 1) [] l₀ null s₀.head s₀ cooked₀ rfl
        (WalkInv.start hlinked hs hdet) (Nat.lt_succ_of_le (hlinked.length_le hs))
    exact h.expired hmem

end Spec

end KeyDebounce.Chain
