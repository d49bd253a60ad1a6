import Mathlib.Data.Finset.Card
import KeyDebounce.Debounce.Chain

/-!
# Keys by index, and the chains through them

A key is addressed by its index `row * cols + col`. `Walk s L i l j` says that following the
`next` links from `i` visits exactly the keys `l`, in order, and then arrives at `j`; the chain
from `i` is the walk that arrives at `null`. Links are followed through `node?`, so every key on
a walk exists. A chain is finite by construction, so it never revisits a key, and the fuelled
walk `pending` returns it whole.
-/

set_option autoImplicit false

namespace KeyDebounce.Chain

namespace State

def Shaped (s : State) (L : Layout) : Prop := ∀ row ∈ s.nodes, row.length = L.cols

def remainingAt (s : State) (L : Layout) (i : Nat) : Nat :=
  ((s.node? L i).map (·.remaining)).getD 0

def Walk (s : State) (L : Layout) : Nat → List Nat → Nat → Prop
  | i, [], j => i = j
  | i, k :: l, j => k = i ∧ i ≠ null ∧ ∃ n, s.node? L i = some n ∧ Walk s L n.next l j

def Linked (s : State) (L : Layout) (i : Nat) (l : List Nat) : Prop := s.Walk L i l null

def Chained (s : State) (L : Layout) : Prop :=
  ∃ l, s.Linked L s.head l ∧ ∀ i, i ∈ l ↔ 0 < s.remainingAt L i

def Detached (s : State) (L : Layout) : Prop :=
  ∀ i n, s.node? L i = some n → n.remaining = 0 → n.next = null

variable {s s' : State} {L : Layout}

/-! ## Reading and writing one key -/

theorem eq_of_div_mod {c i j : Nat} (hd : i / c = j / c) (hm : i % c = j % c) : i = j := by
  rw [← Nat.div_add_mod i c, ← Nat.div_add_mod j c, hd, hm]

theorem node?_setNode (s : State) (L : Layout) (i j : Nat) (n : Node) :
    (s.setNode L i n).node? L j = if i = j then (s.node? L i).map fun _ => n else s.node? L j := by
  unfold node? setNode
  by_cases hij : i = j
  · subst hij
    rw [if_pos rfl, List.getElem?_modify_eq]
    cases s.nodes[i / L.cols]? with
    | none => rfl
    | some row => exact List.getElem?_set_self'
  · simp only [hij, ↓reduceIte, List.getElem?_modify]
    by_cases hd : i / L.cols = j / L.cols
    · have hm : i % L.cols ≠ j % L.cols := fun hm => hij (eq_of_div_mod hd hm)
      cases s.nodes[j / L.cols]? <;> simp [hd, List.getElem?_set_ne hm]
    · cases s.nodes[j / L.cols]? <;> simp [hd]

@[simp] theorem setNode_head (s : State) (L : Layout) (i : Nat) (n : Node) :
    (s.setNode L i n).head = s.head := rfl

@[simp] theorem length_setNode (s : State) (L : Layout) (i : Nat) (n : Node) :
    (s.setNode L i n).nodes.length = s.nodes.length := by
  simp [setNode]

theorem Shaped.setNode (hs : s.Shaped L) (i : Nat) (n : Node) : (s.setNode L i n).Shaped L := by
  intro row hrow
  obtain ⟨r, hr, rfl⟩ := List.getElem_of_mem hrow
  simp only [State.setNode, List.getElem_modify] at hr ⊢
  split <;> simp [hs _ (List.getElem_mem _)]

theorem remainingAt_setNode (s : State) (L : Layout) (i j : Nat) (n : Node) :
    (s.setNode L i n).remainingAt L j =
      if i = j ∧ (s.node? L i).isSome then n.remaining else s.remainingAt L j := by
  unfold remainingAt
  rw [node?_setNode]
  by_cases hij : i = j
  · subst hij
    cases s.node? L i <;> simp
  · simp [hij]

theorem remainingAt_of_node? {i : Nat} {n : Node} (hn : s.node? L i = some n) :
    s.remainingAt L i = n.remaining := by
  simp [remainingAt, hn]

@[simp] theorem node?_withHead (s : State) (L : Layout) (h i : Nat) :
    ({ s with head := h } : State).node? L i = s.node? L i := rfl

@[simp] theorem remainingAt_withHead (s : State) (L : Layout) (h i : Nat) :
    ({ s with head := h } : State).remainingAt L i = s.remainingAt L i := rfl

theorem index_div {cols row col : Nat} (hc : col < cols) : (row * cols + col) / cols = row := by
  rw [Nat.mul_comm, Nat.mul_add_div (by omega), Nat.div_eq_of_lt hc, Nat.add_zero]

theorem index_mod {cols row col : Nat} (hc : col < cols) : (row * cols + col) % cols = col := by
  rw [Nat.mul_comm, Nat.mul_add_mod, Nat.mod_eq_of_lt hc]

theorem node?_isSome_iff (hs : s.Shaped L) (i : Nat) :
    (s.node? L i).isSome ↔ i < s.nodes.length * L.cols := by
  unfold node?
  cases h : s.nodes[i / L.cols]? with
  | none =>
    have hr : s.nodes.length ≤ i / L.cols := List.getElem?_eq_none_iff.mp h
    simp only [Option.bind_none, Option.isSome_none, Bool.false_eq_true, false_iff, Nat.not_lt]
    rcases Nat.eq_zero_or_pos L.cols with h0 | hpos
    · simp [h0]
    · exact (Nat.le_div_iff_mul_le hpos).mp hr
  | some row =>
    have hr : i / L.cols < s.nodes.length := (List.getElem?_eq_some_iff.mp h).1
    have hlen : row.length = L.cols := hs row (List.mem_of_getElem? h)
    rcases Nat.eq_zero_or_pos L.cols with h0 | hpos
    · simp_all
    · have hi : i < s.nodes.length * L.cols := (Nat.div_lt_iff_lt_mul hpos).mp hr
      simp [hlen, Nat.mod_lt i hpos, hi]

theorem node?_index (s : State) (L : Layout) {row col : Nat} (hc : col < L.cols) :
    s.node? L (row * L.cols + col) = (s.nodes[row]?).bind (·[col]?) := by
  unfold node?
  rw [index_div hc, index_mod hc]

theorem size_eq (hs : s.Shaped L) : s.size = s.nodes.length * L.cols := by
  unfold size
  rw [List.map_congr_left hs]
  simp

/-! ## Walks and chains -/

theorem walk_append {i k : Nat} (l₁ l₂ : List Nat) :
    s.Walk L i (l₁ ++ l₂) k ↔ ∃ j, s.Walk L i l₁ j ∧ s.Walk L j l₂ k := by
  induction l₁ generalizing i with
  | nil => simp [Walk]
  | cons x l₁ ih =>
    simp only [List.cons_append, Walk, ih]
    constructor
    · rintro ⟨rfl, hi, n, hn, j, h₁, h₂⟩
      exact ⟨j, ⟨rfl, hi, n, hn, h₁⟩, h₂⟩
    · rintro ⟨j, ⟨rfl, hi, n, hn, h₁⟩, h₂⟩
      exact ⟨rfl, hi, n, hn, j, h₁, h₂⟩

theorem Walk.mem {i j k : Nat} {l : List Nat} (h : s.Walk L i l j) (hk : k ∈ l) :
    k ≠ null ∧ (s.node? L k).isSome := by
  induction l generalizing i with
  | nil => cases hk
  | cons x l ih =>
    obtain ⟨rfl, hi, n, hn, hrest⟩ := h
    rcases List.mem_cons.mp hk with rfl | hk
    · exact ⟨hi, by simp [hn]⟩
    · exact ih hrest hk

theorem Walk.frame {i j : Nat} {l : List Nat} (h : s.Walk L i l j)
    (hkeep : ∀ k ∈ l, (s'.node? L k).map (·.next) = (s.node? L k).map (·.next)) :
    s'.Walk L i l j := by
  induction l generalizing i with
  | nil => exact h
  | cons k l ih =>
    obtain ⟨rfl, hi, n, hn, hrest⟩ := h
    have hk := hkeep _ List.mem_cons_self
    rw [hn] at hk
    obtain ⟨n', hn', hnext⟩ := Option.map_eq_some_iff.mp hk
    refine ⟨rfl, hi, n', hn', ?_⟩
    rw [hnext]
    exact ih hrest fun x hx => hkeep x (List.mem_cons_of_mem _ hx)

theorem eq_nil_of_linked_null {l : List Nat} (h : s.Linked L null l) : l = [] := by
  cases l with
  | nil => rfl
  | cons k l => exact absurd rfl h.2.1

theorem Linked.unique {i : Nat} {l l' : List Nat} (h : s.Linked L i l) (h' : s.Linked L i l') :
    l = l' := by
  induction l generalizing i l' with
  | nil =>
    have hi : i = null := h
    subst hi
    exact (eq_nil_of_linked_null h').symm
  | cons k l ih =>
    obtain ⟨rfl, hi, n, hn, hrest⟩ := h
    cases l' with
    | nil => exact absurd h' hi
    | cons k' l' =>
      obtain ⟨rfl, -, n', hn', hrest'⟩ := h'
      rw [hn, Option.some.injEq] at hn'
      subst hn'
      rw [ih hrest hrest']

theorem Linked.suffix {i k : Nat} {l₁ l₂ : List Nat} (h : s.Linked L i (l₁ ++ k :: l₂)) :
    s.Linked L k (k :: l₂) := by
  obtain ⟨j, -, hj⟩ := (walk_append l₁ (k :: l₂)).mp h
  have hk : k = j := hj.1
  subst hk
  exact hj

theorem Linked.nodup {i : Nat} {l : List Nat} (h : s.Linked L i l) : l.Nodup := by
  induction l generalizing i with
  | nil => exact List.nodup_nil
  | cons k l ih =>
    obtain ⟨rfl, hi, n, hn, hrest⟩ := h
    refine List.nodup_cons.mpr ⟨fun hk => ?_, ih hrest⟩
    obtain ⟨l₁, l₂, rfl⟩ := List.append_of_mem hk
    have h₁ : s.Linked L k (k :: l₂) := Linked.suffix hrest
    have h₂ : s.Linked L k (k :: (l₁ ++ k :: l₂)) := ⟨rfl, hi, n, hn, hrest⟩
    have hlen := congrArg List.length (h₁.unique h₂)
    simp only [List.length_cons, List.length_append] at hlen
    omega

theorem Linked.length_le (hs : s.Shaped L) {i : Nat} {l : List Nat} (h : s.Linked L i l) :
    l.length ≤ s.size := by
  have hsub : l.toFinset ⊆ Finset.range s.size := by
    intro k hk
    rw [List.mem_toFinset] at hk
    rw [Finset.mem_range, size_eq hs, ← node?_isSome_iff hs]
    exact (Walk.mem h hk).2
  calc l.length = l.toFinset.card := (List.toFinset_card_of_nodup h.nodup).symm
    _ ≤ (Finset.range s.size).card := Finset.card_le_card hsub
    _ = s.size := Finset.card_range _

theorem Linked.chainFrom_eq {i : Nat} {l : List Nat} (h : s.Linked L i l) {fuel : Nat}
    (hf : l.length < fuel) : s.chainFrom L fuel i = l := by
  induction l generalizing i fuel with
  | nil =>
    have hi : i = null := h
    obtain ⟨fuel, rfl⟩ : ∃ f, fuel = f + 1 := ⟨fuel - 1, by simp at hf; omega⟩
    simp [chainFrom, hi]
  | cons k l ih =>
    obtain ⟨rfl, hi, n, hn, hrest⟩ := h
    obtain ⟨fuel, rfl⟩ : ∃ f, fuel = f + 1 := ⟨fuel - 1, by simp at hf; omega⟩
    simp only [chainFrom, hi, ↓reduceIte, hn]
    rw [ih hrest (by simpa using hf)]

theorem Linked.pending_eq (hs : s.Shaped L) {l : List Nat} (h : s.Linked L s.head l) :
    s.pending L = l :=
  h.chainFrom_eq (Nat.lt_succ_of_le (h.length_le hs))

end State

end KeyDebounce.Chain
