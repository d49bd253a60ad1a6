import KeyDebounce.Proofs.Bits

/-!
# Row-by-row and key-by-key passes

The dense engines walk a pass in two nested loops: the first `n` rows of the state, the raw
sample and the cooked buffer side by side, and in each row its keys from column 0, threading the
row's count of busy keys and its cooked row. `scanWith` and `keysWith` are those two loops with
the row and key steps as parameters. A key step that writes only its own column leaves every other
key to its own step, and one that keeps the busy count in step with a predicate on keys keeps it
for the whole row.
-/

set_option autoImplicit false

namespace KeyDebounce

open Row

variable {w : Nat}

def scanWith {ρ : Type} (f : ρ → BitVec w → BitVec w → ρ × BitVec w) :
    Nat → List ρ → List (BitVec w) → List (BitVec w) → List ρ × List (BitVec w)
  | n + 1, r :: rows, x :: raw, c :: cooked =>
    let (r', c') := f r x c
    let (rows', cooked') := scanWith f n rows raw cooked
    (r' :: rows', c' :: cooked')
  | _, rows, _, cooked => (rows, cooked)

def keysWith {κ : Type} (f : Nat → κ → Nat → BitVec w → κ × Nat × BitVec w) :
    Nat → List κ → Nat → BitVec w → List κ × Nat × BitVec w
  | _, [], active, cooked => ([], active, cooked)
  | col, k :: rest, active, cooked =>
    let (k', active', cooked') := f col k active cooked
    let (rest', active'', cooked'') := keysWith f (col + 1) rest active' cooked'
    (k' :: rest', active'', cooked'')

section Scan

variable {ρ : Type} (f : ρ → BitVec w → BitVec w → ρ × BitVec w)

theorem length_scanWith : ∀ (n : Nat) (rows : List ρ) (raw cooked : List (BitVec w)),
    (scanWith f n rows raw cooked).1.length = rows.length ∧
      (scanWith f n rows raw cooked).2.length = cooked.length
  | n + 1, _ :: rows, _ :: raw, _ :: cooked => by
    simp [scanWith, length_scanWith n rows raw cooked]
  | 0, _, _, _ | _ + 1, [], _, _ | _ + 1, _ :: _, [], _ | _ + 1, _ :: _, _ :: _, [] => by
    simp [scanWith]

theorem scanWith_of_lt : ∀ (n : Nat) (rows : List ρ) (raw cooked : List (BitVec w)) (r : Nat)
    (_ : r < n) (hrows : r < rows.length) (hraw : r < raw.length) (hcooked : r < cooked.length),
    (scanWith f n rows raw cooked).1[r]? = some (f rows[r] raw[r] cooked[r]).1 ∧
      (scanWith f n rows raw cooked).2[r]? = some (f rows[r] raw[r] cooked[r]).2
  | _ + 1, _ :: _, _ :: _, _ :: _, 0, _, _, _, _ => by simp [scanWith]
  | n + 1, _ :: rows, _ :: raw, _ :: cooked, r + 1, hn, hrows, hraw, hcooked => by
    simpa [scanWith] using scanWith_of_lt n rows raw cooked r (by omega)
      (by simpa using hrows) (by simpa using hraw) (by simpa using hcooked)

theorem scanWith_of_le : ∀ (n : Nat) (rows : List ρ) (raw cooked : List (BitVec w)) (r : Nat),
    (n ≤ r ∨ rows.length ≤ r ∨ raw.length ≤ r ∨ cooked.length ≤ r) →
    (scanWith f n rows raw cooked).1[r]? = rows[r]? ∧
      (scanWith f n rows raw cooked).2[r]? = cooked[r]?
  | n + 1, _ :: rows, _ :: raw, _ :: cooked, 0, h => by simp at h
  | n + 1, _ :: rows, _ :: raw, _ :: cooked, r + 1, h => by
    simpa [scanWith] using scanWith_of_le n rows raw cooked r (by simpa using h)
  | 0, _, _, _, _, _ | _ + 1, [], _, _, _, _ | _ + 1, _ :: _, [], _, _, _
  | _ + 1, _ :: _, _ :: _, [], _, _ => by simp [scanWith]

theorem scanWith_eq_self : ∀ (n : Nat) (rows : List ρ) (raw cooked : List (BitVec w)),
    (∀ r (hrows : r < rows.length) (hraw : r < raw.length) (hcooked : r < cooked.length), r < n →
      f rows[r] raw[r] cooked[r] = (rows[r], cooked[r])) →
    scanWith f n rows raw cooked = (rows, cooked)
  | n + 1, row :: rows, x :: raw, c :: cooked, h => by
    have hhead := h 0 (by simp) (by simp) (by simp) (by omega)
    have hrest := scanWith_eq_self n rows raw cooked fun r h₁ h₂ h₃ hr =>
      h (r + 1) (by simpa using h₁) (by simpa using h₂) (by simpa using h₃) (by omega)
    simp only [List.getElem_cons_zero] at hhead
    simp only [scanWith, hhead, hrest]
  | 0, _, _, _, _ | _ + 1, [], _, _, _ | _ + 1, _ :: _, [], _, _
  | _ + 1, _ :: _, _ :: _, [], _ => by simp [scanWith]

theorem scanWith_congr (g : ρ → BitVec w → BitVec w → ρ × BitVec w) :
    ∀ (n : Nat) (rows : List ρ) (raw cooked : List (BitVec w)),
      (∀ r ∈ rows, ∀ x c, f r x c = g r x c) →
      scanWith f n rows raw cooked = scanWith g n rows raw cooked
  | n + 1, row :: rows, x :: raw, c :: cooked, h => by
    have hrest := scanWith_congr g n rows raw cooked fun r hr => h r (List.mem_cons_of_mem _ hr)
    simp only [scanWith, h row List.mem_cons_self, hrest]
  | 0, _, _, _, _ | _ + 1, [], _, _, _ | _ + 1, _ :: _, [], _, _
  | _ + 1, _ :: _, _ :: _, [], _ => by simp [scanWith]

theorem scanWith_forall (P : ρ → Prop) (hf : ∀ r x c, P r → P (f r x c).1) :
    ∀ (n : Nat) (rows : List ρ) (raw cooked : List (BitVec w)), (∀ r ∈ rows, P r) →
      ∀ r ∈ (scanWith f n rows raw cooked).1, P r
  | n + 1, row :: rows, _ :: raw, _ :: cooked, h => by
    simp only [scanWith, List.mem_cons, forall_eq_or_imp] at h ⊢
    exact ⟨hf _ _ _ h.1, scanWith_forall P hf n rows raw cooked h.2⟩
  | 0, _, _, _, h | _ + 1, [], _, _, h | _ + 1, _ :: _, [], _, h
  | _ + 1, _ :: _, _ :: _, [], h => by
    intro r hr
    simp only [scanWith] at hr
    exact h r hr

theorem scanWith_key {κ : Type} (P : ρ → Prop) (view : ρ → κ) (d : κ) (c : Nat)
    (rule : Bool → Bool → κ → κ × Bool)
    (hf : ∀ row x y, P row →
      (view (f row x y).1, bit (f row x y).2 c) = rule (bit x c) (bit y c) (view row))
    (n : Nat) (rows : List ρ) (raw cooked : List (BitVec w)) (hP : ∀ row ∈ rows, P row)
    (r : Nat) :
    ((((scanWith f n rows raw cooked).1[r]?).map view).getD d,
      bitAt (scanWith f n rows raw cooked).2 r c) =
      if r < n ∧ r < rows.length ∧ r < raw.length ∧ r < cooked.length then
        rule (bitAt raw r c) (bitAt cooked r c) (((rows[r]?).map view).getD d)
      else (((rows[r]?).map view).getD d, bitAt cooked r c) := by
  by_cases h : r < n ∧ r < rows.length ∧ r < raw.length ∧ r < cooked.length
  · obtain ⟨hn, h₁, h₂, h₃⟩ := h
    obtain ⟨hrows, hcooked⟩ := scanWith_of_lt f n rows raw cooked r hn h₁ h₂ h₃
    rw [if_pos ⟨hn, h₁, h₂, h₃⟩]
    simp only [bitAt, hrows, hcooked, List.getElem?_eq_getElem h₁, List.getElem?_eq_getElem h₂,
      List.getElem?_eq_getElem h₃, Option.map_some, Option.getD_some]
    exact hf _ _ _ (hP _ (List.getElem_mem h₁))
  · rw [if_neg h]
    obtain ⟨hrows, hcooked⟩ := scanWith_of_le f n rows raw cooked r (by omega)
    simp only [bitAt, hrows, hcooked]

theorem scanWith_scanned_key {κ : Type} (P : ρ → Prop) (view : ρ → κ) (d : κ)
    (c cols : Nat)
    (rule : Bool → Bool → κ → κ × Bool)
    (hf : ∀ row x y, P row → (view (f row x y).1, bit (f row x y).2 c) =
      if c < cols then rule (bit x c) (bit y c) (view row) else (view row, bit y c))
    (numRows : Nat) (rows : List ρ) (raw cooked : List (BitVec w))
    (hP : ∀ row ∈ rows, P row) (r : Nat) :
    let out := scanWith f (rowsToScan numRows rows.length raw.length cooked.length) rows raw cooked
    (((out.1[r]?).map view).getD d, bitAt out.2 r c) =
      if r < rowsToScan numRows rows.length raw.length cooked.length ∧ c < cols then
        rule (bitAt raw r c) (bitAt cooked r c) (((rows[r]?).map view).getD d)
      else (((rows[r]?).map view).getD d, bitAt cooked r c) := by
  intro out
  rw [scanWith_key f P view d c (fun x b k => if c < cols then rule x b k else (k, b)) hf _
    rows raw cooked hP r]
  -- a scanned row lies inside the state and both buffers
  by_cases hr : r < rowsToScan numRows rows.length raw.length cooked.length
  · rw [if_pos ⟨hr, Nat.lt_of_lt_of_le hr (rowsToScan_le_allocated _ _ _ _),
      Nat.lt_of_lt_of_le hr (rowsToScan_le_raw _ _ _ _),
      Nat.lt_of_lt_of_le hr (rowsToScan_le_cooked _ _ _ _)⟩]
    by_cases hc : c < cols
    · rw [if_pos hc, if_pos ⟨hr, hc⟩]
    · rw [if_neg hc, if_neg fun h => hc h.2]
  · rw [if_neg fun h => hr h.1, if_neg fun h => hr h.1]

end Scan

section Keys

variable {κ : Type} (f : Nat → κ → Nat → BitVec w → κ × Nat × BitVec w)

theorem length_keysWith : ∀ (col : Nat) (ks : List κ) (active : Nat) (cooked : BitVec w),
    (keysWith f col ks active cooked).1.length = ks.length
  | _, [], _, _ => rfl
  | col, k :: rest, active, cooked => by
    simp [keysWith, length_keysWith (col + 1) rest]

theorem keysWith_eq_self : ∀ (col : Nat) (ks : List κ) (active : Nat) (cooked : BitVec w),
    (∀ j (hj : j < ks.length), f (col + j) ks[j] active cooked = (ks[j], active, cooked)) →
    keysWith f col ks active cooked = (ks, active, cooked)
  | _, [], _, _, _ => rfl
  | col, k :: rest, active, cooked, h => by
    have hhead := h 0 (by simp)
    have hrest := keysWith_eq_self (col + 1) rest active cooked fun j hj => by
      have := h (j + 1) (by simpa using hj)
      rwa [show col + (j + 1) = col + 1 + j by omega] at this
    simp only [Nat.add_zero, List.getElem_cons_zero] at hhead
    simp only [keysWith, hhead, hrest]

theorem keysWith_congr (g : Nat → κ → Nat → BitVec w → κ × Nat × BitVec w) :
    ∀ (col : Nat) (ks : List κ) (active : Nat) (cooked : BitVec w),
      (∀ k ∈ ks, ∀ col active x, f col k active x = g col k active x) →
      keysWith f col ks active cooked = keysWith g col ks active cooked
  | _, [], _, _, _ => rfl
  | col, k :: rest, active, cooked, h => by
    have hrest := fun active cooked => keysWith_congr g (col + 1) rest active cooked
      fun k hk => h k (List.mem_cons_of_mem _ hk)
    simp only [keysWith, h k List.mem_cons_self, hrest]

variable (hf : ∀ col k active (x : BitVec w) c, c ≠ col →
  bit (f col k active x).2.2 c = bit x c)
include hf

theorem bit_keysWith_of_not_mem : ∀ (col : Nat) (ks : List κ) (active : Nat) (cooked : BitVec w)
    (c : Nat), (c < col ∨ col + ks.length ≤ c) →
      bit (keysWith f col ks active cooked).2.2 c = bit cooked c
  | _, [], _, _, _, _ => rfl
  | col, k :: rest, active, cooked, c, h => by
    simp only [List.length_cons] at h
    simp only [keysWith]
    rw [bit_keysWith_of_not_mem (col + 1) rest _ _ c (by omega), hf _ _ _ _ _ (by omega)]

theorem keysWith_key : ∀ (col : Nat) (ks : List κ) (active : Nat) (cooked : BitVec w) (j : Nat)
    (hj : j < ks.length), ∃ active' x, bit x (col + j) = bit cooked (col + j) ∧
      (keysWith f col ks active cooked).1[j]? = some (f (col + j) ks[j] active' x).1 ∧
      bit (keysWith f col ks active cooked).2.2 (col + j) =
        bit (f (col + j) ks[j] active' x).2.2 (col + j)
  | col, k :: rest, active, cooked, 0, _ => by
    refine ⟨active, cooked, rfl, by simp [keysWith], ?_⟩
    simp only [keysWith, Nat.add_zero]
    exact bit_keysWith_of_not_mem f hf (col + 1) rest _ _ col (by omega)
  | col, k :: rest, active, cooked, j + 1, hj => by
    obtain ⟨a', x, hx, hk, hb⟩ := keysWith_key (col + 1) rest (f col k active cooked).2.1
      (f col k active cooked).2.2 j (by simpa using hj)
    have hcol : col + 1 + j = col + (j + 1) := by omega
    rw [hcol] at hx hk hb
    refine ⟨a', x, ?_, by simpa [keysWith] using hk, by simpa [keysWith] using hb⟩
    rw [hx, hf _ _ _ _ _ (by omega)]

end Keys

theorem keysWith_countP {κ : Type} (f : Nat → κ → Nat → BitVec w → κ × Nat × BitVec w)
    (q : κ → Bool)
    (hf : ∀ col k base x, (f col k (base + if q k then 1 else 0) x).2.1 =
      base + if q (f col k (base + if q k then 1 else 0) x).1 then 1 else 0) :
    ∀ (col : Nat) (ks : List κ) (base : Nat) (cooked : BitVec w),
      (keysWith f col ks (base + ks.countP q) cooked).2.1 =
        base + (keysWith f col ks (base + ks.countP q) cooked).1.countP q
  | _, [], _, _ => rfl
  | col, k :: rest, base, cooked => by
    have hsplit : base + (k :: rest).countP q = base + rest.countP q + if q k then 1 else 0 := by
      rw [List.countP_cons]
      omega
    simp only [keysWith]
    rw [hsplit, hf col k (base + rest.countP q) cooked]
    generalize f col k (base + rest.countP q + if q k then 1 else 0) cooked = out
    -- the count carried into the rest of the row is the rest's own count plus the new key's
    have hbase : base + rest.countP q + (if q out.1 then 1 else 0) =
        (base + if q out.1 then 1 else 0) + rest.countP q := by omega
    rw [hbase, keysWith_countP f q hf (col + 1) rest (base + if q out.1 then 1 else 0),
      List.countP_cons]
    omega

theorem keysWith_take_countP {κ : Type} (f : Nat → κ → Nat → BitVec w → κ × Nat × BitVec w)
    (q : κ → Bool)
    (hf : ∀ col k base x, (f col k (base + if q k then 1 else 0) x).2.1 =
      base + if q (f col k (base + if q k then 1 else 0) x).1 then 1 else 0)
    (col : Nat) (ks : List κ) (j : Nat) (cooked : BitVec w) :
    (keysWith f col (ks.take j) (ks.countP q) cooked).2.1 =
      (keysWith f col (ks.take j) (ks.countP q) cooked).1.countP q + (ks.drop j).countP q := by
  have hsplit : ks.countP q = (ks.drop j).countP q + (ks.take j).countP q := by
    rw [Nat.add_comm, ← List.countP_append, List.take_append_drop]
  rw [hsplit, keysWith_countP f q hf col (ks.take j) ((ks.drop j).countP q) cooked, Nat.add_comm]

theorem keysWith_take_count_bounds {κ : Type}
    (f : Nat → κ → Nat → BitVec w → κ × Nat × BitVec w) (q : κ → Bool)
    (hf : ∀ col k base x, (f col k (base + if q k then 1 else 0) x).2.1 =
      base + if q (f col k (base + if q k then 1 else 0) x).1 then 1 else 0)
    (col : Nat) (ks : List κ) (cooked : BitVec w) {j : Nat} (hj : j < ks.length) :
    let a := (keysWith f col (ks.take j) (ks.countP q) cooked).2.1
    (q ks[j] = false → a + 1 ≤ ks.length) ∧ (q ks[j] = true → 1 ≤ a) := by
  intro a
  have ha : a = _ := keysWith_take_countP f q hf col ks j cooked
  -- the stepped keys before `j` number `j`, the keys after it `ks.length - j - 1`
  have hpre := List.countP_le_length (p := q)
    (l := (keysWith f col (ks.take j) (ks.countP q) cooked).1)
  rw [length_keysWith, List.length_take, Nat.min_eq_left (Nat.le_of_lt hj)] at hpre
  have hpost := List.countP_le_length (p := q) (l := ks.drop (j + 1))
  rw [List.length_drop] at hpost
  have hdrop : (ks.drop j).countP q = (ks.drop (j + 1)).countP q + if q ks[j] then 1 else 0 := by
    rw [List.drop_eq_getElem_cons hj, List.countP_cons]
  constructor
  · intro hq
    rw [hq, if_neg Bool.false_ne_true] at hdrop
    omega
  · intro hq
    rw [hq, if_pos rfl] at hdrop
    omega

end KeyDebounce
