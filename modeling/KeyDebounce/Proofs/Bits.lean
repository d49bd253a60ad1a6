import KeyDebounce.Row
import KeyDebounce.Scan

/-!
# Keys of a buffer of rows

`bitAt rows r c` is the key in column `c` of row `r` of a raw sample or a cooked buffer, read as
released where the row is missing. Every engine changes a cooked buffer one key at a time with
`commitKey`, which copies one bit of the raw row and keeps every other, and only in the rows a
pass may touch, which both buffers hold.
-/

set_option autoImplicit false

namespace KeyDebounce.Row

variable {w : Nat}

def bitAt (rows : List (BitVec w)) (r c : Nat) : Bool := ((rows[r]?).map (bit · c)).getD false

theorem bit_of_le {x : BitVec w} {c : Nat} (hc : w ≤ c) : bit x c = false :=
  BitVec.getLsbD_of_ge x c hc

theorem bit_commitKey_eq (cooked raw : BitVec w) (col c : Nat) :
    bit (commitKey cooked raw col) c = if c = col then bit raw c else bit cooked c := by
  by_cases hc : col < w
  · exact bit_commitKey cooked raw col c hc
  · have hmask : mask w col = 0 := by
      unfold mask
      exact BitVec.shiftLeft_eq_zero (Nat.le_of_not_lt hc)
    have hkeep : commitKey cooked raw col = cooked := by simp [commitKey, hmask]
    rw [hkeep]
    split
    · subst c
      rw [bit_of_le (Nat.le_of_not_lt hc), bit_of_le (Nat.le_of_not_lt hc)]
    · rfl

theorem bitAt_set (rows : List (BitVec w)) (x : BitVec w) (r r' c : Nat) :
    bitAt (rows.set r x) r' c =
      if r = r' ∧ r < rows.length then bit x c else bitAt rows r' c := by
  unfold bitAt
  rw [List.getElem?_set]
  by_cases h : r = r'
  · subst h
    by_cases hr : r < rows.length <;> simp [hr]
  · simp [h]

theorem bitAt_congr {rows rows' : List (BitVec w)} {r : Nat} (h : rows[r]? = rows'[r]?)
    (c : Nat) : bitAt rows r c = bitAt rows' r c := by
  unfold bitAt
  rw [h]

theorem bitAt_cons_zero (x : BitVec w) (rows : List (BitVec w)) (c : Nat) :
    bitAt (x :: rows) 0 c = bit x c := rfl

theorem bitAt_cons_succ (x : BitVec w) (rows : List (BitVec w)) (r c : Nat) :
    bitAt (x :: rows) (r + 1) c = bitAt rows r c := rfl

theorem bit_xor_of_bitAt {raw cooked : List (BitVec w)} {r c : Nat} (hraw : r < raw.length)
    (hcooked : r < cooked.length) (h : bitAt cooked r c = bitAt raw r c) :
    bit (raw[r] ^^^ cooked[r]) c = false := by
  simp only [bitAt, List.getElem?_eq_getElem hraw, List.getElem?_eq_getElem hcooked,
    Option.map_some, Option.getD_some] at h
  unfold bit at h ⊢
  rw [BitVec.getLsbD_xor, h, Bool.xor_self]

theorem ext_bitAt {rows rows' : List (BitVec w)} (hlen : rows.length = rows'.length)
    (h : ∀ r c, bitAt rows r c = bitAt rows' r c) : rows = rows' := by
  apply List.ext_getElem hlen
  intro r h₁ h₂
  apply BitVec.eq_of_getLsbD_eq
  intro c _
  have hrc := h r c
  simpa [bitAt, List.getElem?_eq_getElem h₁, List.getElem?_eq_getElem h₂, bit] using hrc

end KeyDebounce.Row

namespace KeyDebounce

theorem rowsToScan_le_raw (numRows allocated rawRows cookedRows : Nat) :
    rowsToScan numRows allocated rawRows cookedRows ≤ rawRows := by
  unfold rowsToScan
  omega

theorem rowsToScan_le_cooked (numRows allocated rawRows cookedRows : Nat) :
    rowsToScan numRows allocated rawRows cookedRows ≤ cookedRows := by
  unfold rowsToScan
  omega

end KeyDebounce
