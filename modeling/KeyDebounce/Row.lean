/-!
# Matrix rows

A row of the key matrix is a bit pattern: bit `c` is the key in column `c`. The same pattern
type holds the raw electrical sample and the debounced (cooked) state. Rows come in four widths;
selecting a column at or past the width is a shift overflow.
-/

set_option autoImplicit false

namespace KeyDebounce

inductive RowWidth where
  | w8
  | w16
  | w32
  | w64
  deriving DecidableEq, Repr

namespace RowWidth

def bits : RowWidth → Nat
  | w8 => 8
  | w16 => 16
  | w32 => 32
  | w64 => 64

end RowWidth

namespace Row

variable {w : Nat}

def bit (r : BitVec w) (col : Nat) : Bool := r.getLsbD col

def mask (w col : Nat) : BitVec w := (1 : BitVec w) <<< col

def withBit (r : BitVec w) (col : Nat) (pressed : Bool) : BitVec w :=
  if pressed then r ||| mask w col else r &&& ~~~mask w col

/-- Copy the raw bit of column `col` into the cooked row. -/
def commitKey (cooked raw : BitVec w) (col : Nat) : BitVec w :=
  (cooked &&& ~~~mask w col) ||| (raw &&& mask w col)

theorem bit_commitKey (cooked raw : BitVec w) (col c : Nat) (hc : col < w) :
    bit (commitKey cooked raw col) c = if c = col then bit raw c else bit cooked c := by
  unfold bit commitKey mask
  by_cases h : c = col
  · subst h
    simp [hc]
  · by_cases hw : c < w
    · rcases Nat.lt_or_gt_of_ne h with hlt | hgt
      · simp [hw, hlt, h]
      · simp [hw, h, Nat.sub_eq_zero_iff_le, Nat.not_lt_of_gt hgt, Nat.not_le_of_gt hgt]
    · simp [BitVec.getLsbD_of_ge _ _ (Nat.le_of_not_lt hw), h]

end Row

inductive RowFault where
  /-- The column lies at or past the row width, so its mask does not fit. -/
  | shiftOverflow
  deriving DecidableEq, Repr

def RowFault.message : RowFault → String
  | .shiftOverflow => "attempt to shift left with overflow"

structure RowReport where
  bits : Nat
  isZero : Bool
  colMask : Nat
  bit : Bool
  withBit : Nat
  deriving DecidableEq, Repr

/-- Inspect column `col` of the row `value` of width `rw`, and set it to `pressed`. -/
def RowWidth.inspect (rw : RowWidth) (value : BitVec rw.bits) (col : Nat) (pressed : Bool) :
    Except RowFault RowReport :=
  if col < rw.bits then
    .ok { bits := rw.bits
          isZero := value == (0 : BitVec rw.bits)
          colMask := (Row.mask rw.bits col).toNat
          bit := Row.bit value col
          withBit := (Row.withBit value col pressed).toNat }
  else
    .error .shiftOverflow

end KeyDebounce
