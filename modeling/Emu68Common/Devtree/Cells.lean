import Emu68Common.Devtree.Tree
import Mathlib.Data.Nat.ModEq
import Mathlib.Tactic.Ring

/-!
# Devtree/Cells — what `getNumber` reads, as a number

Cells are 32 bits, most significant first, so `k` of them are a number below `2 ^ (32 * k)`
(`number`).  `getNumber` shifts it together in 64 bits: it keeps the low ones, which for two cells
is all of them (`getNumber_toNat`).
-/

namespace Devtree

/-- So many cells as one number, without bound. -/
def number (ptr : ℕ → U32) : ℕ → ℕ
  | 0 => 0
  | cells + 1 => (ptr 0).toNat * 2 ^ (32 * cells) + number (fun i => ptr (i + 1)) cells

theorem number_lt (ptr : ℕ → U32) (cells : ℕ) : number ptr cells < 2 ^ (32 * cells) := by
  induction cells generalizing ptr with
  | zero => exact Nat.one_pos
  | succ cells ih =>
    have hcell : (ptr 0).toNat + 1 ≤ 2 ^ 32 := (ptr 0).isLt
    have hrest := ih fun i => ptr (i + 1)
    calc (ptr 0).toNat * 2 ^ (32 * cells) + number (fun i => ptr (i + 1)) cells
        < ((ptr 0).toNat + 1) * 2 ^ (32 * cells) := by
          rw [Nat.add_mul (ptr 0).toNat 1, Nat.one_mul]
          exact Nat.add_lt_add_left hrest _
      _ ≤ 2 ^ 32 * 2 ^ (32 * cells) := Nat.mul_le_mul_right _ hcell
      _ = 2 ^ (32 * (cells + 1)) := by rw [← pow_add, Nat.mul_succ, Nat.add_comm]

/-- The number is the cells'. -/
theorem number_congr {ptr ptr' : ℕ → U32} {cells : ℕ} (h : ∀ i < cells, ptr i = ptr' i) :
    number ptr cells = number ptr' cells := by
  induction cells generalizing ptr ptr' with
  | zero => rfl
  | succ cells ih =>
    rw [number, number, h 0 cells.succ_pos, ih fun i hi => h (i + 1) (Nat.succ_lt_succ hi)]

/-- One turn of the loop, in 64 bits. -/
theorem shift_or_toNat (value : U64) (cell : U32) :
    ((value <<< 32) ||| cell.setWidth 64).toNat = (value.toNat * 2 ^ 32 + cell.toNat) % 2 ^ 64 := by
  have hdis : value <<< 32 &&& cell.setWidth 64 = 0#64 := by
    ext i hi
    simp only [BitVec.getElem_and, BitVec.getElem_shiftLeft, BitVec.getElem_setWidth,
      BitVec.getElem_zero]
    by_cases hlow : i < 32
    · simp only [hlow, decide_true, Bool.not_true, Bool.false_and]
    · rw [BitVec.getLsbD_of_ge cell i (by omega), Bool.and_false]
  rw [← BitVec.add_eq_or_of_and_eq_zero _ _ hdis, BitVec.toNat_add, BitVec.toNat_shiftLeft,
    BitVec.toNat_setWidth, Nat.shiftLeft_eq, Nat.add_mod, Nat.mod_mod, Nat.mod_mod, ← Nat.add_mod]

/-- **The loop keeps the low 64 bits.** -/
theorem getNumberLoop_toNat (value : U64) (ptr : ℕ → U32) (cells : ℕ) :
    (getNumberLoop value ptr cells).toNat
      = (value.toNat * 2 ^ (32 * cells) + number ptr cells) % 2 ^ 64 := by
  induction cells generalizing value ptr with
  | zero =>
    rw [getNumberLoop, number, Nat.mul_zero, pow_zero, Nat.mul_one, Nat.add_zero,
      Nat.mod_eq_of_lt value.isLt]
  | succ cells ih =>
    have hmod := ((Nat.mod_modEq (value.toNat * 2 ^ 32 + (ptr 0).toNat) (2 ^ 64)).mul_right
      (2 ^ (32 * cells))).add_right (number (fun i => ptr (i + 1)) cells)
    have hsum : (value.toNat * 2 ^ 32 + (ptr 0).toNat) * 2 ^ (32 * cells)
          + number (fun i => ptr (i + 1)) cells
        = value.toNat * 2 ^ (32 * (cells + 1)) + number ptr (cells + 1) := by
      rw [number]
      ring
    rw [getNumberLoop, ih, shift_or_toNat, ← hsum]
    exact hmod

/-- **The low 64 bits are read.** -/
theorem getNumber_mod (ptr : ℕ → U32) (cells : U32) :
    (getNumber ptr cells).toNat = number ptr cells.toNat % 2 ^ 64 := by
  have hzero : (0 : U64).toNat = 0 := rfl
  rw [getNumber, getNumberLoop_toNat, hzero, Nat.zero_mul, Nat.zero_add]

/-- **Up to two cells are read whole.** -/
theorem getNumber_toNat {ptr : ℕ → U32} {cells : U32} (h : cells.toNat ≤ 2) :
    (getNumber ptr cells).toNat = number ptr cells.toNat := by
  have hlt : number ptr cells.toNat < 2 ^ 64 :=
    (number_lt ptr _).trans_le (Nat.pow_le_pow_right Nat.two_pos (by omega))
  rw [getNumber_mod, Nat.mod_eq_of_lt hlt]

/-- What is read is the cells. -/
theorem getNumber_congr {ptr ptr' : ℕ → U32} {cells : U32}
    (h : ∀ i < cells.toNat, ptr i = ptr' i) : getNumber ptr cells = getNumber ptr' cells :=
  BitVec.eq_of_toNat_eq (by
    rw [getNumber, getNumber, getNumberLoop_toNat, getNumberLoop_toNat, number_congr h])

end Devtree
