import Emu68Common.Machinery.Text
import Mathlib.Data.List.GetD

/-!
# Text/Strings — `strlen` and `strlcpy`

Names travel between drivers as NUL-terminated strings and are kept in arrays of a fixed size.
-/

namespace Text

open Machinery

variable {dst : Block} {src : CString} {size : ℕ}

/-- `strlen`. -/
def strlen (s : CString) : ℕ := s.bytes.length

/-- `for (i = 0; i < n; i++) dst[i] = src[i];` -/
def copy (src : CString) : ℕ → Block → Block
  | 0, dst => dst
  | n + 1, dst => Function.update (copy src n dst) n (src.bytes.getD n 0)

/-- `strlcpy`: what it leaves at `dst`, and what it returns. -/
def strlcpy (dst : Block) (src : CString) (size : ℕ) : Block × ℕ :=
  let srclen := strlen src
  if size > 0 then
    let n := if srclen < size - 1 then srclen else size - 1
    (Function.update (copy src n dst) n 0, srclen)
  else (dst, srclen)

theorem copy_of_le {n i : ℕ} (h : n ≤ i) : copy src n dst i = dst i := by
  induction n with
  | zero => rfl
  | succ n ih => rw [copy, Function.update_of_ne (by omega), ih (Nat.le_of_succ_le h)]

theorem copy_of_lt {n i : ℕ} (h : i < n) : copy src n dst i = src.bytes.getD i 0 := by
  induction n with
  | zero => exact absurd h (Nat.not_lt_zero i)
  | succ n ih =>
    rcases Nat.lt_succ_iff_lt_or_eq.mp h with hlt | rfl
    · rw [copy, Function.update_of_ne (Nat.ne_of_lt hlt), ih hlt]
    · exact Function.update_self ..

@[simp] theorem strlcpy_snd (dst : Block) (src : CString) (size : ℕ) :
    (strlcpy dst src size).2 = strlen src := by
  rw [strlcpy]
  split <;> rfl

/-- **What fits is copied whole.** -/
theorem strlcpy_text (h : strlen src < size) :
    (strlcpy dst src size).1.Text 0 src.bytes := by
  have hn : (if strlen src < size - 1 then strlen src else size - 1) = src.bytes.length := by
    rw [strlen] at *
    split <;> omega
  rw [strlcpy, if_pos (Nat.zero_lt_of_lt h)]
  refine Block.Text.intro src.nul_free (fun i hi => ?_) ?_
  · change Function.update _ _ _ _ = _
    rw [hn, Nat.zero_add, Function.update_of_ne (Nat.ne_of_lt hi), copy_of_lt hi,
      List.getD_eq_getElem _ _ hi]
  · change Function.update _ _ _ _ = _
    rw [hn, Nat.zero_add]
    exact Function.update_self ..

/-- **Nothing is written past the array.** -/
theorem strlcpy_of_le {i : ℕ} (h : size ≤ i) : (strlcpy dst src size).1 i = dst i := by
  rw [strlcpy]
  split
  · change Function.update _ _ _ _ = _
    have hn : (if strlen src < size - 1 then strlen src else size - 1) < i := by
      split <;> omega
    rw [Function.update_of_ne (Nat.ne_of_gt hn), copy_of_le hn.le]
  · rfl

end Text
