import Mathlib.Data.BitVec

/-!
# Machinery/Fields — equal fields side by side in a word

A word of `w` bits is read as a row of fields of `bits` each, the lowest first.  A field is put in
by clearing its place and setting the bits of its value; that changes this field and no other, so
fields are independent cells of a word.

    putField bits j word value        field `j` becomes `value`
    getField bits j word              field `j`
-/

namespace Machinery

variable {w bits j k : ℕ} {word : BitVec w} {value : BitVec bits}

/-- The bits of the lowest field. -/
def fieldMask (w bits : ℕ) : BitVec w := (BitVec.allOnes bits).setWidth w

/-- Field `j` of a word. -/
def getField (bits j : ℕ) (word : BitVec w) : BitVec bits := word.extractLsb' (j * bits) bits

/-- **Field `j` of a word becomes a value**: its place is cleared, and the value's bits are set. -/
def putField (bits j : ℕ) (word : BitVec w) (value : BitVec bits) : BitVec w :=
  (word &&& ~~~(fieldMask w bits <<< (j * bits))) ||| (value.setWidth w <<< (j * bits))

/-- A bit of a word after it. -/
theorem getLsbD_putField {i : ℕ} (hi : i < w) : (putField bits j word value).getLsbD i =
    if j * bits ≤ i ∧ i < j * bits + bits then value.getLsbD (i - j * bits)
    else word.getLsbD i := by
  rw [putField, fieldMask, BitVec.getLsbD_or, BitVec.getLsbD_and, BitVec.getLsbD_not,
    BitVec.getLsbD_shiftLeft, BitVec.getLsbD_shiftLeft, BitVec.getLsbD_setWidth,
    BitVec.getLsbD_setWidth, BitVec.getLsbD_allOnes]
  have hlow : i - j * bits < w := (Nat.sub_le _ _).trans_lt hi
  by_cases hge : j * bits ≤ i
  · by_cases hlt : i < j * bits + bits
    · have hin : i - j * bits < bits := by omega
      simp [hi, hge, hlt, hin, hlow, Nat.not_lt.mpr hge]
    · have hout : ¬ i - j * bits < bits := by omega
      simp [hi, hge, hlt, hout, hlow, BitVec.getLsbD_of_ge value _ (Nat.not_lt.mp hout)]
  · simp [hi, hge, Nat.not_le.mp hge]

/-- **What was put in is there**, if the word has the field. -/
theorem getField_putField_self (h : j * bits + bits ≤ w) :
    getField bits j (putField bits j word value) = value := by
  ext i hi
  have hin : j * bits ≤ j * bits + i ∧ j * bits + i < j * bits + bits := by omega
  rw [getField, BitVec.getElem_extractLsb', getLsbD_putField (by omega), if_pos hin,
    Nat.add_sub_cancel_left, BitVec.getLsbD_eq_getElem hi]

/-- **The other fields stay.** -/
theorem getField_putField_of_ne (h : k ≠ j) :
    getField bits k (putField bits j word value) = getField bits k word := by
  ext i hi
  rw [getField, getField, BitVec.getElem_extractLsb', BitVec.getElem_extractLsb']
  by_cases hw : k * bits + i < w
  · rw [getLsbD_putField hw]
    refine if_neg fun hin => h ?_
    -- both fields would have this bit
    have hk : (k * bits + i) / bits = k := by
      rw [Nat.mul_comm, Nat.mul_add_div (by omega), Nat.div_eq_of_lt hi, Nat.add_zero]
    have hj : (k * bits + i) / bits = j :=
      Nat.div_eq_of_lt_le hin.1 (by rw [Nat.succ_mul]; exact hin.2)
    exact hk.symm.trans hj
  · rw [BitVec.getLsbD_of_ge _ _ (Nat.not_lt.mp hw), BitVec.getLsbD_of_ge _ _ (Nat.not_lt.mp hw)]

end Machinery
