import Mathlib.Data.BitVec

/-!
# Bits/Field — a register field, by its mask

A field of a 32-bit register is the bits of a mask, counted from the mask's lowest set bit on.  The
four helpers read and write it; the shift comes from a loop over the mask (`maskShift_spec`).
Reading and writing are a lens on the word, whatever the mask (`field_lens`).

    word   ……… m m 0 m ………      the bits of the mask may have gaps
                        └ mask_shift
-/

namespace Bits

abbrev U32 : Type := BitVec 32

variable {mask mask' word value : U32} {i k : ℕ}

/-! ## The helpers -/

/-- The loop of `mask_shift`. -/
def maskShiftLoop (mask shift : U32) : U32 :=
  if mask ≠ 0 ∧ mask &&& 1 = 0 then maskShiftLoop (mask >>> 1) (shift + 1) else shift
termination_by mask.toNat
decreasing_by
  rename_i h
  have hne : mask.toNat ≠ 0 := fun h0 => h.1 (BitVec.eq_of_toNat_eq h0)
  rw [BitVec.toNat_ushiftRight, Nat.shiftRight_eq_div_pow]
  omega

/-- `mask_shift` -/
def maskShift (mask : U32) : U32 := maskShiftLoop mask 0

/-- `mask_extract` -/
def maskExtract (value mask : U32) : U32 :=
  if mask = 0 then 0 else (value &&& mask) >>> maskShift mask

/-- `mask_insert` -/
def maskInsert (value mask : U32) : U32 :=
  if mask = 0 then 0 else (value <<< maskShift mask) &&& mask

/-- `u32_update_mask`: what `*word` is after it. -/
def u32UpdateMask (word value mask : U32) : U32 := (word &&& ~~~mask) ||| maskInsert value mask

/-! ## The shift -/

/-- **The loop counts the zeros below the lowest set bit.** -/
theorem maskShiftLoop_spec (mask shift : U32) (hne : mask ≠ 0) :
    ∃ k < 32, maskShiftLoop mask shift = shift + BitVec.ofNat 32 k ∧
      mask.getLsbD k = true ∧ ∀ j < k, mask.getLsbD j = false := by
  fun_induction maskShiftLoop mask shift with
  | case1 mask shift h ih =>
    have hlow : mask.getLsbD 0 = false := by
      have hbit := congrArg (BitVec.getLsbD · 0) h.2
      simpa using hbit
    have hrest : mask >>> 1 ≠ 0 := fun hzero => hne (BitVec.eq_of_getLsbD_eq fun j _ => by
      cases j with
      | zero => simpa using hlow
      | succ j =>
        have hbit := congrArg (BitVec.getLsbD · j) hzero
        simpa [Nat.add_comm 1] using hbit)
    obtain ⟨k, -, heq, hset, hclear⟩ := ih hrest
    rw [BitVec.getLsbD_ushiftRight, Nat.add_comm] at hset
    refine ⟨k + 1, BitVec.lt_of_getLsbD hset, ?_, hset, fun j hj => ?_⟩
    · rw [heq, BitVec.add_assoc, BitVec.ofNat_add, BitVec.add_comm 1]
      rfl
    · cases j with
      | zero => exact hlow
      | succ j =>
        have hbit := hclear j (Nat.lt_of_succ_lt_succ hj)
        rwa [BitVec.getLsbD_ushiftRight, Nat.add_comm] at hbit
  | case2 mask shift h =>
    refine ⟨0, by decide, (BitVec.add_zero shift).symm, ?_, nofun⟩
    by_contra hlow
    refine h ⟨hne, BitVec.eq_of_getLsbD_eq fun j _ => ?_⟩
    cases j with
    | zero => simpa using hlow
    | succ j => simp

/-- **`mask_shift` is where the mask's lowest set bit is.** -/
theorem maskShift_spec (hne : mask ≠ 0) : (maskShift mask).toNat < 32 ∧
    ∀ j < (maskShift mask).toNat, mask.getLsbD j = false := by
  obtain ⟨k, hk, heq, -, hclear⟩ := maskShiftLoop_spec mask 0 hne
  have hnat : (maskShift mask).toNat = k := by
    rw [maskShift, heq, zero_add, BitVec.toNat_ofNat]
    omega
  rw [hnat]
  exact ⟨hk, hclear⟩

/-! ## Inserting and extracting -/

/-- **What is inserted lies in the mask.** -/
theorem maskInsert_and (value mask : U32) :
    maskInsert value mask &&& mask = maskInsert value mask := by
  rw [maskInsert]
  split
  · exact BitVec.zero_and
  · rw [BitVec.and_assoc, BitVec.and_self]

/-- **An update leaves the bits outside the mask**, and puts the value in the mask. -/
theorem update_and_not (word value mask : U32) :
    u32UpdateMask word value mask &&& ~~~mask = word &&& ~~~mask := by
  rw [u32UpdateMask, ← maskInsert_and]
  ext i hi
  simp only [BitVec.getElem_and, BitVec.getElem_or, BitVec.getElem_not]
  cases word[i] <;> cases mask[i] <;> simp

theorem update_and (word value mask : U32) :
    u32UpdateMask word value mask &&& mask = maskInsert value mask := by
  rw [u32UpdateMask, ← maskInsert_and]
  ext i hi
  simp only [BitVec.getElem_and, BitVec.getElem_or, BitVec.getElem_not]
  cases word[i] <;> cases mask[i] <;> simp

/-- **Shifted up, cut to the mask and shifted down again** is cut to the shifted mask. -/
theorem shift_and_shift (value mask : U32) (s : ℕ) :
    ((value <<< s) &&& mask) >>> s = value &&& (mask >>> s) := by
  ext i hi
  rw [BitVec.getElem_ushiftRight, BitVec.getElem_and, BitVec.getElem_ushiftRight,
    BitVec.getLsbD_and, BitVec.getLsbD_shiftLeft, Nat.add_sub_cancel_left,
    decide_eq_false (by omega : ¬ s + i < s), Bool.not_false, Bool.and_true]
  by_cases hlt : s + i < 32
  · rw [decide_eq_true hlt, Bool.true_and, ← BitVec.getLsbD_eq_getElem]
  · rw [BitVec.getLsbD_of_ge mask _ (not_lt.mp hlt), Bool.and_false, Bool.and_false]

/-- **Shifted down and up again**, a word loses nothing that lies in the mask, as the mask has
nothing below the shift. -/
theorem and_shift_shift {s : ℕ} (word : U32) (h : ∀ j < s, mask.getLsbD j = false) :
    (((word &&& mask) >>> s) <<< s) &&& mask = word &&& mask := by
  ext i hi
  rw [BitVec.getElem_and, BitVec.getElem_and, BitVec.getElem_shiftLeft]
  by_cases hlt : i < s
  · rw [← BitVec.getLsbD_eq_getElem (x := mask), h i hlt, Bool.and_false, Bool.and_false]
  · rw [decide_eq_false hlt, Bool.not_false, Bool.true_and, BitVec.getElem_ushiftRight,
      Nat.add_sub_cancel' (not_lt.mp hlt), BitVec.getLsbD_eq_getElem hi, BitVec.getElem_and,
      Bool.and_assoc, Bool.and_self]

/-! ## The lens -/

/-- What was written is read. -/
theorem maskExtract_update (word value mask : U32) :
    maskExtract (u32UpdateMask word value mask) mask = value &&& (mask >>> maskShift mask) := by
  rw [maskExtract, update_and, maskInsert]
  by_cases hzero : mask = 0
  · rw [if_pos hzero, hzero]
    simp
  · rw [if_neg hzero, if_neg hzero]
    exact shift_and_shift value mask _

/-- What was read is written back. -/
theorem maskInsert_extract (word mask : U32) :
    maskInsert (maskExtract word mask) mask = word &&& mask := by
  rw [maskInsert, maskExtract]
  by_cases hzero : mask = 0
  · rw [if_pos hzero, hzero]
    exact BitVec.and_zero.symm
  · rw [if_neg hzero, if_neg hzero]
    exact and_shift_shift word (maskShift_spec hzero).2

theorem update_extract (word mask : U32) :
    u32UpdateMask word (maskExtract word mask) mask = word := by
  rw [u32UpdateMask, maskInsert_extract]
  ext i hi
  simp only [BitVec.getElem_and, BitVec.getElem_or, BitVec.getElem_not]
  cases word[i] <;> cases mask[i] <;> rfl

/-- The last write counts. -/
theorem update_update (word value value' mask : U32) :
    u32UpdateMask (u32UpdateMask word value mask) value' mask
      = u32UpdateMask word value' mask := by
  conv_lhs => rw [u32UpdateMask, update_and_not]
  rfl

/-- Writes to fields apart do not meet. -/
theorem update_comm (word value value' : U32) (h : mask &&& mask' = 0) :
    u32UpdateMask (u32UpdateMask word value mask) value' mask'
      = u32UpdateMask (u32UpdateMask word value' mask') value mask := by
  simp only [u32UpdateMask]
  rw [← maskInsert_and value mask, ← maskInsert_and value' mask']
  ext i hi
  have hbit : (mask[i] && mask'[i]) = false := by
    rw [← BitVec.getElem_and]
    simp only [h]
    exact BitVec.getElem_zero hi
  simp only [BitVec.getElem_and, BitVec.getElem_or, BitVec.getElem_not]
  cases hm : mask[i] <;> cases hm' : mask'[i] <;> simp [hm, hm'] at hbit ⊢

/-- **The field helpers are a lens**, for every word, value and mask. -/
theorem field_lens (word value mask : U32) :
    u32UpdateMask word value mask &&& ~~~mask = word &&& ~~~mask ∧
      maskExtract (u32UpdateMask word value mask) mask
        = value &&& (mask >>> maskShift mask) ∧
      u32UpdateMask word (maskExtract word mask) mask = word ∧
      (∀ value', u32UpdateMask (u32UpdateMask word value mask) value' mask
        = u32UpdateMask word value' mask) ∧
      ∀ value' mask', mask &&& mask' = 0 →
        u32UpdateMask (u32UpdateMask word value mask) value' mask'
          = u32UpdateMask (u32UpdateMask word value' mask') value mask :=
  ⟨update_and_not word value mask, maskExtract_update word value mask, update_extract word mask,
    fun value' => update_update word value value' mask,
    fun value' _ h => update_comm word value value' h⟩

theorem field_lens_nibbles : u32UpdateMask (u32UpdateMask 0x12345678 0xA 0xF0) 0x9 0xF0000
    = u32UpdateMask (u32UpdateMask 0x12345678 0x9 0xF0000) 0xA 0xF0 :=
  (field_lens 0x12345678 0xA 0xF0).2.2.2.2 0x9 0xF0000 (by decide)

end Bits
