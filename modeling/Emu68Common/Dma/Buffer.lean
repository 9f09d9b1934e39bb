import Emu68Common.Machinery.Words

/-!
# Dma/Buffer — where a DMA buffer lies in the block it is cut from

`dma_alloc` asks a region pool for more than the buffer: room to align it, and two longs before it,
the block's size at the block's start and the block's address directly before the buffer.  All of it
is arithmetic on 32-bit numbers; without overflow the buffer and its books lie inside the block.

    raw          aligned - 4   aligned               aligned + size      raw + total
    │total ……………│raw           │the buffer …………………………│ ………………………………│
-/

namespace Dma

open Machinery

/-- A `ULONG`. -/
def u32 (n : ℕ) : ℕ := n % 2 ^ 32

theorem u32_of_lt {n : ℕ} (h : n < 2 ^ 32) : u32 n = n := Nat.mod_eq_of_lt h

/-- `ALIGN_MASK(value, mask)`. -/
def alignMask (value mask : ℕ) : ℕ := u32 (value + mask) &&& (2 ^ 32 - 1 - mask)

/-- `ALIGN_UP(value, alignment)`. -/
def alignUp (value alignment : ℕ) : ℕ := alignMask value (alignment - 1)

/-- The cache line the DMA engines work on. -/
def DMA_ALIGN_MIN : ℕ := 64

/-- The size of the buffer `dma_alloc` makes: whole cache lines, if it is aligned to them. -/
def dmaSize (align size : ℕ) : ℕ :=
  if DMA_ALIGN_MIN ≤ align then alignMask size (align - 1) else size

/-- `total`: what it asks the pool for. -/
def dmaTotal (align size : ℕ) : ℕ := u32 (dmaSize align size + (align - 1) + 4 + 4)

/-- `aligned`: the buffer in a block at `raw`. -/
def dmaAligned (align raw : ℕ) : ℕ := alignMask (raw + 4 + 4) (align - 1)

/-- `if (align < sizeof(APTR)) align = sizeof(APTR)`. -/
def dmaAlign (align : ℕ) : ℕ := if align < 4 then 4 else align

/-! ## Rounding -/

section Rounding

variable {value align size raw : ℕ}

/-- Rounding up to a power of two, in 32 bits. -/
theorem align_mask_u32 {k : ℕ} (hk : k ≤ 32) (value : ℕ) :
    alignMask value (2 ^ k - 1) = u32 (value + (2 ^ k - 1)) / 2 ^ k * 2 ^ k := by
  have hpos : 0 < 2 ^ k := Nat.two_pow_pos k
  have hle : 2 ^ k ≤ 2 ^ 32 := Nat.pow_le_pow_right Nat.two_pos hk
  have hmask : 2 ^ 32 - 1 - (2 ^ k - 1) = 2 ^ 32 - 2 ^ k := by omega
  rw [alignMask, hmask]
  exact land_mask hk (Nat.mod_lt _ (Nat.two_pow_pos 32))

/-- **Rounding up** to a power of two. -/
theorem align_mask_eq (ha : ∃ k, align = 2 ^ k) (h : value + (align - 1) < 2 ^ 32) :
    alignMask value (align - 1) = (value + (align - 1)) / align * align := by
  obtain ⟨k, rfl⟩ := ha
  have hpos : 0 < 2 ^ k := Nat.two_pow_pos k
  have hk : k ≤ 32 := by
    by_contra hk
    have := Nat.pow_lt_pow_right (a := 2) (by decide) (Nat.lt_of_not_le hk)
    omega
  rw [align_mask_u32 hk, u32_of_lt h]

/-- **What rounding up does**: a multiple, no less, and by less than one more. -/
theorem align_mask_spec (ha : ∃ k, align = 2 ^ k) (h : value + (align - 1) < 2 ^ 32) :
    align ∣ alignMask value (align - 1) ∧ value ≤ alignMask value (align - 1) ∧
      alignMask value (align - 1) ≤ value + (align - 1) := by
  have hpos : 0 < align := by
    obtain ⟨k, rfl⟩ := ha
    exact Nat.two_pow_pos k
  rw [align_mask_eq ha h]
  have hdiv := Nat.div_add_mod (value + (align - 1)) align
  have hmod := Nat.mod_lt (value + (align - 1)) hpos
  rw [Nat.mul_comm] at hdiv
  exact ⟨Nat.dvd_mul_left _ _, by omega, by omega⟩

/-- A multiple is left as it is. -/
theorem align_mask_of_dvd (ha : ∃ k, align = 2 ^ k) (h : value + (align - 1) < 2 ^ 32)
    (hd : align ∣ value) : alignMask value (align - 1) = value := by
  have hpos : 0 < align := by
    obtain ⟨k, rfl⟩ := ha
    exact Nat.two_pow_pos k
  obtain ⟨⟨c, hc⟩, hle, hlt⟩ := align_mask_spec ha h
  obtain ⟨d, rfl⟩ := hd
  rw [hc] at hle hlt ⊢
  have : c ≤ d := by
    by_contra hcd
    have := Nat.mul_le_mul_left align (Nat.succ_le_of_lt (Nat.lt_of_not_le hcd))
    rw [Nat.mul_succ] at this
    omega
  rw [Nat.le_antisymm (Nat.mul_le_mul_left align this) hle]

end Rounding

/-! ## The block -/

section Block

variable {align size raw : ℕ}

/-- The size arithmetic of a request stays within 32 bits. -/
def Fits (align size : ℕ) : Prop :=
  dmaSize align size + (align - 1) + 8 < 2 ^ 32 ∧ size + (align - 1) < 2 ^ 32

theorem dmaTotal_eq (h : Fits align size) :
    dmaTotal align size = dmaSize align size + (align - 1) + 8 := u32_of_lt h.1

/-- The buffer is aligned, with room for the two longs before it. -/
theorem aligned_of_fit (ha : ∃ k, align = 2 ^ k) (hfit : raw + 4 + 4 + (align - 1) < 2 ^ 32) :
    align ∣ dmaAligned align raw ∧ raw + 8 ≤ dmaAligned align raw ∧
      dmaAligned align raw ≤ raw + 8 + (align - 1) :=
  align_mask_spec ha hfit

/-- **The buffer lies in its block**, aligned, with room for the two longs before it. -/
theorem aligned_spec (ha : ∃ k, align = 2 ^ k) (h : Fits align size)
    (hpos : 0 < dmaSize align size)
    (hraw : raw + dmaTotal align size ≤ 2 ^ 32) : align ∣ dmaAligned align raw ∧
      raw + 8 ≤ dmaAligned align raw ∧
      dmaAligned align raw + dmaSize align size ≤ raw + dmaTotal align size := by
  rw [dmaTotal_eq h] at hraw ⊢
  obtain ⟨hd, hle, hlt⟩ := aligned_of_fit ha (by omega : raw + 4 + 4 + (align - 1) < 2 ^ 32)
  exact ⟨hd, hle, by omega⟩

/-- An aligned buffer is whole cache lines. -/
theorem lines_of_align (ha : ∃ k, align = 2 ^ k) (h : Fits align size)
    (hmin : DMA_ALIGN_MIN ≤ align) : DMA_ALIGN_MIN ∣ align ∧ align ∣ dmaSize align size := by
  obtain ⟨k, rfl⟩ := ha
  have hk : 6 ≤ k := by
    by_contra hk
    have : 2 ^ k < 2 ^ 6 := Nat.pow_lt_pow_right (by decide) (Nat.lt_of_not_le hk)
    rw [DMA_ALIGN_MIN] at hmin
    omega
  refine ⟨pow_dvd_pow 2 hk, ?_⟩
  rw [dmaSize, if_pos hmin]
  exact (align_mask_spec ⟨k, rfl⟩ h.2).1

end Block

end Dma
