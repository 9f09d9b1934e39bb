import Emu68Common.Dma.Buffer
import Emu68Common.Machinery.Cached
import Mathlib.Data.Nat.Bitwise

/-!
# Cache/Ops — the range opcodes, and the two calls around a transfer

`cache_pre_dma` and `cache_post_dma` emit one private opcode each, which asks for the upkeep of
every line of a range: the op word and the extension word say which, and whether the processor waits
for it (`RangeOp.means`).  A range without a byte asks for nothing, and is waited for by nobody.

    flags               emitted             upkeep
    DMA_ReadFromRAM     F460 1C00 / 1E00    clean
    DMA_WriteToRAM      F440 1800 / 1A00    inv
    both, or neither    F460 1800 / 1A00    cleanInv
-/

namespace Cache

open Machinery Dma

/-! ## The calls -/

def DMA_ReadFromRAM : ℕ := 1 <<< 3
def DMAF_NoSync : ℕ := 1 <<< 4
def DMA_WriteToRAM : ℕ := 1 <<< 5

/-- **An emitted range opcode**: its two words, and the range in `a0` and `d1`. -/
structure RangeOp where
  op : ℕ
  ext : ℕ
  a0 : ℕ
  d1 : ℕ
  deriving DecidableEq, Repr

def emu68DcacheClean (addr len : ℕ) (nosync : Bool) : RangeOp :=
  ⟨0xF460, if nosync then 0x1E00 else 0x1C00, addr, len⟩

def emu68DcacheCleanInv (addr len : ℕ) (nosync : Bool) : RangeOp :=
  ⟨0xF460, if nosync then 0x1A00 else 0x1800, addr, len⟩

def emu68DcacheInv (addr len : ℕ) (nosync : Bool) : RangeOp :=
  ⟨0xF440, if nosync then 0x1A00 else 0x1800, addr, len⟩

def cachePreDmaImpl (addr len flags : ℕ) : RangeOp :=
  let dir := flags &&& (DMA_ReadFromRAM ||| DMA_WriteToRAM)
  if dir = DMA_ReadFromRAM then emu68DcacheClean addr len (flags &&& DMAF_NoSync != 0)
  else if dir = DMA_WriteToRAM then emu68DcacheInv addr len (flags &&& DMAF_NoSync != 0)
  -- neither or both: bidirectional / conservative default
  else emu68DcacheCleanInv addr len (flags &&& DMAF_NoSync != 0)

def cachePostDmaImpl (addr len flags : ℕ) : RangeOp :=
  emu68DcacheInv addr len (flags &&& DMAF_NoSync != 0)

/-! ## What the opcodes mean -/

/-- What the words of an opcode say: the upkeep, and whether the processor waits. -/
def RangeOp.means (r : RangeOp) : Option (Upkeep × Bool) :=
  if r.op = 0xF460 then
    if r.ext = 0x1800 then some (.cleanInv, true)
    else if r.ext = 0x1A00 then some (.cleanInv, false)
    else if r.ext = 0x1C00 then some (.clean, true)
    else if r.ext = 0x1E00 then some (.clean, false)
    else none
  else if r.op = 0xF440 then
    if r.ext = 0x1800 then some (.inv, true)
    else if r.ext = 0x1A00 then some (.inv, false)
    else none
  else none

/-- The lines of a range: every one that has a byte of it. -/
def lines (addr len : ℕ) : List ℕ :=
  if len = 0 then []
  else List.range' (addr / DMA_ALIGN_MIN)
    ((addr + len - 1) / DMA_ALIGN_MIN + 1 - addr / DMA_ALIGN_MIN)

/-- **What an opcode does**: it asks for the upkeep of the range's lines. -/
def RangeOp.act {B : Type*} (r : RangeOp) : Option (Act ℕ ℕ B) :=
  r.means.map fun (u, wait) =>
    .asks ((lines r.a0 r.d1).map fun l => (u, l)) (wait && r.d1 != 0)

theorem mem_lines {addr len l : ℕ} :
    l ∈ lines addr len ↔ ∃ a, addr ≤ a ∧ a < addr + len ∧ a / DMA_ALIGN_MIN = l := by
  rw [lines]
  split
  · next h =>
    refine ⟨fun hl => absurd hl List.not_mem_nil, fun ⟨a, _, _, _⟩ => ?_⟩
    omega
  · next h =>
    rw [List.mem_range'_1, DMA_ALIGN_MIN]
    constructor
    · rintro ⟨hlow, hhigh⟩
      refine ⟨max addr (l * 64), le_max_left _ _, ?_, ?_⟩ <;> omega
    · rintro ⟨a, hlow, hhigh, rfl⟩
      omega

/-! ## Directions -/

/-- Which way a transfer goes. -/
inductive Direction where
  | toDevice
  | fromDevice
  | bidirectional
  deriving DecidableEq, Repr

/-- **The direction the flags give**, after the table of the two direction bits. -/
def direction (flags : ℕ) : Direction :=
  match flags.testBit 3, flags.testBit 5 with
  | true, false => .toDevice
  | false, true => .fromDevice
  | _, _ => .bidirectional

/-- The upkeep a direction needs before the transfer. -/
def Direction.upkeep : Direction → Upkeep
  | .toDevice => .clean
  | .fromDevice => .inv
  | .bidirectional => .cleanInv

/-- Whether the flags leave the barrier to somebody else. -/
def noSync (flags : ℕ) : Bool := flags.testBit 4

/-- One bit of the flags, as the source asks for it. -/
theorem and_shift_ne_zero (flags k : ℕ) : (flags &&& 1 <<< k != 0) = flags.testBit k := by
  rw [Nat.one_shiftLeft, Nat.and_two_pow]
  cases flags.testBit k with
  | true => simp [Nat.pow_eq_zero]
  | false => simp

/-- The two direction bits of the flags. -/
theorem and_directions (flags : ℕ) :
    flags &&& (DMA_ReadFromRAM ||| DMA_WriteToRAM) =
      (flags.testBit 3).toNat * 8 + (flags.testBit 5).toNat * 32 := by
  have h : DMA_ReadFromRAM ||| DMA_WriteToRAM = 2 ^ 3 ||| 2 ^ 5 := rfl
  rw [h, Nat.and_or_distrib_left, Nat.and_two_pow, Nat.and_two_pow]
  cases flags.testBit 3 <;> cases flags.testBit 5 <;> rfl

/-- **The opcode before a transfer asks for what the direction needs.** -/
theorem pre_means (addr len flags : ℕ) :
    (cachePreDmaImpl addr len flags).means = some ((direction flags).upkeep, !noSync flags) := by
  have hns : (flags &&& DMAF_NoSync != 0) = noSync flags := and_shift_ne_zero flags 4
  simp only [cachePreDmaImpl, hns, and_directions]
  rw [direction]
  cases flags.testBit 3 <;> cases flags.testBit 5 <;> cases noSync flags <;> rfl

theorem post_means (addr len flags : ℕ) :
    (cachePostDmaImpl addr len flags).means = some (.inv, !noSync flags) := by
  have hns : (flags &&& DMAF_NoSync != 0) = noSync flags := and_shift_ne_zero flags 4
  rw [cachePostDmaImpl, hns]
  cases noSync flags <;> rfl

theorem pre_range (addr len flags : ℕ) :
    (cachePreDmaImpl addr len flags).a0 = addr ∧
      (cachePreDmaImpl addr len flags).d1 = len := by
  simp only [cachePreDmaImpl]
  split
  · exact ⟨rfl, rfl⟩
  · split <;> exact ⟨rfl, rfl⟩

/-- **What is asked for before a transfer.** -/
theorem pre_act {B : Type*} (addr len flags : ℕ) :
    (cachePreDmaImpl addr len flags).act (B := B) =
      some (.asks ((lines addr len).map fun l => ((direction flags).upkeep, l))
        (!noSync flags && len != 0)) := by
  obtain ⟨ha, hl⟩ := pre_range addr len flags
  rw [RangeOp.act, pre_means, Option.map_some, ha, hl]

/-- **What is asked for after a transfer.** -/
theorem post_act {B : Type*} (addr len flags : ℕ) :
    (cachePostDmaImpl addr len flags).act (B := B) =
      some (.asks ((lines addr len).map fun l => (.inv, l)) (!noSync flags && len != 0)) := by
  rw [RangeOp.act, post_means, Option.map_some]
  rfl

end Cache
