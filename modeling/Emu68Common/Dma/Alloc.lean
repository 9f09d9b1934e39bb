import Emu68Common.Dma.Calls
import Emu68Common.Dma.Discovery

/-!
# Dma/Alloc — a DMA buffer out of a pool

`dma_alloc` cuts a buffer out of a pool's block and writes two longs before it.  Its sizes are
32-bit sums that nothing checks: where one wraps, the block is too small for the buffer
(`alloc_inside_iff`).  A size that rounds up to nothing makes the pool grow for a block it cannot
get, and what it grew by stays (`failed_alloc_iff`).

    size ──dmaSize──▸ whole lines ──dmaTotal──▸ with room to align ──ALIGN_UP──▸ the block
-/

namespace Dma

open Machinery

section Calls

variable (E : Exec) (ctx : DmaMemCtx)

/-- Where the back pointer of a buffer is. -/
def before (a : ℕ) : ℕ := u32 (a + (2 ^ 32 - 4))

/-- **`dma_alloc`.** -/
def dmaAlloc (n pool align size : ℕ) (w : World) : Option (Option ℕ × World) :=
  let align := dmaAlign align
  let total := dmaTotal align size
  (dmaPoolRegionAlloc E ctx n pool total w).map fun
    | (none, w) => (none, w)
    | (some raw, w) =>
      let aligned := dmaAligned align raw
      (some aligned, w.setMem ((w.mem.setLong (before aligned) raw).setLong raw total))

/-- **`dma_free`.** -/
def dmaFree (n pool ptr : ℕ) (w : World) : Option World :=
  if ptr = 0 then some w
  else
    let raw := w.mem.long (before ptr)
    dmaPoolRegionFree E n pool raw (w.mem.long raw) w

/-- `memset(ptr, 0, size)`. -/
def zero (ptr size : ℕ) (m : Block) : Block := fun i => if ptr ≤ i ∧ i < ptr + size then 0 else m i

/-- **`dma_zalloc`.** -/
def dmaZalloc (n pool align size : ℕ) (w : World) : Option (Option ℕ × World) :=
  (dmaAlloc E ctx n pool align size w).map fun
    | (none, w) => (none, w)
    | (some ptr, w) => (some ptr, w.setMem (zero ptr size w.mem))

end Calls

variable {E : Exec} {ctx : DmaMemCtx} {lists : ℕ → List ℕ} {w w' : World}
  {a n align size raw need q : ℕ} {p : DmaPuddle} {e : Extent}

/-! ## Failing -/

/-- **As before**: the structures, the headers, and memory in use. -/
structure Same (ctx : DmaMemCtx) (w w' : World) : Prop where
  puds : w'.puds = w.puds
  pools : w'.pools = w.pools
  headers : w'.headers = w.headers
  mem : ∀ i, Used ctx w i → w'.mem i = w.mem i

theorem Unmoved.same (h : Unmoved ctx w w') : Same ctx w w' :=
  ⟨by rw [h.eq]; rfl, by rw [h.eq]; rfl, by rw [h.eq]; rfl, h.mem⟩

/-- A pool that grew is not as before. -/
theorem Grew.not_same {q : ℕ} {p : DmaPuddle} (h : Grew ctx w w' a q p) : ¬Same ctx w w' := by
  intro hsame
  have hpud := h.pud
  rw [hsame.puds, World.puds_of_unused h.unused] at hpud
  cases hpud

/-- Sizes that round up to nothing. -/
theorem block_size_eq_zero (hsize : size < 2 ^ 32) :
    alignUp size MEM_BLOCKSIZE ≠ 0 ↔ 0 < size ∧ size ≤ 2 ^ 32 - 8 := by
  have h8 : MEM_BLOCKSIZE - 1 = 2 ^ 3 - 1 := rfl
  rw [alignUp, h8, align_mask_u32 (by decide), u32]
  omega

/-- A pool's call that fails. -/
theorem region_alloc_failed (h : Stocked ctx lists w) (hsize : size < 2 ^ 32)
    (hcall : dmaPoolRegionAlloc E ctx n a size w = some (none, w')) :
    Same ctx w w' ↔ (0 < size ∧ size ≤ 2 ^ 32 - 8) ∨ NoRoom E ctx w DMA_POOL_PUDDLE_SIZE := by
  rw [← block_size_eq_zero hsize]
  cases region_alloc_cases h hcall with
  | unmoved hroom hun => exact iff_of_true hun.same hroom
  | wasted h0 hroom hgrew =>
    exact iff_of_false hgrew.not_same fun hcase => hcase.elim (fun hne => hne h0) hroom

theorem region_alloc_of_alloc_none
    (hcall : dmaAlloc E ctx n a align size w = some (none, w')) :
    dmaPoolRegionAlloc E ctx n a (dmaTotal (dmaAlign align) size) w = some (none, w') := by
  obtain ⟨⟨res, w₁⟩, hregion, heq⟩ := Option.map_eq_some_iff.mp hcall
  cases res with
  | none => rwa [← (Prod.mk.inj heq).2]
  | some raw => cases (Prod.mk.inj heq).1

/-- **A failed allocation changes nothing**, unless its size rounds up to nothing and the pool has
room to grow. -/
theorem failed_alloc_iff (h : Stocked ctx lists w) :
    (∀ size w', size < 2 ^ 32 → dmaPoolRegionAlloc E ctx n a size w = some (none, w') →
      (Same ctx w w' ↔ (0 < size ∧ size ≤ 2 ^ 32 - 8) ∨ NoRoom E ctx w DMA_POOL_PUDDLE_SIZE)) ∧
    ∀ align size w', dmaAlloc E ctx n a align size w = some (none, w') →
      (Same ctx w w' ↔ (0 < dmaTotal (dmaAlign align) size
        ∧ dmaTotal (dmaAlign align) size ≤ 2 ^ 32 - 8) ∨ NoRoom E ctx w DMA_POOL_PUDDLE_SIZE) :=
  ⟨fun _ _ hsize hcall => region_alloc_failed h hsize hcall, fun _ _ _ hcall =>
    region_alloc_failed h (Nat.mod_lt _ (Nat.two_pow_pos 32)) (region_alloc_of_alloc_none hcall)⟩

/-! ## A buffer in its block -/

/-- The buffer's size rounded up to whole lines, without bound. -/
def wholeSize (align size : ℕ) : ℕ :=
  if DMA_ALIGN_MIN ≤ align then (size + (align - 1)) / align * align else size

/-- **The size arithmetic stays within 32 bits**, to the last rounding. -/
def NoWrap (align size : ℕ) : Prop := wholeSize align size + (align - 1) + 4 + 4 + 7 < 2 ^ 32

/-- **The buffer, its size header and its back pointer lie in the block.** -/
def InBlock (raw need p size : ℕ) : Prop :=
  raw + 4 ≤ raw + need ∧ raw + 4 ≤ p ∧ p ≤ raw + need ∧ p + size ≤ raw + need

instance (align size : ℕ) : Decidable (NoWrap align size) := inferInstanceAs (Decidable (_ < _))

instance (raw need p size : ℕ) : Decidable (InBlock raw need p size) :=
  inferInstanceAs (Decidable (_ ∧ _))

theorem le_wholeSize (ha : ∃ k, align = 2 ^ k) : size ≤ wholeSize align size := by
  have hpos : 0 < align := by
    obtain ⟨k, rfl⟩ := ha
    exact Nat.two_pow_pos k
  rw [wholeSize]
  split
  · have hdiv := Nat.div_add_mod (size + (align - 1)) align
    have hmod := Nat.mod_lt (size + (align - 1)) hpos
    rw [Nat.mul_comm] at hdiv
    omega
  · exact le_rfl

theorem wholeSize_le : wholeSize align size ≤ size + (align - 1) := by
  rw [wholeSize]
  split
  · exact Nat.div_mul_le_self _ _
  · exact Nat.le_add_right _ _

/-- What the code computes is the low 32 bits. -/
theorem dmaSize_eq {k : ℕ} (hk : k ≤ 32) (hsize : size < 2 ^ 32) :
    dmaSize (2 ^ k) size = u32 (wholeSize (2 ^ k) size) := by
  rw [dmaSize, wholeSize]
  split
  · have hmul : 2 ^ 32 = 2 ^ k * 2 ^ (32 - k) := by rw [← pow_add, Nat.add_sub_cancel' hk]
    rw [align_mask_u32 hk, u32, u32, hmul, Nat.mod_mul_right_div_self, Nat.mul_comm (2 ^ k),
      Nat.mul_mod_mul_right]
  · exact (u32_of_lt hsize).symm

/-- `total`, out of the size without bound. -/
theorem dmaTotal_u32 {k : ℕ} (hk : k ≤ 32) (hsize : size < 2 ^ 32) :
    dmaTotal (2 ^ k) size = u32 (wholeSize (2 ^ k) size + (2 ^ k - 1) + 4 + 4) := by
  rw [dmaTotal, dmaSize_eq hk hsize, u32, u32, u32]
  omega

/-- The size of the block for it. -/
theorem block_size_eq (size : ℕ) : alignUp size MEM_BLOCKSIZE = u32 (size + 7) / 8 * 8 := by
  have h8 : MEM_BLOCKSIZE - 1 = 2 ^ 3 - 1 := rfl
  rw [alignUp, h8, align_mask_u32 (by decide)]
  rfl

theorem wholeSize_le_max {k : ℕ} (hk : k ≤ 32) (hsize : size < 2 ^ 32) :
    wholeSize (2 ^ k) size ≤ 2 ^ 32 := by
  have hmul : 2 ^ 32 = 2 ^ (32 - k) * 2 ^ k := by rw [← pow_add, Nat.sub_add_cancel hk]
  have hpos : 0 < 2 ^ k := Nat.two_pow_pos k
  rw [wholeSize]
  split
  · have hlt : size + (2 ^ k - 1) < 2 ^ k * (2 ^ (32 - k) + 1) := by
      rw [Nat.mul_succ, Nat.mul_comm, ← hmul]
      omega
    have hdiv := Nat.lt_succ_iff.mp (Nat.div_lt_of_lt_mul hlt)
    rw [hmul]
    exact Nat.mul_le_mul_right _ hdiv
  · exact hsize.le

/-- **A buffer is in its block exactly when no size wraps.** -/
theorem inBlock_iff {k : ℕ} (hk : 2 ≤ k) (hk' : k < 32) (hsize : size < 2 ^ 32)
    (hpos : 0 < alignUp (dmaTotal (2 ^ k) size) MEM_BLOCKSIZE)
    (hraw : raw + alignUp (dmaTotal (2 ^ k) size) MEM_BLOCKSIZE ≤ DMA_MEM_2GB) :
    InBlock raw (alignUp (dmaTotal (2 ^ k) size) MEM_BLOCKSIZE) (dmaAligned (2 ^ k) raw) size
      ↔ NoWrap (2 ^ k) size := by
  have hle : size ≤ wholeSize (2 ^ k) size := le_wholeSize ⟨k, rfl⟩
  have hge : wholeSize (2 ^ k) size ≤ size + (2 ^ k - 1) := wholeSize_le
  have hmax : wholeSize (2 ^ k) size ≤ 2 ^ 32 := wholeSize_le_max hk'.le hsize
  have hsmall : 4 ≤ 2 ^ k := Nat.pow_le_pow_right Nat.two_pos hk
  have hlarge : 2 ^ k ≤ 2 ^ 30 ∨ 2 ^ k = 2 ^ 31 := by
    rcases Nat.lt_or_ge k 31 with hlt | hge
    · exact Or.inl (Nat.pow_le_pow_right Nat.two_pos (by omega))
    · exact Or.inr (by rw [Nat.le_antisymm (by omega) hge])
  have hlines : wholeSize (2 ^ k) size = (size + (2 ^ k - 1)) / 2 ^ k * 2 ^ k ∨ 2 ^ k < 64 ∧
      wholeSize (2 ^ k) size = size := by
    rw [wholeSize, DMA_ALIGN_MIN]
    split
    · exact Or.inl rfl
    · exact Or.inr ⟨by omega, rfl⟩
  rw [DMA_MEM_2GB] at hraw
  rw [block_size_eq, dmaTotal_u32 hk'.le hsize, u32, u32] at hpos hraw ⊢
  rw [NoWrap, InBlock]
  have hfit : raw + 4 + 4 + (2 ^ k - 1) < 2 ^ 32 := by omega
  obtain ⟨-, hlow, hhigh⟩ := aligned_of_fit ⟨k, rfl⟩ hfit
  generalize dmaAligned (2 ^ k) raw = p at hlow hhigh
  generalize wholeSize (2 ^ k) size = whole at *
  generalize 2 ^ k = align at *
  rcases hlarge with hlarge | rfl
  · omega
  · omega

/-- A block that went out lies below 2 GB. -/
theorem Took.below (ht : Took w w' q p ⟨raw, need⟩) (h : Stocked ctx lists w) :
    raw + need ≤ DMA_MEM_2GB := by
  obtain ⟨r, hr, -, -, hend⟩ := h.arenas.inside ht.pud
  have hupper := ht.fresh.upper
  rw [(h.arenas.sound q p ht.pud).upper] at hupper
  exact hupper.trans (hend.trans (h.arenas.filled r hr).2.2)

/-- It is out of its puddle. -/
theorem Took.out (ht : Took w w' q p e) :
    ∃ p', w'.puds q = some p' ∧ p'.arena = p.arena ∧ e ∈ p'.mh.out := by
  rw [ht.eq]
  exact ⟨_, Function.update_self q _ w.puds, rfl, List.mem_cons_self⟩

/-- **The block of an allocation**: out of a puddle, not empty, and below 2 GB. -/
theorem region_alloc_block (h : Stocked ctx lists w)
    (hcall : dmaPoolRegionAlloc E ctx n a size w = some (some raw, w')) :
    (∃ q p, w'.puds q = some p ∧ ⟨raw, alignUp size MEM_BLOCKSIZE⟩ ∈ p.mh.out) ∧
      0 < alignUp size MEM_BLOCKSIZE ∧ raw + alignUp size MEM_BLOCKSIZE ≤ DMA_MEM_2GB := by
  cases region_alloc_cases h hcall with
  | took hq ht =>
    obtain ⟨p', hp', -, hmem⟩ := ht.out
    exact ⟨⟨_, p', hp', hmem⟩, ht.fresh.pos, ht.below h⟩
  | grew hg ht =>
    obtain ⟨p', hp', -, hmem⟩ := ht.out
    exact ⟨⟨_, p', hp', hmem⟩, ht.fresh.pos, ht.below (hg.stocked h)⟩

theorem dmaAlign_pow {j : ℕ} : dmaAlign (2 ^ j) = 2 ^ max j 2 := by
  have hsmall : 2 ^ j < 2 ^ 2 ↔ j < 2 := Nat.pow_lt_pow_iff_right Nat.one_lt_two
  rw [dmaAlign]
  split
  · rename_i hlt
    rw [Nat.max_eq_right (hsmall.mp hlt).le]
    rfl
  · rename_i hge
    rw [Nat.max_eq_left (by omega)]

theorem region_alloc_of_alloc_some {p : ℕ}
    (hcall : dmaAlloc E ctx n a align size w = some (some p, w')) :
    ∃ raw w₁, dmaPoolRegionAlloc E ctx n a (dmaTotal (dmaAlign align) size) w
        = some (some raw, w₁) ∧ p = dmaAligned (dmaAlign align) raw ∧
      w' = w₁.setMem ((w₁.mem.setLong (before p) raw).setLong raw
        (dmaTotal (dmaAlign align) size)) := by
  obtain ⟨⟨res, w₁⟩, hregion, heq⟩ := Option.map_eq_some_iff.mp hcall
  cases res with
  | none => cases (Prod.mk.inj heq).1
  | some raw =>
    obtain ⟨hp, rfl⟩ := Prod.mk.inj heq
    obtain rfl := Option.some.inj hp
    exact ⟨raw, w₁, hregion, rfl, rfl⟩

/-- **`dma_alloc` returns what was asked for** exactly when no size wraps: the buffer, with its
header and its back pointer, lies in the block that went out for it. -/
theorem alloc_inside_iff (h : Stocked ctx lists w) {p : ℕ} (halign : ∃ j < 32, align = 2 ^ j)
    (hsize : size < 2 ^ 32) (hcall : dmaAlloc E ctx n a align size w = some (some p, w')) :
    ∃ raw w₁, dmaPoolRegionAlloc E ctx n a (dmaTotal (dmaAlign align) size) w
        = some (some raw, w₁) ∧
      (∃ q pud, w₁.puds q = some pud ∧
        ⟨raw, alignUp (dmaTotal (dmaAlign align) size) MEM_BLOCKSIZE⟩ ∈ pud.mh.out) ∧
      (InBlock raw (alignUp (dmaTotal (dmaAlign align) size) MEM_BLOCKSIZE) p size
        ↔ NoWrap (dmaAlign align) size) := by
  obtain ⟨j, hj, rfl⟩ := halign
  obtain ⟨raw, w₁, hregion, rfl, -⟩ := region_alloc_of_alloc_some hcall
  obtain ⟨hout, hpos, hbelow⟩ := region_alloc_block h hregion
  refine ⟨raw, w₁, hregion, hout, ?_⟩
  rw [dmaAlign_pow] at hpos hbelow ⊢
  exact inBlock_iff (Nat.le_max_right j 2) (max_lt hj (by decide)) hsize hpos hbelow

/-! ## A pool over one GiB of Pi DRAM -/

/-- The context of `oneGiB`. -/
def oneGiBCtx : DmaMemCtx := ⟨[⟨0x08000000, 0x38000000, 0⟩]⟩

/-- A pool without puddles. -/
def emptyPool : World where
  mem _ := 0
  headers := oneGiBHeaders
  puds _ := none
  pools a := if a = 0x00300000 then some ⟨0, DMA_POOL_PUDDLE_SIZE⟩ else none

theorem stocked_emptyPool : Stocked oneGiBCtx (fun _ => []) emptyPool := by
  refine Stocked.start (init_spec oneGiB_init) (List.pairwise_singleton _ _) (fun _ => rfl)
    (fun h => ?_) fun a P hP => ?_
  · match h with
    | 0 | 1 | _ + 2 => rfl
  · change (if a = 0x00300000 then some _ else none) = _ at hP
    obtain ⟨-, hP⟩ := Option.ite_none_right_eq_some.mp hP
    obtain rfl := Option.some.inj hP
    exact ⟨rfl, rfl⟩

/-- A call's result, with some world. -/
theorem exists_world {α : Type*} {x : Option (α × World)} {r : α}
    (h : x.map Prod.fst = some r) : ∃ w, x = some (r, w) := by
  obtain ⟨⟨r', w⟩, hx, hr⟩ := Option.map_eq_some_iff.mp h
  exact ⟨w, hx.trans (by rw [← hr])⟩

/-- **A request for 100 bytes** gets them, inside its block. -/
theorem alloc_inside_hundred : ∃ raw w₁,
    dmaPoolRegionAlloc lowestExec oneGiBCtx 1 0x00300000 (dmaTotal 64 100) emptyPool
        = some (some raw, w₁) ∧
      InBlock raw (alignUp (dmaTotal 64 100) MEM_BLOCKSIZE) 0x08000040 100 := by
  obtain ⟨w', hcall⟩ := exists_world (by decide :
    (dmaAlloc lowestExec oneGiBCtx 1 0x00300000 64 100 emptyPool).map Prod.fst
      = some (some 0x08000040))
  obtain ⟨raw, w₁, hregion, -, hiff⟩ :=
    alloc_inside_iff stocked_emptyPool ⟨6, by decide, rfl⟩ (by decide) hcall
  exact ⟨raw, w₁, hregion, hiff.mpr (by decide)⟩

/-- **A request just below 4 GiB** gets 72 bytes: rounded up to lines, its size is 0. -/
theorem alloc_too_small : ∃ w' w₁,
    dmaAlloc lowestExec oneGiBCtx 1 0x00300000 64 0xFFFFFFC1 emptyPool
        = some (some 0x08000040, w') ∧
      dmaPoolRegionAlloc lowestExec oneGiBCtx 1 0x00300000 (dmaTotal 64 0xFFFFFFC1) emptyPool
        = some (some 0x08000000, w₁) ∧
      alignUp (dmaTotal 64 0xFFFFFFC1) MEM_BLOCKSIZE = 72 ∧
      ¬InBlock 0x08000000 72 0x08000040 0xFFFFFFC1 := by
  obtain ⟨w', hcall⟩ := exists_world (by decide :
    (dmaAlloc lowestExec oneGiBCtx 1 0x00300000 64 0xFFFFFFC1 emptyPool).map Prod.fst
      = some (some 0x08000040))
  obtain ⟨w₁, hregion⟩ := exists_world (by decide :
    (dmaPoolRegionAlloc lowestExec oneGiBCtx 1 0x00300000 (dmaTotal 64 0xFFFFFFC1)
      emptyPool).map Prod.fst = some (some 0x08000000))
  exact ⟨w', w₁, hcall, hregion, by decide, by decide⟩

/-- **A request for 1 GiB** fails, and changes nothing. -/
theorem failed_alloc_large : ∃ w',
    dmaPoolRegionAlloc lowestExec oneGiBCtx 1 0x00300000 0x40000000 emptyPool = some (none, w') ∧
      Same oneGiBCtx emptyPool w' := by
  obtain ⟨w', hcall⟩ := exists_world (by decide :
    (dmaPoolRegionAlloc lowestExec oneGiBCtx 1 0x00300000 0x40000000 emptyPool).map Prod.fst
      = some none)
  exact ⟨w', hcall, ((failed_alloc_iff stocked_emptyPool).1 _ w' (by decide) hcall).mpr
    (Or.inl (by decide))⟩

/-- **A request for nothing** fails, and leaves the pool a puddle larger. -/
theorem failed_alloc_grows : ∃ w',
    dmaPoolRegionAlloc lowestExec oneGiBCtx 1 0x00300000 0 emptyPool = some (none, w') ∧
      ¬Same oneGiBCtx emptyPool w' := by
  obtain ⟨w', hcall⟩ := exists_world (by decide :
    (dmaPoolRegionAlloc lowestExec oneGiBCtx 1 0x00300000 0 emptyPool).map Prod.fst = some none)
  refine ⟨w', hcall, fun hsame => ?_⟩
  have hgrown : ((dmaPoolRegionAlloc lowestExec oneGiBCtx 1 0x00300000 0 emptyPool).bind
      fun r => (r.2.pools 0x00300000).map DmaPool.puddles) = some 0x00300040 := by
    decide
  rw [hcall, Option.bind_some, hsame.pools] at hgrown
  cases hgrown

end Dma
