import Emu68Common.Dma.Buffers

/-!
# Dma/Lines — a buffer's cache lines are its own

The blocks of a run's buffers do not meet, and a buffer that is aligned to cache lines has whole
ones of its block, behind the longs in front of it.  So an invalidate of the lines it touches loses
nobody else's data: no other block's, no book's of the pools or of Exec.
-/

namespace Dma

open Machinery

/-- A byte of a cache line the buffer touches. -/
def Buf.Touches (b : Buf) (i : ℕ) : Prop :=
  ∃ j, b.ptr ≤ j ∧ j < b.ptr + b.size ∧ i / DMA_ALIGN_MIN = j / DMA_ALIGN_MIN

/-- A byte of the size header of a block, or of the back pointer. -/
def Buf.Keeps (b : Buf) (i : ℕ) : Prop :=
  (b.raw ≤ i ∧ i < b.raw + 4) ∨ (b.ptr - 4 ≤ i ∧ i < b.ptr)

variable {ctx : DmaMemCtx} {lists : ℕ → List ℕ} {s s' : State} {b c : Buf} {i : ℕ}

/-- **The lines a buffer touches are in its block**, from the buffer on. -/
theorem Buf.Placed.touches (h : b.Placed) (hmin : DMA_ALIGN_MIN ≤ b.align) (hi : b.Touches i) :
    b.ptr ≤ i ∧ i < b.raw + b.block.size := by
  obtain ⟨⟨x, hx⟩, ⟨y, hy⟩⟩ := h.lines hmin
  obtain ⟨j, hlow, hhigh, hline⟩ := hi
  have hfits := h.fits
  have hholds := h.holds
  rw [DMA_ALIGN_MIN] at hx hy hline
  omega

theorem Buf.Placed.keeps (h : b.Placed) (hi : b.Keeps i) : b.raw ≤ i ∧ i < b.ptr := by
  have hroom := h.room
  rcases hi with hi | hi <;> omega

theorem Buf.Placed.ptr_le (h : b.Placed) : b.ptr ≤ b.raw + b.block.size :=
  (Nat.le_add_right _ _).trans h.fits

namespace Ordered

/-- A buffer is where the DMA engines reach. -/
theorem reachable (h : Ordered ctx lists s) (hb : b ∈ s.bufs) (hpos : 1 ≤ b.size) :
    dmaAddrReachable ctx b.ptr b.size = true := by
  obtain ⟨-, r, hr, hstart, hend⟩ := (h.holds hb).inside h.stocked
  have hplaced := h.placed hb
  have hroom := hplaced.room
  have hfits := hplaced.fits
  have hholds := hplaced.holds
  change r.start ≤ b.raw at hstart
  change b.raw + b.block.size ≤ r.end_ at hend
  exact reachable_of_within h.stocked.arenas.filled hr hpos (by omega) (by omega)

/-- **Nobody else has a byte of the lines a buffer touches.** -/
theorem own_lines (h : Ordered ctx lists s) (hb : b ∈ s.bufs) (hmin : DMA_ALIGN_MIN ≤ b.align)
    (hi : b.Touches i) :
    (∀ c ∈ s.bufs, c ≠ b → ¬c.block.Has i) ∧ (∀ c ∈ s.bufs, ¬c.Keeps i) ∧
      (∀ r ∈ ctx.regions, (s.world.headers r.header).Spared i) ∧
      ∀ q p, s.world.puds q = some p → p.mh.Spared i := by
  have hplaced := h.placed hb
  obtain ⟨hlow, hhigh⟩ := hplaced.touches hmin hi
  have hroom := hplaced.room
  have hin : b.block.Has i := ⟨by change b.raw ≤ i; omega, hhigh⟩
  have hout := (h.holds hb).out hin
  have hothers : ∀ c ∈ s.bufs, c ≠ b → ¬c.block.Has i := fun c hc hne =>
    (h.apart hb hc (Ne.symm hne)).not_has hin
  refine ⟨hothers, fun c hc hkeeps => ?_, fun r hr => h.stocked.arenas.spared_header hout hr,
    fun q p hp => h.stocked.arenas.spared_pud hout hp⟩
  obtain ⟨hfrom, hto⟩ := (h.placed hc).keeps hkeeps
  by_cases hcb : c = b
  · subst hcb
    omega
  · exact hothers c hc hcb ⟨hfrom, hto.trans_le (h.placed hc).ptr_le⟩

end Ordered

/-- **Buffers never collide, are always reachable and own their cache lines**: in every run of any
number of tasks, over a context that `dma_mem_init` filled with regions that do not meet. -/
theorem buffers_apart {Key : Type} {DeviceTreeBase : Option (Resource Key)}
    {MemList : List (ℕ × ℕ)} {fuel : ℕ}
    (hinit : dmaMemInit DeviceTreeBase MemList s.world.headers fuel = some ctx)
    (hd : ctx.Disjoint) (hs : Start s) (hrun : Runs ctx s s') :
    (s'.bufs.Pairwise fun b c => b.block.Apart c.block) ∧
    ∀ b ∈ s'.bufs, b.stage = .live →
      b.align ∣ b.ptr ∧ (1 ≤ b.size → dmaAddrReachable ctx b.ptr b.size = true) ∧
      (DMA_ALIGN_MIN ≤ b.align → ∀ i, b.Touches i →
        (∀ c ∈ s'.bufs, c ≠ b → ¬c.block.Has i) ∧ (∀ c ∈ s'.bufs, ¬c.Keeps i) ∧
        (∀ r ∈ ctx.regions, (s'.world.headers r.header).Spared i) ∧
        ∀ q p, s'.world.puds q = some p → p.mh.Spared i) := by
  obtain ⟨lists, h⟩ := ordered_of_runs hs (init_spec hinit) hd hrun
  refine ⟨?_, fun b hb _ => ⟨(h.placed hb).dvd, h.reachable hb,
    fun hmin i hi => h.own_lines hb hmin hi⟩⟩
  exact h.nodup_bufs.imp_of_mem fun hb hc hne => h.apart hb hc hne

/-- Two buffers out of one GiB, of 100 bytes and of 200. -/
theorem buffers_apart_oneGiB : ∃ w b c, Runs oneGiBCtx ⟨oneGiBWorld, []⟩ ⟨w, [c, b]⟩ ∧
    c.block.Apart b.block ∧ dmaAddrReachable oneGiBCtx b.ptr b.size = true ∧
    dmaAddrReachable oneGiBCtx c.ptr c.size = true ∧
    ∀ i, b.Touches i → ¬c.block.Has i ∧ ¬c.Keeps i := by
  obtain ⟨w, b, c, hrun, ⟨hbalign, hbsize, hbptr, hblive⟩, -, hcsize, hcptr, hclive⟩ := oneGiB_runs
  obtain ⟨hapart, hbufs⟩ :=
    buffers_apart oneGiB_init (List.pairwise_singleton _ _) start_oneGiB hrun
  have hc : c ∈ [c, b] := List.mem_cons_self
  have hb : b ∈ [c, b] := List.mem_cons_of_mem c List.mem_cons_self
  obtain ⟨-, hreach, hlines⟩ := hbufs b hb hblive
  obtain ⟨-, hreach', -⟩ := hbufs c hc hclive
  have hne : c ≠ b := by
    rintro rfl
    exact absurd (hcptr.symm.trans hbptr) (by decide)
  refine ⟨w, b, c, hrun, List.rel_of_pairwise_cons hapart List.mem_cons_self,
    hreach (hbsize ▸ by decide), hreach' (hcsize ▸ by decide), fun i hi => ?_⟩
  obtain ⟨hothers, hkeeps, -⟩ := hlines (hbalign ▸ by decide) i hi
  exact ⟨hothers c hc hne, hkeeps c hc⟩

end Dma
