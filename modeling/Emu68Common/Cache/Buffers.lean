import Emu68Common.Cache.Coherent
import Emu68Common.Dma.Lines

/-!
# Cache/Buffers — the buffers of `dma_alloc` keep the protocol's side of the bargain

The protocol needs every buffer to have its lines to itself.  What `dma_alloc` hands out for an
alignment of a line or more is such a buffer (`apart_lent`), so transfers to and from the buffers of
any run of allocations and releases are coherent, and no store beside them has to wait.
-/

namespace Cache

open Machinery Dma

/-- **A buffer that may be lent to a device**: live, and aligned to cache lines. -/
structure Lent (s : Dma.State) where
  buf : Buf
  mem : buf ∈ s.bufs
  live : buf.stage = .live
  aligned : DMA_ALIGN_MIN ≤ buf.align
  placed : buf.Placed

variable {s s' : Dma.State}

instance : DecidableEq (Lent s) := fun b c =>
  decidable_of_iff (b.buf = c.buf) (by cases b; cases c; simp)

namespace Lent

theorem fits (b : Lent s) : b.buf.ptr + b.buf.size ≤ 2 ^ 32 := by
  have hfits := b.placed.fits
  have hholds := b.placed.holds
  have hbelow := b.placed.below
  rw [DMA_MEM_2GB] at hbelow
  omega

/-- Its range of addresses. -/
def range (b : Lent s) : Range := ⟨b.buf.ptr, b.buf.size, b.fits⟩

/-- The lines of the range are those the buffer touches. -/
theorem touches {b : Lent s} {i : ℕ} (h : i / DMA_ALIGN_MIN ∈ b.range.lines) : b.buf.Touches i := by
  obtain ⟨j, hlow, hhigh, hline⟩ := mem_lines.mp h
  exact ⟨j, hlow, hhigh, hline.symm⟩

/-- What is lent is in its block. -/
theorem has {b : Lent s} {i : ℕ} (h : i / DMA_ALIGN_MIN ∈ b.range.lines) : b.buf.block.Has i := by
  obtain ⟨hlow, hhigh⟩ := b.placed.touches b.aligned (touches h)
  have hroom := b.placed.room
  exact ⟨by change b.buf.raw ≤ i; omega, hhigh⟩

/-- **What is lent has its lines to itself.** -/
theorem apart {ctx : DmaMemCtx} {lists : ℕ → List ℕ} (h : Ordered ctx lists s) :
    Apart (range (s := s)) := by
  intro b c l hb hc
  obtain ⟨i, -, -, rfl⟩ := mem_lines.mp hc
  obtain ⟨hothers, -⟩ := h.own_lines b.mem b.aligned (touches hb)
  by_contra hne
  refine hothers c.buf c.mem (fun heq => hne ?_) (has hc)
  cases b
  cases c
  cases heq
  rfl

end Lent

/-- **Every live buffer of a run may be lent** that is aligned to cache lines. -/
theorem exists_lent {Key : Type} {DeviceTreeBase : Option (Resource Key)}
    {MemList : List (ℕ × ℕ)} {fuel : ℕ} {ctx : DmaMemCtx}
    (hinit : dmaMemInit DeviceTreeBase MemList s.world.headers fuel = some ctx)
    (hd : ctx.Disjoint) (hs : Dma.Start s) (hruns : Runs ctx s s') {b : Buf} (hb : b ∈ s'.bufs)
    (hlive : b.stage = .live) (haligned : DMA_ALIGN_MIN ≤ b.align) : ∃ l : Lent s', l.buf = b := by
  obtain ⟨_, hordered⟩ := ordered_of_runs hs (init_spec hinit) hd hruns
  exact ⟨⟨b, hb, hlive, haligned, hordered.placed hb⟩, rfl⟩

/-- **Transfers to and from buffers of `dma_alloc` are coherent**: after any run of allocations and
releases, in any run of stores, transfers and barriers over the live buffers that are aligned to
lines; and a store beside the buffers' blocks may go ahead at any time. -/
theorem lent_coherent {Key : Type} {DeviceTreeBase : Option (Resource Key)}
    {MemList : List (ℕ × ℕ)} {fuel : ℕ} {ctx : DmaMemCtx}
    (hinit : dmaMemInit DeviceTreeBase MemList s.world.headers fuel = some ctx)
    (hd : ctx.Disjoint) (hs : Dma.Start s) (hruns : Runs ctx s s')
    {es : List (Option (Event (Lent s')))} {t : Sys (Lent s')} (hrun : Run Lent.range es t) :
    (∀ e t', Step Lent.range t (some e) t' → t.ledger.Right e) ∧
      ∀ a v, (∀ b ∈ s'.bufs, ¬b.block.Has a) → t.ledger.Allowed Lent.range (.store a v) := by
  obtain ⟨lists, hordered⟩ := ordered_of_runs hs (init_spec hinit) hd hruns
  refine ⟨fun e t' hstep => transfers_coherent (Lent.apart hordered) hrun hstep,
    fun a v hout b hb => ?_⟩
  exact absurd (Lent.has hb) (hout b.buf b.mem)

/-- A transfer from a device to a buffer of 100 bytes, over what was stored there, after a store to
another buffer. -/
theorem lent_coherent_oneGiB : ∃ w b c l es t t' v,
    Runs oneGiBCtx ⟨oneGiBWorld, []⟩ ⟨w, [c, b]⟩ ∧ l.buf = b ∧
      Run (Lent.range (s := ⟨w, [c, b]⟩)) es t ∧
      (∀ e ∈ [.store b.ptr 0x11, .store c.ptr 0x22, .pre l DMA_WriteToRAM, .arm l,
        .land l b.ptr 0x5A, .complete l, .post l 0], some e ∈ es) ∧
      Step Lent.range t (some (.load b.ptr v)) t' ∧ v = 0x5A := by
  have hd : oneGiBCtx.Disjoint := List.pairwise_singleton _ _
  obtain ⟨w, b, c, hruns, ⟨hbalign, hbsize, -, hblive⟩, -⟩ := oneGiB_runs
  obtain ⟨l, hl⟩ := exists_lent oneGiB_init hd start_oneGiB hruns
    (List.mem_cons_of_mem c List.mem_cons_self) hblive (hbalign ▸ le_rfl)
  have hhas : l.range.Has b.ptr := by
    simp [Range.Has, Lent.range, hl, hbsize]
  have hstart : Run (Lent.range (s := ⟨w, [c, b]⟩)) [] (zeros _) := .start start_zeros
  have hstored := hstart.next (.act (e := .store b.ptr 0x11) (fun _ _ => rfl) rfl
    (.stores rfl _ _ _))
  have hbeside := hstored.next (.act (e := .store c.ptr 0x22) (fun _ _ => rfl) rfl
    (.stores rfl _ _ _))
  obtain ⟨es, t, hrun, hmem, hwaits, hcpu, hval⟩ :=
    receive_runs hbeside rfl (fun _ => rfl) hhas 0x5A
  have hload := load_of_run hrun (a := b.ptr) hwaits fun i _ => .inl (hcpu i)
  obtain ⟨hright, -⟩ := lent_coherent oneGiB_init hd start_oneGiB hruns hrun
  refine ⟨w, b, c, l, _, t, t, _, hruns, hl, hrun, ?_, hload, hright _ _ hload _ hval⟩
  simp only [List.forall_mem_cons] at hmem ⊢
  simp [hmem]

end Cache
