import Emu68Common.Dma.Alloc
import Emu68Common.Dma.Blocks

/-!
# Dma/Buffers — buffers of any number of tasks

A region call is made under `Forbid`, the rest of `dma_alloc` and `dma_free` is not: other tasks run
between the block's going out and the two longs in front of the buffer, and between the reading of
these and the block's going back (`Stage`).  A run is any order of such steps, of clients that write
in the buffers they have, and of the rest of the system, which leaves the blocks alone (`Step`).

    dma_alloc   ──block──▸ backed ──back pointer──▸ linked ──size──▸ live
    dma_free    live ──back pointer──▸ found ──size──▸ sized ──block──▸
-/

namespace Dma

open Machinery

/-! ## A buffer -/

/-- How far a buffer's allocation is, or its release. -/
inductive Stage where
  | backed
  | linked
  | live
  | found (raw : ℕ)
  | sized (raw total : ℕ)
  deriving DecidableEq, Repr

/-- **A buffer**: what was asked for, of which pool, the block it got, and the puddle that is out
of. -/
structure Buf where
  pool : ℕ
  align : ℕ
  size : ℕ
  pud : ℕ
  raw : ℕ
  stage : Stage
  deriving DecidableEq, Repr

namespace Buf

variable (b : Buf)

/-- `total`. -/
def total : ℕ := dmaTotal (dmaAlign b.align) b.size

/-- The buffer itself. -/
def ptr : ℕ := dmaAligned (dmaAlign b.align) b.raw

/-- Its block. -/
def block : Extent := ⟨b.raw, alignUp b.total MEM_BLOCKSIZE⟩

/-- What it has of the buffer's size, in whole lines where it is aligned to them. -/
def whole : ℕ := wholeSize (dmaAlign b.align) b.size

/-- The longs in front of it, as far as they have been written. -/
def book : Book :=
  match b.stage with
  | .backed => []
  | .linked => [(before b.ptr, b.raw)]
  | _ => [(before b.ptr, b.raw), (b.raw, b.total)]

/-- What a release has read of them is right. -/
def Read : Prop :=
  match b.stage with
  | .found raw => raw = b.raw
  | .sized raw total => raw = b.raw ∧ total = b.total
  | _ => True

end Buf

/-- **A request**: aligned to a power of two, and without overflow in its sizes. -/
structure Request (align size : ℕ) : Prop where
  pow : ∃ j < 32, align = 2 ^ j
  noWrap : NoWrap (dmaAlign align) size

variable {b c : Buf} {i : ℕ}

theorem before_eq {a : ℕ} (h : 4 ≤ a) (ha : a < 2 ^ 32) : before a = a - 4 := by
  rw [before, u32]
  omega

/-- **A buffer in its block**: room for the longs before it, and all of it inside. -/
structure Buf.Placed (b : Buf) : Prop where
  dvd : b.align ∣ b.ptr
  room : b.raw + 8 ≤ b.ptr
  fits : b.ptr + b.whole ≤ b.raw + b.block.size
  holds : b.size ≤ b.whole
  back : before b.ptr = b.ptr - 4
  below : b.raw + b.block.size ≤ DMA_MEM_2GB
  lines : DMA_ALIGN_MIN ≤ b.align → DMA_ALIGN_MIN ∣ b.ptr ∧ DMA_ALIGN_MIN ∣ b.whole

theorem Request.placed (h : Request b.align b.size)
    (hbelow : b.raw + b.block.size ≤ DMA_MEM_2GB) : b.Placed := by
  obtain ⟨⟨j, hj, halign⟩, hwrap⟩ := h
  have hk : dmaAlign b.align = 2 ^ max j 2 := by rw [halign, dmaAlign_pow]
  have hsize : b.size ≤ b.whole := by
    rw [Buf.whole, hk]
    exact le_wholeSize ⟨_, rfl⟩
  have hlt : max j 2 < 32 := max_lt hj (by decide)
  rw [NoWrap] at hwrap
  change b.whole + _ + 4 + 4 + 7 < 2 ^ 32 at hwrap
  have hle : b.size < 2 ^ 32 := by omega
  have htotal : b.total = b.whole + (2 ^ max j 2 - 1) + 8 := by
    rw [hk] at hwrap
    rw [Buf.total, hk, dmaTotal_u32 hlt.le hle, Buf.whole, hk, u32_of_lt]
    rw [Buf.whole, hk] at hwrap
    omega
  have hneed : b.total ≤ b.block.size := by
    change b.total ≤ alignUp b.total MEM_BLOCKSIZE
    rw [block_size_eq, u32_of_lt (by rw [hk] at hwrap; omega)]
    omega
  have hbelow' := hbelow
  rw [DMA_MEM_2GB] at hbelow'
  have hfit : b.raw + 4 + 4 + (2 ^ max j 2 - 1) < 2 ^ 32 := by omega
  obtain ⟨hdvd, hlow, hhigh⟩ := aligned_of_fit ⟨_, rfl⟩ hfit
  rw [← hk] at hdvd hlow hhigh
  change _ ∣ b.ptr at hdvd
  change _ ≤ b.ptr at hlow
  change b.ptr ≤ _ at hhigh
  rw [hk] at hhigh
  have hup : b.align ∣ dmaAlign b.align := by
    rw [hk, halign]
    exact pow_dvd_pow 2 (Nat.le_max_left j 2)
  refine ⟨hup.trans hdvd, hlow, by omega, hsize, before_eq (by omega) (by omega), hbelow,
    fun hmin => ?_⟩
  have hj6 : 6 ≤ j := by
    by_contra hj6
    have : 2 ^ j < 2 ^ 6 := Nat.pow_lt_pow_right (by decide) (Nat.lt_of_not_le hj6)
    rw [DMA_ALIGN_MIN] at hmin
    omega
  have h64 : DMA_ALIGN_MIN ∣ dmaAlign b.align := by
    rw [hk]
    exact pow_dvd_pow 2 (hj6.trans (Nat.le_max_left j 2))
  have hmin' : DMA_ALIGN_MIN ≤ dmaAlign b.align := by
    rw [hk]
    exact Nat.pow_le_pow_right Nat.two_pos (hj6.trans (Nat.le_max_left j 2))
  refine ⟨h64.trans hdvd, h64.trans ?_⟩
  rw [Buf.whole, wholeSize, if_pos hmin']
  exact Nat.dvd_mul_left _ _

/-- The longs in front lie in the block, and before the buffer. -/
theorem Buf.Placed.book_in (h : b.Placed) {e : ℕ × ℕ} (he : e ∈ b.book) :
    b.raw ≤ e.1 ∧ e.1 + 4 ≤ b.ptr ∧ b.ptr ≤ b.raw + b.block.size := by
  have hroom := h.room
  have hfits := h.fits
  have hmem : e = (before b.ptr, b.raw) ∨ e = (b.raw, b.total) := by
    rw [Buf.book] at he
    split at he
    · exact absurd he List.not_mem_nil
    · exact Or.inl (List.mem_singleton.mp he)
    · rcases List.mem_cons.mp he with he | he
      · exact Or.inl he
      · exact Or.inr (List.mem_singleton.mp he)
  rcases hmem with rfl | rfl
  · rw [h.back]
    dsimp only
    omega
  · dsimp only
    omega

/-! ## Runs -/

/-- **The pools, and the buffers** out of them or on their way. -/
structure State where
  world : World
  bufs : List Buf

/-- A buffer goes on to a stage, with memory as it is then. -/
def State.go (s : State) (b : Buf) (stage : Stage) (m : Block) : State :=
  ⟨s.world.setMem m, { b with stage := stage } :: s.bufs.erase b⟩

/-- A block is out of a puddle. -/
def World.Gave (w : World) (q : ℕ) (e : Extent) : Prop := ∃ p, w.puds q = some p ∧ e ∈ p.mh.out

/-- **One step** of some task: a region call, what `dma_alloc` or `dma_free` does on its own, or a
client's write.  How Exec answers may differ from call to call. -/
inductive Step (ctx : DmaMemCtx) : State → State → Prop
  | alloc {s : State} {w : World} {E : Exec} {n pool align size q raw : ℕ}
    (hreq : Request align size)
    (hcall : dmaPoolRegionAlloc E ctx n pool (dmaTotal (dmaAlign align) size) s.world
      = some (some raw, w))
    (hgave : w.Gave q ⟨raw, alignUp (dmaTotal (dmaAlign align) size) MEM_BLOCKSIZE⟩) :
    Step ctx s ⟨w, ⟨pool, align, size, q, raw, .backed⟩ :: s.bufs⟩
  | failed {s : State} {w : World} {E : Exec} {n pool align size : ℕ} (hreq : Request align size)
    (hcall : dmaPoolRegionAlloc E ctx n pool (dmaTotal (dmaAlign align) size) s.world
      = some (none, w)) : Step ctx s ⟨w, s.bufs⟩
  /-- `Allocate` fails from the new puddle too. -/
  | starved {s : State} {w : World} {E : Exec} {pool align size q : ℕ} (hreq : Request align size)
    (hcall : dmaPoolGrow E ctx pool
      (alignUp (dmaTotal (dmaAlign align) size) MEM_BLOCKSIZE) s.world = some (some q, w)) :
    Step ctx s ⟨w, s.bufs⟩
  /-- `((APTR *)aligned)[-1] = raw;` -/
  | link {s : State} {b : Buf} (hb : b ∈ s.bufs) (hstage : b.stage = .backed) :
    Step ctx s (s.go b .linked (s.world.mem.setLong (before b.ptr) b.raw))
  /-- `*(ULONG *)raw = total;` -/
  | size {s : State} {b : Buf} (hb : b ∈ s.bufs) (hstage : b.stage = .linked) :
    Step ctx s (s.go b .live (s.world.mem.setLong b.raw b.total))
  /-- The client, or the `memset` of `dma_zalloc`. -/
  | write {s : State} {b : Buf} {i : ℕ} (v : UInt8) (hb : b ∈ s.bufs) (hstage : b.stage = .live)
    (hi : b.ptr ≤ i ∧ i < b.ptr + b.size) :
    Step ctx s ⟨s.world.setMem (Function.update s.world.mem i v), s.bufs⟩
  /-- `APTR raw = ((APTR *)ptr)[-1];` -/
  | find {s : State} {b : Buf} (hb : b ∈ s.bufs) (hstage : b.stage = .live) :
    Step ctx s (s.go b (.found (s.world.mem.long (before b.ptr))) s.world.mem)
  /-- `ULONG size = *(ULONG *)raw;` -/
  | read {s : State} {b : Buf} {raw : ℕ} (hb : b ∈ s.bufs) (hstage : b.stage = .found raw) :
    Step ctx s (s.go b (.sized raw (s.world.mem.long raw)) s.world.mem)
  | free {s : State} {w : World} {E : Exec} {b : Buf} {n raw total : ℕ} (hb : b ∈ s.bufs)
    (hstage : b.stage = .sized raw total)
    (hcall : dmaPoolRegionFree E n b.pool raw total s.world = some w) :
    Step ctx s ⟨w, s.bufs.erase b⟩
  | shrink {s : State} {w : World} {E : Exec} {n pool : ℕ}
    (hcall : dmaPoolShrink E n pool s.world = some w) : Step ctx s ⟨w, s.bufs⟩
  | create {s : State} {w : World} {E : Exec} {res : Option ℕ}
    (hcall : dmaPoolCreate E ctx s.world = (res, w)) : Step ctx s ⟨w, s.bufs⟩
  /-- No task is in a call on the pool. -/
  | delete {s : State} {w : World} {E : Exec} {n pool : ℕ}
    (hcall : dmaPoolDelete E n pool s.world = some w)
    (hlive : ∀ b ∈ s.bufs, b.pool = pool → b.stage = .live) :
    Step ctx s ⟨w, s.bufs.filter fun b => b.pool ≠ pool⟩
  /-- The rest of the system: it takes and gives back memory of the headers, and writes what is not
  out of the pools. -/
  | outside {s : State} {m : Block} {headers : ℕ → MemHeader}
    (hheaders : ∀ h, (headers h).mhLower = (s.world.headers h).mhLower ∧
      (headers h).mhUpper = (s.world.headers h).mhUpper ∧
      (headers h).out = (s.world.headers h).out)
    (hm : ∀ i, s.world.Out i → m i = s.world.mem i) :
    Step ctx s ⟨{ s.world with mem := m, headers := headers }, s.bufs⟩

/-- **The start**: no pools, nothing out of the headers, and no buffers. -/
structure Start (s : State) : Prop where
  puds : ∀ q, s.world.puds q = none
  pools : ∀ a, s.world.pools a = none
  out : ∀ h, (s.world.headers h).out = []
  bufs : s.bufs = []

/-- Some steps. -/
def Runs (ctx : DmaMemCtx) : State → State → Prop := Relation.ReflTransGen (Step ctx)

/-! ## The invariant -/

/-- **The buffers in order**: the blocks out of the pools are the buffers', each once, and the longs
in front of the buffers are what was written there. -/
structure Ordered (ctx : DmaMemCtx) (lists : ℕ → List ℕ) (s : State) : Prop where
  stocked : Stocked ctx lists s.world
  null : s.world.pools 0 = none
  owners : ∀ a q e, Holds lists s.world a q e ↔ ∃ b ∈ s.bufs, b.pool = a ∧ b.pud = q ∧ b.block = e
  nodup : (s.bufs.map Buf.block).Nodup
  request : ∀ b ∈ s.bufs, Request b.align b.size
  ne_zero : ∀ b ∈ s.bufs, b.raw ≠ 0
  book : ∀ b ∈ s.bufs, s.world.mem.Kept b.book
  read : ∀ b ∈ s.bufs, b.Read

namespace Ordered

variable {ctx : DmaMemCtx} {lists lists' : ℕ → List ℕ} {s s' : State} {w : World}

theorem holds (h : Ordered ctx lists s) (hb : b ∈ s.bufs) :
    Holds lists s.world b.pool b.pud b.block :=
  (h.owners _ _ _).mpr ⟨b, hb, rfl, rfl, rfl⟩

theorem placed (h : Ordered ctx lists s) (hb : b ∈ s.bufs) : b.Placed := by
  obtain ⟨-, r, hr, -, hend⟩ := (h.holds hb).inside h.stocked
  exact (h.request b hb).placed (hend.trans (h.stocked.arenas.filled r hr).2.2)

/-- **Buffers' blocks do not meet.** -/
theorem apart (h : Ordered ctx lists s) (hb : b ∈ s.bufs) (hc : c ∈ s.bufs) (hne : b ≠ c) :
    b.block.Apart c.block :=
  (h.holds hb).apart (h.holds hc) h.stocked
    fun heq => hne (List.inj_on_of_nodup_map h.nodup hb hc heq)

theorem nodup_bufs (h : Ordered ctx lists s) : s.bufs.Nodup := List.Nodup.of_map _ h.nodup

/-- What is written in front of a buffer lies in its block. -/
theorem out_of_book (h : Ordered ctx lists s) (hb : b ∈ s.bufs) {e : ℕ × ℕ} (he : e ∈ b.book)
    {i : ℕ} (hi : e.1 ≤ i) (hi' : i < e.1 + 4) : s.world.Out i := by
  obtain ⟨hlow, hhigh, hin⟩ := (h.placed hb).book_in he
  exact (h.holds hb).out ⟨hlow.trans hi, by change i < b.raw + b.block.size; omega⟩

/-! ### Calls -/

/-- **A call that leaves these buffers out**, and their bytes alone. -/
theorem of_sublist (h : Ordered ctx lists s) {bufs : List Buf} (hsub : bufs.Sublist s.bufs)
    (hw : Stocked ctx lists' w) (hnull : w.pools 0 = none)
    (howners : ∀ a q e, Holds lists' w a q e ↔
      ∃ b ∈ bufs, b.pool = a ∧ b.pud = q ∧ b.block = e)
    (hm : ∀ i, w.Out i → s.world.Out i → w.mem i = s.world.mem i) :
    Ordered ctx lists' ⟨w, bufs⟩ where
  stocked := hw
  null := hnull
  owners := howners
  nodup := h.nodup.sublist (hsub.map _)
  request b hb := h.request b (hsub.subset hb)
  ne_zero b hb := h.ne_zero b (hsub.subset hb)
  read b hb := h.read b (hsub.subset hb)
  book b hb := by
    have hb' := hsub.subset hb
    refine (h.book b hb').congr fun e he i hi hi' => hm i ?_ (h.out_of_book hb' he hi hi')
    obtain ⟨hlow, hhigh, hin⟩ := (h.placed hb').book_in he
    exact ((howners _ _ _).mpr ⟨b, hb, rfl, rfl, rfl⟩).out
      ⟨hlow.trans hi, by change i < b.raw + b.block.size; omega⟩

/-- **A call that leaves all of them out.** -/
theorem call (h : Ordered ctx lists s) (hw : Stocked ctx lists' w) (hnull : w.pools 0 = none)
    (hholds : ∀ a q e, Holds lists' w a q e ↔ Holds lists s.world a q e)
    (hm : ∀ i, w.Out i → s.world.Out i → w.mem i = s.world.mem i) :
    Ordered ctx lists' ⟨w, s.bufs⟩ :=
  h.of_sublist (List.Sublist.refl _) hw hnull
    (fun a q e => (hholds a q e).trans (h.owners a q e)) hm

/-- **A block goes out** to a new buffer. -/
theorem alloc (h : Ordered ctx lists s) {E : Exec} {n pool align size q raw : ℕ}
    (hreq : Request align size)
    (hcall : dmaPoolRegionAlloc E ctx n pool (dmaTotal (dmaAlign align) size) s.world
      = some (some raw, w))
    (hgave : w.Gave q ⟨raw, alignUp (dmaTotal (dmaAlign align) size) MEM_BLOCKSIZE⟩) :
    ∃ lists', Ordered ctx lists' ⟨w, ⟨pool, align, size, q, raw, .backed⟩ :: s.bufs⟩ := by
  obtain ⟨lists', q', hw, hholds, hnew, h0, hm, hnull⟩ := region_alloc_some h.stocked hcall
  have hq : q' = q := by
    have hgot := (hholds pool q' _).mpr (Or.inr ⟨rfl, rfl, rfl⟩)
    obtain ⟨p, hp, he⟩ := hgave
    obtain ⟨a, hqa⟩ := hw.exists_list hp
    exact (hgot.unique ⟨hqa, p, hp, he⟩ hw).2
  subst hq
  refine ⟨lists', hw, hnull h.null, fun a r e => ?owners, ?nodup, ?request, ?ne_zero, ?book, ?read⟩
  case owners =>
    refine (hholds a r e).trans ((or_congr_left (h.owners a r e)).trans ?_)
    constructor
    · rintro (⟨b, hb, hown⟩ | ⟨rfl, rfl, rfl⟩)
      · exact ⟨b, List.mem_cons_of_mem _ hb, hown⟩
      · exact ⟨_, List.mem_cons_self, rfl, rfl, rfl⟩
    · rintro ⟨b, hb, rfl, rfl, rfl⟩
      rcases List.mem_cons.mp hb with rfl | hb
      · exact Or.inr ⟨rfl, rfl, rfl⟩
      · exact Or.inl ⟨b, hb, rfl, rfl, rfl⟩
  case nodup =>
    refine List.nodup_cons.mpr ⟨fun hmem => ?_, h.nodup⟩
    obtain ⟨b, hb, hblock⟩ := List.mem_map.mp hmem
    have hold := h.holds hb
    rw [hblock] at hold
    exact hnew _ _ hold
  case request => exact List.forall_mem_cons.mpr ⟨hreq, h.request⟩
  case ne_zero => exact List.forall_mem_cons.mpr ⟨h0, h.ne_zero⟩
  case book =>
    refine List.forall_mem_cons.mpr ⟨fun e he => absurd he List.not_mem_nil, fun b hb => ?_⟩
    exact (h.book b hb).congr fun e he i hi hi' => hm i (h.out_of_book hb he hi hi')
  case read => exact List.forall_mem_cons.mpr ⟨trivial, h.read⟩

/-- **A block goes back**, and its buffer is gone. -/
theorem free (h : Ordered ctx lists s) {E : Exec} {n raw total : ℕ} (hb : b ∈ s.bufs)
    (hstage : b.stage = .sized raw total)
    (hcall : dmaPoolRegionFree E n b.pool raw total s.world = some w) :
    Ordered ctx lists ⟨w, s.bufs.erase b⟩ := by
  have hread := h.read b hb
  rw [Buf.Read, hstage] at hread
  obtain ⟨rfl, rfl⟩ := hread
  obtain ⟨hq, p, hp, he⟩ := h.holds hb
  obtain rfl := (region_free_eq h.stocked hq hp (h.ne_zero b hb) he).1 w hcall
  refine h.of_sublist List.erase_sublist (h.stocked.returned E hp he) h.null (fun a r e => ?_)
    fun i hi _ => h.stocked.mem_returned hp he hi
  refine (h.stocked.holds_returned E hp he).trans ?_
  rw [h.owners]
  constructor
  · rintro ⟨⟨c, hc, rfl, rfl, rfl⟩, hne⟩
    exact ⟨c, h.nodup_bufs.mem_erase_iff.mpr ⟨fun hcb => hne (congrArg Buf.block hcb), hc⟩,
      rfl, rfl, rfl⟩
  · rintro ⟨c, hc, rfl, rfl, rfl⟩
    obtain ⟨hcb, hc⟩ := h.nodup_bufs.mem_erase_iff.mp hc
    exact ⟨⟨c, hc, rfl, rfl, rfl⟩, fun heq => hcb (List.inj_on_of_nodup_map h.nodup hc hb heq)⟩

/-- **A shrink**: every buffer keeps its block. -/
theorem shrink (h : Ordered ctx lists s) {E : Exec} {n pool : ℕ}
    (hcall : dmaPoolShrink E n pool s.world = some w) :
    ∃ lists', Ordered ctx lists' ⟨w, s.bufs⟩ := by
  by_cases h0 : pool = 0
  · rw [dmaPoolShrink, if_pos h0] at hcall
    obtain rfl := Option.some.inj hcall
    exact ⟨lists, h⟩
  · have hP : ∃ P, s.world.pools pool = some P := by
      rw [dmaPoolShrink, if_neg h0] at hcall
      cases n with
      | zero => cases hcall
      | succ n =>
        rw [shrinkFrom] at hcall
        obtain ⟨head, hhead, -⟩ := Option.bind_eq_some_iff.mp hcall
        obtain ⟨P, hP, -⟩ := Option.map_eq_some_iff.mp hhead
        exact ⟨P, hP⟩
    obtain ⟨P, hP⟩ := hP
    have hculled := (shrink_spec E h.stocked h0 hP).1 w hcall
    exact ⟨_, h.call hculled.stocked ((hculled.pools 0 (Ne.symm h0)).trans h.null)
      (fun a q e => hculled.holds_shrink h.stocked) fun i hi _ => hculled.mem i hi⟩

theorem create (h : Ordered ctx lists s) {E : Exec} {res : Option ℕ}
    (hcall : dmaPoolCreate E ctx s.world = (res, w)) : Ordered ctx lists ⟨w, s.bufs⟩ := by
  rcases create_cases E h.stocked with hnone | ⟨a, h0, -, hsome, hw⟩
  · obtain ⟨-, rfl⟩ := Prod.mk.inj (hnone.symm.trans hcall)
    exact h
  · obtain ⟨-, rfl⟩ := Prod.mk.inj (hsome.symm.trans hcall)
    exact h.call hw ((Function.update_of_ne (Ne.symm h0) _ _).trans h.null) (fun _ _ _ => Iff.rfl)
      fun _ _ _ => rfl

/-- **A pool goes**, with the buffers out of it. -/
theorem delete (h : Ordered ctx lists s) {E : Exec} {n pool : ℕ}
    (hcall : dmaPoolDelete E n pool s.world = some w) :
    ∃ lists', Ordered ctx lists' ⟨w, s.bufs.filter fun b => b.pool ≠ pool⟩ := by
  by_cases h0 : pool = 0
  · subst h0
    rw [dmaPoolDelete, if_pos rfl] at hcall
    obtain rfl := Option.some.inj hcall
    have hall : (s.bufs.filter fun b => b.pool ≠ 0) = s.bufs := by
      refine List.filter_eq_self.mpr fun b hb => decide_eq_true fun hpool => ?_
      obtain ⟨P, hP⟩ := h.stocked.lists.exists_pool (h.holds hb).1
      rw [hpool] at hP
      exact Option.some_ne_none P (hP.symm.trans h.null)
    exact ⟨lists, hall.symm ▸ h⟩
  · have hP : ∃ P, s.world.pools pool = some P := by
      rw [dmaPoolDelete, if_neg h0] at hcall
      obtain ⟨P, hP, -⟩ := Option.bind_eq_some_iff.mp hcall
      exact ⟨P, hP⟩
    obtain ⟨P, hP⟩ := hP
    obtain ⟨-, hw, hculled⟩ := (delete_spec E h.stocked h0 hP).1 w hcall
    refine ⟨_, h.of_sublist List.filter_sublist hw ?_ (fun a q e => ?_)
      fun i hi _ => hculled.mem i hi⟩
    · have hpools := hculled.pools 0 (Ne.symm h0)
      rw [World.setPool] at hpools
      dsimp only at hpools
      rw [Function.update_of_ne (Ne.symm h0)] at hpools
      exact hpools.trans h.null
    · have hholds := hculled.holds_delete (b := a) (r := q) (f := e) h.stocked
      change Holds _ w a q e ↔ _ at hholds
      rw [hholds, h.owners]
      constructor
      · rintro ⟨⟨b, hb, rfl, rfl, rfl⟩, hne⟩
        exact ⟨b, List.mem_filter.mpr ⟨hb, decide_eq_true hne⟩, rfl, rfl, rfl⟩
      · rintro ⟨b, hb, rfl, rfl, rfl⟩
        obtain ⟨hb, hne⟩ := List.mem_filter.mp hb
        exact ⟨⟨b, hb, rfl, rfl, rfl⟩, of_decide_eq_true hne⟩

/-- **The rest of the system.** -/
theorem outside (h : Ordered ctx lists s) {m : Block} {headers : ℕ → MemHeader}
    (hheaders : ∀ h, (headers h).mhLower = (s.world.headers h).mhLower ∧
      (headers h).mhUpper = (s.world.headers h).mhUpper ∧
      (headers h).out = (s.world.headers h).out)
    (hm : ∀ i, s.world.Out i → m i = s.world.mem i) :
    Ordered ctx lists ⟨{ s.world with mem := m, headers := headers }, s.bufs⟩ := by
  have hA := h.stocked.arenas
  have hfilled : ctx.Filled headers := by
    intro r hr
    obtain ⟨hlow, hhigh, -⟩ := hheaders r.header
    obtain ⟨hstart, hend, hle⟩ := hA.filled r hr
    exact ⟨hstart.trans hlow.symm, hend.trans hhigh.symm, hle⟩
  have hsound : ∀ hd, (headers hd).Sound := by
    intro hd
    obtain ⟨hlow, hhigh, hout⟩ := hheaders hd
    obtain ⟨hwithin, hapart⟩ := hA.headers hd
    refine ⟨fun e he => ?_, hout.symm ▸ hapart⟩
    rw [hlow, hhigh]
    exact hwithin e (hout ▸ he)
  have hw : Arenas ctx { s.world with mem := m, headers := headers } :=
    ⟨hfilled, hA.disjoint, hA.null, hA.sound, hA.source, hsound,
      fun hd e => (hheaders hd).2.2.symm ▸ hA.out hd e, hA.apart⟩
  exact h.call ⟨hw, h.stocked.lists⟩ h.null (fun _ _ _ => Iff.rfl) fun i _ hi => hm i hi

/-! ### What tasks do on their own -/

/-- **A buffer goes on**, and memory changes only in its block. -/
theorem go (h : Ordered ctx lists s) (hb : b ∈ s.bufs) {stage : Stage} {m : Block}
    (hm : ∀ c ∈ s.bufs, c ≠ b → ∀ i, c.block.Has i → m i = s.world.mem i)
    (hbook : m.Kept { b with stage := stage }.book) (hread : { b with stage := stage }.Read) :
    Ordered ctx lists (s.go b stage m) := by
  have hperm := List.perm_cons_erase hb
  have hblocks : ({ b with stage := stage } :: s.bufs.erase b).map Buf.block
      = (b :: s.bufs.erase b).map Buf.block := rfl
  have hmem : ∀ c ∈ s.bufs.erase b, c ∈ s.bufs := fun c hc => List.mem_of_mem_erase hc
  have hne : ∀ c ∈ s.bufs.erase b, c ≠ b := fun c hc => (h.nodup_bufs.mem_erase_iff.mp hc).1
  refine ⟨h.stocked.setMem m, h.null, fun a q e => ?owners, ?nodup, ?request, ?ne_zero,
    ?book, ?read⟩
  case owners =>
    refine (h.owners a q e).trans ⟨?_, ?_⟩
    · rintro ⟨c, hc, rfl, rfl, rfl⟩
      rcases List.mem_cons.mp (hperm.subset hc) with rfl | hc
      · exact ⟨_, List.mem_cons_self, rfl, rfl, rfl⟩
      · exact ⟨c, List.mem_cons_of_mem _ hc, rfl, rfl, rfl⟩
    · rintro ⟨c, hc, rfl, rfl, rfl⟩
      rcases List.mem_cons.mp hc with rfl | hc
      · exact ⟨b, hb, rfl, rfl, rfl⟩
      · exact ⟨c, hmem c hc, rfl, rfl, rfl⟩
  case nodup => exact hblocks ▸ (hperm.map Buf.block).nodup_iff.mp h.nodup
  case request => exact List.forall_mem_cons.mpr ⟨h.request b hb,
    fun c hc => h.request c (hmem c hc)⟩
  case ne_zero => exact List.forall_mem_cons.mpr ⟨h.ne_zero b hb,
    fun c hc => h.ne_zero c (hmem c hc)⟩
  case book =>
    refine List.forall_mem_cons.mpr ⟨hbook, fun c hc => (h.book c (hmem c hc)).congr ?_⟩
    intro e he i hi hi'
    obtain ⟨hlow, hhigh, hin⟩ := (h.placed (hmem c hc)).book_in he
    exact hm c (hmem c hc) (hne c hc) i
      ⟨hlow.trans hi, by change i < c.raw + c.block.size; omega⟩
  case read => exact List.forall_mem_cons.mpr ⟨hread, fun c hc => h.read c (hmem c hc)⟩

/-- A long written in a buffer's block leaves the others alone. -/
theorem off_block (h : Ordered ctx lists s) (hb : b ∈ s.bufs) {a v : ℕ} (hlow : b.raw ≤ a)
    (hhigh : a + 4 ≤ b.raw + b.block.size) :
    ∀ c ∈ s.bufs, c ≠ b → ∀ i, c.block.Has i → s.world.mem.setLong a v i = s.world.mem i := by
  intro c hc hne i hi
  have hnot := (h.apart hc hb hne).not_has hi
  refine Block.setLong_of_off ?_
  by_contra hin
  exact hnot ⟨by change b.raw ≤ i; omega, by change i < b.raw + b.block.size; omega⟩

/-- **The back pointer** is written. -/
theorem link (h : Ordered ctx lists s) (hb : b ∈ s.bufs) :
    Ordered ctx lists (s.go b .linked (s.world.mem.setLong (before b.ptr) b.raw)) := by
  have hplaced := h.placed hb
  have hroom := hplaced.room
  have hfits := hplaced.fits
  have hbelow := hplaced.below
  have hraw : b.raw < 2 ^ 32 := by
    rw [DMA_MEM_2GB] at hbelow
    omega
  refine h.go hb (h.off_block hb ?_ ?_) (fun e he => ?_) trivial
  · rw [hplaced.back]
    omega
  · rw [hplaced.back]
    omega
  · obtain rfl := List.mem_singleton.mp he
    exact Block.long_setLong _ _ hraw

/-- **The size** is written, and the buffer is the client's. -/
theorem size (h : Ordered ctx lists s) (hb : b ∈ s.bufs) (hstage : b.stage = .linked) :
    Ordered ctx lists (s.go b .live (s.world.mem.setLong b.raw b.total)) := by
  have hplaced := h.placed hb
  have hroom := hplaced.room
  have hfits := hplaced.fits
  have hbook := h.book b hb
  rw [Buf.book, hstage] at hbook
  have htotal : b.total < 2 ^ 32 := Nat.mod_lt _ (Nat.two_pow_pos 32)
  have hoff : Book.Off [(before b.ptr, b.raw)] b.raw 4 := by
    intro e he
    obtain rfl := List.mem_singleton.mp he
    refine Or.inr ?_
    rw [hplaced.back]
    omega
  refine h.go hb (h.off_block hb le_rfl (by omega)) ?_ trivial
  have hentered := hbook.enter hoff htotal
  obtain ⟨hsize, hback⟩ := Block.kept_cons.mp hentered
  exact Block.kept_cons.mpr ⟨(Block.kept_cons.mp hback).1, Block.kept_cons.mpr ⟨hsize, fun _ he =>
    absurd he List.not_mem_nil⟩⟩

/-- A live buffer's longs. -/
theorem book_of_live (h : Ordered ctx lists s) (hb : b ∈ s.bufs)
    (hbook : b.book = [(before b.ptr, b.raw), (b.raw, b.total)]) :
    s.world.mem.long (before b.ptr) = b.raw ∧ s.world.mem.long b.raw = b.total := by
  have hkept := h.book b hb
  rw [hbook] at hkept
  obtain ⟨hback, hsize⟩ := Block.kept_cons.mp hkept
  exact ⟨hback, (Block.kept_cons.mp hsize).1⟩

/-- **The back pointer** is read. -/
theorem find (h : Ordered ctx lists s) (hb : b ∈ s.bufs) (hstage : b.stage = .live) :
    Ordered ctx lists (s.go b (.found (s.world.mem.long (before b.ptr))) s.world.mem) := by
  have hbook : b.book = [(before b.ptr, b.raw), (b.raw, b.total)] := by rw [Buf.book, hstage]
  refine h.go hb (fun _ _ _ _ _ => rfl) ?_ (h.book_of_live hb hbook).1
  have hkept := h.book b hb
  rwa [hbook] at hkept

/-- **The size** is read. -/
theorem readSize (h : Ordered ctx lists s) (hb : b ∈ s.bufs) {raw : ℕ}
    (hstage : b.stage = .found raw) :
    Ordered ctx lists (s.go b (.sized raw (s.world.mem.long raw)) s.world.mem) := by
  have hbook : b.book = [(before b.ptr, b.raw), (b.raw, b.total)] := by rw [Buf.book, hstage]
  have hread := h.read b hb
  rw [Buf.Read, hstage] at hread
  subst hread
  refine h.go hb (fun _ _ _ _ _ => rfl) ?_ ⟨rfl, (h.book_of_live hb hbook).2⟩
  have hkept := h.book b hb
  rwa [hbook] at hkept

/-- **A client writes** in its buffer. -/
theorem write (h : Ordered ctx lists s) (hb : b ∈ s.bufs) {v : UInt8}
    (hi : b.ptr ≤ i ∧ i < b.ptr + b.size) :
    Ordered ctx lists ⟨s.world.setMem (Function.update s.world.mem i v), s.bufs⟩ := by
  have hplaced := h.placed hb
  have hroom := hplaced.room
  have hfits := hplaced.fits
  have hholds := hplaced.holds
  have hin : b.block.Has i :=
    ⟨by change b.raw ≤ i; omega, by change i < b.raw + b.block.size; omega⟩
  refine ⟨h.stocked.setMem _, h.null, h.owners, h.nodup, h.request, h.ne_zero,
    fun c hc => ?_, h.read⟩
  refine (h.book c hc).congr fun e he j hj hj' => Function.update_of_ne ?_ _ _
  rintro rfl
  obtain ⟨hlow, hbefore, hend⟩ := (h.placed hc).book_in he
  by_cases hcb : c = b
  · subst hcb
    omega
  · exact (h.apart hc hb hcb).not_has
      ⟨by change c.raw ≤ j; omega, by change j < c.raw + c.block.size; omega⟩ hin

/-! ### Any run -/

/-- **One step keeps the buffers in order.** -/
theorem step (h : Ordered ctx lists s) (hstep : Step ctx s s') :
    ∃ lists', Ordered ctx lists' s' := by
  cases hstep with
  | alloc hreq hcall hgave => exact h.alloc hreq hcall hgave
  | failed _ hcall =>
    obtain ⟨lists', hw, hholds, hm, hnull⟩ := region_alloc_none h.stocked hcall
    exact ⟨lists', h.call hw (hnull h.null) hholds fun i _ hi => hm i hi⟩
  | starved _ hcall =>
    rename_i w E pool align size q _
    obtain ⟨hd, hlt⟩ := block_size_spec (dmaTotal (dmaAlign align) size)
    have hP : ∃ P, s.world.pools pool = some P := by
      obtain ⟨P, hP, -⟩ := Option.bind_eq_some_iff.mp hcall
      exact ⟨P, hP⟩
    obtain ⟨P, hP⟩ := hP
    rcases grow_cases E h.stocked hP hd hlt with ⟨-, w₁, hnone, -⟩ | ⟨-, q₁, p, w₁, hsome, hgrew, -⟩
    · cases hnone.symm.trans hcall
    · obtain ⟨-, rfl⟩ := Prod.mk.inj (Option.some.inj (hsome.symm.trans hcall))
      obtain ⟨lists', hw, hholds, hm, hnull⟩ := hgrew.spec h.stocked
      exact ⟨lists', h.call hw (hnull h.null) hholds fun i _ hi => hm i hi⟩
  | link hb hstage => exact ⟨lists, h.link hb⟩
  | size hb hstage => exact ⟨lists, h.size hb hstage⟩
  | write v hb hstage hi => exact ⟨lists, h.write hb hi⟩
  | find hb hstage => exact ⟨lists, h.find hb hstage⟩
  | read hb hstage => exact ⟨lists, h.readSize hb hstage⟩
  | free hb hstage hcall => exact ⟨lists, h.free hb hstage hcall⟩
  | shrink hcall => exact h.shrink hcall
  | create hcall => exact ⟨lists, h.create hcall⟩
  | delete hcall _ => exact h.delete hcall
  | outside hheaders hm => exact ⟨lists, h.outside hheaders hm⟩

end Ordered

variable {ctx : DmaMemCtx} {s s' : State}

theorem Start.ordered (h : Start s) (hf : ctx.Filled s.world.headers) (hd : ctx.Disjoint) :
    Ordered ctx (fun _ => []) s where
  stocked := Stocked.start hf hd h.puds h.out fun a P hP => by
    rw [h.pools a] at hP
    cases hP
  null := h.pools 0
  owners a q e := by
    rw [h.bufs]
    exact iff_of_false (fun hholds => absurd hholds.1 List.not_mem_nil)
      fun ⟨_, hb, _⟩ => absurd hb List.not_mem_nil
  nodup := by
    rw [h.bufs]
    exact List.nodup_nil
  request b hb := absurd (h.bufs ▸ hb) List.not_mem_nil
  ne_zero b hb := absurd (h.bufs ▸ hb) List.not_mem_nil
  book b hb := absurd (h.bufs ▸ hb) List.not_mem_nil
  read b hb := absurd (h.bufs ▸ hb) List.not_mem_nil

/-- **Every run keeps the buffers in order.** -/
theorem ordered_of_runs (h : Start s) (hf : ctx.Filled s.world.headers) (hd : ctx.Disjoint)
    (hrun : Runs ctx s s') : ∃ lists, Ordered ctx lists s' := by
  induction hrun with
  | refl => exact ⟨_, h.ordered hf hd⟩
  | tail _ hstep ih =>
    obtain ⟨lists, hordered⟩ := ih
    exact hordered.step hstep

/-! ### Whole calls -/

/-- The newest buffer goes on. -/
theorem go_head (w : World) (b : Buf) (bufs : List Buf) (stage : Stage) (m : Block) :
    State.go ⟨w, b :: bufs⟩ b stage m = ⟨w.setMem m, { b with stage := stage } :: bufs⟩ := by
  rw [State.go, List.erase_cons_head]

theorem link_head (ctx : DmaMemCtx) (w : World) (b : Buf) (bufs : List Buf)
    (hstage : b.stage = .backed) : Step ctx ⟨w, b :: bufs⟩
      ⟨w.setMem (w.mem.setLong (before b.ptr) b.raw), { b with stage := .linked } :: bufs⟩ := by
  rw [← go_head]
  exact .link List.mem_cons_self hstage

theorem size_head (ctx : DmaMemCtx) (w : World) (b : Buf) (bufs : List Buf)
    (hstage : b.stage = .linked) : Step ctx ⟨w, b :: bufs⟩
      ⟨w.setMem (w.mem.setLong b.raw b.total), { b with stage := .live } :: bufs⟩ := by
  rw [← go_head]
  exact .size List.mem_cons_self hstage

theorem read_head (ctx : DmaMemCtx) (w : World) (b : Buf) (bufs : List Buf) {raw : ℕ}
    (hstage : b.stage = .found raw) : Step ctx ⟨w, b :: bufs⟩
      ⟨w.setMem w.mem, { b with stage := .sized raw (w.mem.long raw) } :: bufs⟩ := by
  rw [← go_head]
  exact .read List.mem_cons_self hstage

theorem free_head {w w' : World} {E : Exec} {n raw total : ℕ} (bufs : List Buf)
    (hstage : b.stage = .sized raw total)
    (hcall : dmaPoolRegionFree E n b.pool raw total w = some w') :
    Step ctx ⟨w, b :: bufs⟩ ⟨w', bufs⟩ := by
  have hstep : Step ctx ⟨w, b :: bufs⟩ ⟨w', (b :: bufs).erase b⟩ :=
    .free List.mem_cons_self hstage hcall
  rwa [List.erase_cons_head] at hstep

/-- **A `dma_alloc` is a run**: a new buffer, or none. -/
theorem alloc_runs {lists : ℕ → List ℕ} {w : World} {E : Exec} {n pool align size : ℕ}
    {res : Option ℕ} (h : Ordered ctx lists s) (hreq : Request align size)
    (hcall : dmaAlloc E ctx n pool align size s.world = some (res, w)) :
    (res = none ∧ Runs ctx s ⟨w, s.bufs⟩) ∨
    ∃ b : Buf, res = some b.ptr ∧ b.pool = pool ∧ b.align = align ∧ b.size = size ∧
      b.stage = .live ∧ Runs ctx s ⟨w, b :: s.bufs⟩ := by
  cases res with
  | none => exact Or.inl ⟨rfl, .single (.failed hreq (region_alloc_of_alloc_none hcall))⟩
  | some p =>
    obtain ⟨raw, w₁, hregion, rfl, rfl⟩ := region_alloc_of_alloc_some hcall
    obtain ⟨lists', q, hw, hholds, -⟩ := region_alloc_some h.stocked hregion
    obtain ⟨-, hgave⟩ := (hholds pool q _).mpr (Or.inr ⟨rfl, rfl, rfl⟩)
    have halloc := Step.alloc hreq hregion hgave
    have hlink := link_head ctx w₁ ⟨pool, align, size, q, raw, .backed⟩ s.bufs rfl
    exact Or.inr ⟨⟨pool, align, size, q, raw, .live⟩, rfl, rfl, rfl, rfl, rfl,
      ((Relation.ReflTransGen.single halloc).tail hlink).tail
        (size_head ctx _ ⟨pool, align, size, q, raw, .linked⟩ s.bufs rfl)⟩

/-- A client's zeros, one byte after the other. -/
theorem zero_runs (hb : b ∈ s.bufs) (hstage : b.stage = .live) {k : ℕ} (hk : k ≤ b.size) :
    Runs ctx s ⟨s.world.setMem (zero b.ptr k s.world.mem), s.bufs⟩ := by
  induction k with
  | zero =>
    have hsame : zero b.ptr 0 s.world.mem = s.world.mem := by
      funext i
      rw [zero, if_neg fun hi => absurd hi.2 (Nat.not_lt.mpr hi.1)]
    rw [hsame]
    exact .refl
  | succ k ih =>
    have hnext : zero b.ptr (k + 1) s.world.mem
        = Function.update (zero b.ptr k s.world.mem) (b.ptr + k) 0 := by
      funext i
      rw [Function.update_apply, zero, zero]
      split_ifs <;> first | rfl | omega
    rw [hnext]
    exact (ih (Nat.le_of_succ_le hk)).tail (.write 0 hb hstage ⟨Nat.le_add_right _ _, by omega⟩)

/-- **A `dma_zalloc` is a run**, to zeros in a new buffer, or to none. -/
theorem zalloc_runs {lists : ℕ → List ℕ} {w : World} {E : Exec} {n pool align size : ℕ}
    {res : Option ℕ} (h : Ordered ctx lists s) (hreq : Request align size)
    (hcall : dmaZalloc E ctx n pool align size s.world = some (res, w)) :
    (res = none ∧ Runs ctx s ⟨w, s.bufs⟩) ∨
    ∃ b : Buf, res = some b.ptr ∧ b.pool = pool ∧ b.align = align ∧ b.size = size ∧
      b.stage = .live ∧ Runs ctx s ⟨w, b :: s.bufs⟩ := by
  obtain ⟨⟨res₁, w₁⟩, halloc, heq⟩ := Option.map_eq_some_iff.mp hcall
  rcases alloc_runs h hreq halloc with ⟨rfl, hrun⟩ | ⟨b, rfl, hpool, halign, rfl, hstage, hrun⟩
  · obtain ⟨rfl, rfl⟩ := Prod.mk.inj heq
    exact Or.inl ⟨rfl, hrun⟩
  · obtain ⟨rfl, rfl⟩ := Prod.mk.inj heq
    exact Or.inr ⟨b, rfl, hpool, halign, rfl, hstage,
      hrun.trans (zero_runs List.mem_cons_self hstage le_rfl)⟩

/-- **A `dma_free` is a run**: the buffer is gone. -/
theorem free_runs {lists : ℕ → List ℕ} {w : World} {E : Exec} {n : ℕ} (h : Ordered ctx lists s)
    (hb : b ∈ s.bufs) (hstage : b.stage = .live)
    (hcall : dmaFree E n b.pool b.ptr s.world = some w) : Runs ctx s ⟨w, s.bufs.erase b⟩ := by
  have hroom := (h.placed hb).room
  rw [dmaFree, if_neg (by omega)] at hcall
  dsimp only at hcall
  have hfind : Step ctx s (s.go b (.found (s.world.mem.long (before b.ptr))) s.world.mem) :=
    .find hb hstage
  generalize s.world.mem.long (before b.ptr) = raw at hcall hfind
  have hread : Step ctx (s.go b (.found raw) s.world.mem)
      ⟨s.world, { b with stage := .sized raw (s.world.mem.long raw) } :: s.bufs.erase b⟩ :=
    read_head ctx s.world { b with stage := .found raw } (s.bufs.erase b) rfl
  generalize s.world.mem.long raw = total at hcall hread
  have hfree : Step ctx ⟨s.world, { b with stage := .sized raw total } :: s.bufs.erase b⟩
      ⟨w, s.bufs.erase b⟩ := free_head (s.bufs.erase b) rfl hcall
  exact ((Relation.ReflTransGen.single hfind).tail hread).tail hfree

/-! ## One GiB of Pi DRAM -/

/-- The one GiB before any pool. -/
def oneGiBWorld : World where
  mem _ := 0
  headers := oneGiBHeaders
  puds _ := none
  pools _ := none

theorem start_oneGiB : Start ⟨oneGiBWorld, []⟩ := by
  refine ⟨fun _ => rfl, fun _ => rfl, fun h => ?_, rfl⟩
  match h with
  | 0 | 1 | _ + 2 => rfl

/-- A pool, and two buffers out of it, of 100 bytes and of 200. -/
theorem oneGiB_runs : ∃ w b c, Runs oneGiBCtx ⟨oneGiBWorld, []⟩ ⟨w, [c, b]⟩ ∧
    (b.align = 64 ∧ b.size = 100 ∧ b.ptr = 0x08000040 ∧ b.stage = .live) ∧
    (c.align = 64 ∧ c.size = 200 ∧ c.ptr = 0x08000100 ∧ c.stage = .live) := by
  have hcall : dmaPoolCreate lowestExec oneGiBCtx oneGiBWorld
      = ((dmaPoolCreate lowestExec oneGiBCtx oneGiBWorld).1,
        (dmaPoolCreate lowestExec oneGiBCtx oneGiBWorld).2) := rfl
  have hcreate : Runs oneGiBCtx ⟨oneGiBWorld, []⟩
      ⟨(dmaPoolCreate lowestExec oneGiBCtx oneGiBWorld).2, []⟩ := .single (.create hcall)
  obtain ⟨lists, hordered⟩ := ordered_of_runs start_oneGiB (init_spec oneGiB_init)
    (List.pairwise_singleton _ _) hcreate
  obtain ⟨w₁, hfirst⟩ := exists_world (by decide :
    (dmaAlloc lowestExec oneGiBCtx 1 0x00300000 64 100
      (dmaPoolCreate lowestExec oneGiBCtx oneGiBWorld).2).map Prod.fst = some (some 0x08000040))
  have hboth : ((dmaAlloc lowestExec oneGiBCtx 1 0x00300000 64 100
      (dmaPoolCreate lowestExec oneGiBCtx oneGiBWorld).2).bind fun r =>
        dmaAlloc lowestExec oneGiBCtx 2 0x00300000 64 200 r.2).map Prod.fst
      = some (some 0x08000100) := by decide
  rw [hfirst, Option.bind_some] at hboth
  obtain ⟨w₂, hsecond⟩ := exists_world hboth
  rcases alloc_runs hordered ⟨⟨6, by decide, rfl⟩, by decide⟩ hfirst with
    ⟨hnone, -⟩ | ⟨b, hb, -, hbalign, hbsize, hblive, hrun₁⟩
  · cases hnone
  obtain ⟨lists₁, hordered₁⟩ := ordered_of_runs start_oneGiB (init_spec oneGiB_init)
    (List.pairwise_singleton _ _) (hcreate.trans hrun₁)
  rcases alloc_runs hordered₁ ⟨⟨6, by decide, rfl⟩, by decide⟩ hsecond with
    ⟨hnone, -⟩ | ⟨c, hc, -, hcalign, hcsize, hclive, hrun₂⟩
  · cases hnone
  exact ⟨w₂, b, c, (hcreate.trans hrun₁).trans hrun₂,
    ⟨hbalign, hbsize, (Option.some.inj hb).symm, hblive⟩,
    ⟨hcalign, hcsize, (Option.some.inj hc).symm, hclive⟩⟩

end Dma
