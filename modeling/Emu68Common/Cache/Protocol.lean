import Emu68Common.Cache.Ops
import Emu68Common.Machinery.History

/-!
# Cache/Protocol — buffers that a device reads and writes behind the cache's back

A buffer is handed to a device between `cache_pre_dma` and, where the device wrote in it,
`cache_post_dma`; each of them has been done with when a barrier after it has completed, be it its
own or one for a whole batch (`Phase`).  The ledger says what a memory without a cache would hold
(`Ledger`), and what a driver may do next (`Ledger.Allowed`).

    cpu ──pre──▸ asked ──barrier──▸ ready ──arm──▸ armed ──complete──▸ done ──post──▸ dropping
     ▴                                              │ toDevice                          │ barrier
     └──────────────────────────────────────────────┴───────────────────────────────────┘
-/

namespace Cache

open Machinery Dma

/-- **A range of addresses.** -/
structure Range where
  addr : ℕ
  len : ℕ
  fits : addr + len ≤ 2 ^ 32

/-- The lines of a buffer. -/
def Range.lines (r : Range) : List ℕ := Cache.lines r.addr r.len

/-- An address in a buffer. -/
def Range.Has (r : Range) (a : ℕ) : Prop := r.addr ≤ a ∧ a < r.addr + r.len

theorem Range.Has.line {r : Range} {a : ℕ} (h : r.Has a) : a / DMA_ALIGN_MIN ∈ r.lines :=
  mem_lines.mpr ⟨a, h.1, h.2, rfl⟩

/-- **Where a buffer is** on its way to a device and back. -/
inductive Phase where
  | cpu
  | asked (d : Direction)
  | ready (d : Direction)
  | armed (d : Direction)
  | done
  | dropping
  deriving DecidableEq, Repr

namespace Phase

/-- What a barrier settles. -/
def synced : Phase → Phase
  | asked d => ready d
  | dropping => cpu
  | p => p

/-- The device has it. -/
def arm : Phase → Phase
  | ready d => armed d
  | p => p

/-- The device is through with it. -/
def complete : Phase → Phase
  | armed .toDevice => cpu
  | armed _ => done
  | p => p

/-- The processor may read there: nobody else writes. -/
def Readable (p : Phase) : Prop :=
  p = cpu ∨ p = asked .toDevice ∨ p = ready .toDevice ∨ p = armed .toDevice

end Phase

/-- **What happens**: loads and stores anywhere, the calls of a driver for its buffers, and what a
device does to them. -/
inductive Event (ι : Type*) where
  | load (a : ℕ) (v : UInt8)
  | store (a : ℕ) (v : UInt8)
  | pre (i : ι) (flags : ℕ)
  | post (i : ι) (flags : ℕ)
  | barrier
  | synced
  | arm (i : ι)
  | fetch (i : ι) (a : ℕ) (v : UInt8)
  | land (i : ι) (a : ℕ) (v : UInt8)
  | complete (i : ι)

/-- **The ledger**: where every buffer is, and what every byte is, as far as anything is promised of
it. -/
structure Ledger (ι : Type*) where
  phase : ι → Phase
  val : ℕ → Option UInt8

variable {ι : Type*} (buf : ι → Range)

namespace Ledger

/-- **What a driver may do**: the processor leaves a buffer alone while a device may have it, and a
device does to it what it was armed for. -/
def Allowed (f : Ledger ι) : Event ι → Prop
  | .load a _ => ∀ i, a / DMA_ALIGN_MIN ∈ (buf i).lines → (f.phase i).Readable
  | .store a _ => ∀ i, a / DMA_ALIGN_MIN ∈ (buf i).lines → f.phase i = .cpu
  | .pre i _ => f.phase i = .cpu
  | .post i _ => f.phase i = .done
  | .barrier => True
  | .synced => True
  | .arm i => ∃ d, f.phase i = .ready d
  | .fetch i a _ => (∃ d ≠ .fromDevice, f.phase i = .armed d) ∧ (buf i).Has a
  | .land i a _ => (∃ d ≠ .toDevice, f.phase i = .armed d) ∧ (buf i).Has a
  | .complete i => ∃ d, f.phase i = .armed d

variable [DecidableEq ι]

/-- **What a memory without a cache makes of it.**  Before a transfer from the device nothing is
promised of the buffer's bytes any more. -/
def after (f : Ledger ι) : Event ι → Ledger ι
  | .store a v => { f with val := Function.update f.val a (some v) }
  | .land _ a v => { f with val := Function.update f.val a (some v) }
  | .pre i flags =>
    { phase := Function.update f.phase i (.asked (direction flags))
      val := fun a =>
        if direction flags = .fromDevice ∧ a / DMA_ALIGN_MIN ∈ (buf i).lines then none
        else f.val a }
  | .post i _ => { f with phase := Function.update f.phase i .dropping }
  | .synced => { f with phase := fun i => (f.phase i).synced }
  | .arm i => { f with phase := Function.update f.phase i (f.phase i).arm }
  | .complete i => { f with phase := Function.update f.phase i (f.phase i).complete }
  | _ => f

/-- **A byte that is read is the byte that was written**, where anything is promised of it. -/
def Right (f : Ledger ι) : Event ι → Prop
  | .load a v => ∀ x, f.val a = some x → v = x
  | .fetch _ a v => ∀ x, f.val a = some x → v = x
  | _ => True

end Ledger

/-- What an event is to the machine: nothing where only the driver and the device are concerned. -/
def Event.act : Event ι → Option (Act ℕ ℕ UInt8)
  | .load a v => some (.loads (a / DMA_ALIGN_MIN) (a % DMA_ALIGN_MIN) v)
  | .store a v => some (.stores (a / DMA_ALIGN_MIN) (a % DMA_ALIGN_MIN) v)
  | .pre i flags => (cachePreDmaImpl (buf i).addr (buf i).len flags).act
  | .post i flags => (cachePostDmaImpl (buf i).addr (buf i).len flags).act
  -- `emu68_barrier`: the NOP
  | .barrier => some .waits
  | .synced => some .goesOn
  | .fetch _ a v => some (.fetches (a / DMA_ALIGN_MIN) (a % DMA_ALIGN_MIN) v)
  | .land _ a v => some (.lands (a / DMA_ALIGN_MIN) (a % DMA_ALIGN_MIN) v)
  | .arm _ => none
  | .complete _ => none

/-- The machine, and the ledger beside it. -/
structure Sys (ι : Type*) where
  cpu : Cpu ℕ ℕ UInt8
  ledger : Ledger ι

variable [DecidableEq ι]

/-- **A step of the system**: the machine's own, or one of an event that the driver may do. -/
inductive Step : Sys ι → Option (Event ι) → Sys ι → Prop where
  | own {s : Sys ι} {c : Cpu ℕ ℕ UInt8} (h : s.cpu.Step none c) : Step s none ⟨c, s.ledger⟩
  | act {s : Sys ι} {c : Cpu ℕ ℕ UInt8} {e : Event ι} {a : Act ℕ ℕ UInt8}
    (hok : s.ledger.Allowed buf e) (ha : e.act buf = some a) (h : s.cpu.Step (some a) c) :
    Step s (some e) ⟨c, s.ledger.after buf e⟩
  | note {s : Sys ι} {e : Event ι} (hok : s.ledger.Allowed buf e) (ha : e.act buf = none) :
    Step s (some e) ⟨s.cpu, s.ledger.after buf e⟩

/-- **Where it starts**: all buffers are the processor's, no upkeep is due, clean lines say what
memory says, and what is promised of the bytes is what the processor sees. -/
structure Start (s : Sys ι) : Prop where
  cpu : ∀ i, s.ledger.phase i = .cpu
  due : s.cpu.due = []
  settled : ∀ l, (s.cpu.lines l).Settled
  known : ∀ a x, s.ledger.val a = some x →
    (s.cpu.lines (a / DMA_ALIGN_MIN)).see (a % DMA_ALIGN_MIN) = x

/-- **A run**, with its events, the newest first. -/
abbrev Run : List (Option (Event ι)) → Sys ι → Prop := History Start (Step buf)

/-- **Every buffer has its lines to itself.** -/
def Apart : Prop := ∀ i j l, l ∈ (buf i).lines → l ∈ (buf j).lines → i = j

end Cache
