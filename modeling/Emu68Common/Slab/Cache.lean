import Emu68Common.Dma.Buffer
import Mathlib.Logic.Relation

/-!
# Slab/Cache — the slab allocator

A cache cuts slabs, blocks of its pools, into objects of one size, and keeps the free ones in a list
threaded through the objects themselves.  Its pools (`Pools`) hand out blocks that meet none they
have handed out before, or nothing, and do as they like with the memory that is not out.

    slab_alloc, slab_zalloc, slab_grow      an object, from the list or a new slab
    slab_free                               an object back to the list
    slab_cache_destroy                      every slab back to its pool
-/

namespace Slab

open Machinery Dma

/-! ## The pools -/

/-- The two pools of a cache. -/
inductive Pool where
  | metaPool
  | dmaPool
  deriving DecidableEq, Repr

/-- **A block handed out**: by which pool, where, and how long. -/
structure Grant where
  pool : Pool
  raw : ℕ
  size : ℕ
  deriving DecidableEq, Repr

/-- The memory, and the blocks handed out and not yet given back. -/
structure World where
  mem : Block
  held : List Grant

/-- Whether a byte is in one of these blocks. -/
def Holds (held : List Grant) (i : ℕ) : Prop := ∃ g ∈ held, g.raw ≤ i ∧ i < g.raw + g.size

/-- The memory is the same in these blocks. -/
def Agree (held : List Grant) (m m' : Block) : Prop := ∀ i, Holds held i → m' i = m i

/-- A block that meets none of these, in the address space and not at NULL. -/
def Fresh (held : List Grant) (raw n : ℕ) : Prop :=
  0 < raw ∧ raw + n ≤ 2 ^ 32 ∧ ∀ g ∈ held, Apart g.raw g.size raw n

/-- **The pools**: what they answer to a request, and what the memory is after it and after a block
is given back.  They keep their own books as they like, but not in the blocks that are out. -/
structure Pools where
  ask : Pool → ℕ → World → Option ℕ
  asked : Pool → ℕ → World → Block
  given : Grant → World → Block
  fresh : ∀ p n w raw, ask p n w = some raw → Fresh w.held raw n
  asked_agree : ∀ p n w, Agree w.held w.mem (asked p n w)
  given_agree : ∀ g w, Agree (w.held.erase g) w.mem (given g w)

namespace Pools

variable (P : Pools)

/-- `AllocPooled`, `dma_pool_region_alloc`. -/
def take (p : Pool) (n : ℕ) (w : World) : Option ℕ × World :=
  (P.ask p n w,
    ⟨P.asked p n w, ((P.ask p n w).map fun raw => (⟨p, raw, n⟩ : Grant)).toList ++ w.held⟩)

/-- `FreePooled`, `dma_pool_region_free`, of a block that is out. -/
def give (g : Grant) (w : World) : Option World :=
  if g ∈ w.held then some ⟨P.given g w, w.held.erase g⟩ else none

/-- `pool_alloc(pool, size)`: the size goes before the block. -/
def poolAlloc (size : ℕ) (w : World) : Option ℕ × World :=
  let n := u32 (size + 4)
  match P.take .metaPool n w with
  | (none, w) => (none, w)
  | (some raw, w) => (some (raw + 4), { w with mem := w.mem.setLong raw n })

/-- `pool_free(pool, ptr)`. -/
def poolFree (ptr : ℕ) (w : World) : Option World :=
  if ptr = 0 then some w else P.give ⟨.metaPool, ptr - 4, w.mem.long (ptr - 4)⟩ w

/-- `dma_alloc(pool, align, size)`. -/
def dmaAlloc (align size : ℕ) (w : World) : Option ℕ × World :=
  let align := dmaAlign align
  let total := dmaTotal align size
  match P.take .dmaPool total w with
  | (none, w) => (none, w)
  | (some raw, w) =>
    let aligned := dmaAligned align raw
    (some aligned, { w with mem := (w.mem.setLong (aligned - 4) raw).setLong raw total })

/-- `dma_free(pool, ptr)`. -/
def dmaFree (ptr : ℕ) (w : World) : Option World :=
  if ptr = 0 then some w
  else
    let raw := w.mem.long (ptr - 4)
    P.give ⟨.dmaPool, raw, w.mem.long raw⟩ w

end Pools

/-! ## The cache -/

/-- What a cache is set up with and keeps. -/
structure Geometry where
  dmaPool : Bool
  objSize : ℕ
  objAlign : ℕ
  slabCapacity : ℕ
  deriving DecidableEq, Repr

/-- **A cache.**  Its nodes are in the memory: the next node, and the slab's data. -/
structure Cache extends Geometry where
  freeList : ℕ
  slabs : ℕ
  deriving DecidableEq, Repr

def SLAB_DEFAULT_SIZE : ℕ := 262144

/-- `slab_cache_init`. -/
def slabCacheInit (dmaPool : Bool) (objSize objAlign slabCapacity : ℕ) : Cache :=
  let minAlign := if dmaPool then DMA_ALIGN_MIN else 4
  let objAlign := if objAlign < minAlign then minAlign else objAlign
  let objSize := alignUp objSize objAlign
  let slabCapacity :=
    if slabCapacity = 0 then
      if SLAB_DEFAULT_SIZE / objSize < 4 then 4 else SLAB_DEFAULT_SIZE / objSize
    else slabCapacity
  ⟨⟨dmaPool, objSize, objAlign, slabCapacity⟩, 0, 0⟩

/-- The loop of `slab_grow`: so many slots linked to the one behind them, and the last to the list
there was. -/
def thread (sz freeList : ℕ) : ℕ → ℕ → Block → Block
  | 0, slot, m => m.setLong slot freeList
  | i + 1, slot, m => thread sz freeList i (slot + sz) (m.setLong slot (slot + sz))

variable (P : Pools)

/-- **`slab_grow`**: the object it returns, if there is one; nothing at all, if it gives back what
is not out. -/
def slabGrow (c : Cache) (w : World) : Option (Option ℕ × Cache × World) :=
  match P.poolAlloc 8 w with
  | (none, w) => some (none, c, w)
  | (some node, w) =>
    let dataSize := u32 (c.objSize * c.slabCapacity)
    match if c.dmaPool then P.dmaAlloc c.objAlign dataSize w else P.poolAlloc dataSize w with
    | (none, w) => (P.poolFree node w).map fun w => (none, c, w)
    | (some data, w) =>
      let m := (w.mem.setLong (node + 4) data).setLong node c.slabs
      let m := thread c.objSize c.freeList (c.slabCapacity - 1) data m
      some (some data, { c with slabs := node, freeList := m.long data }, { w with mem := m })

/-- `slab_alloc`. -/
def slabAlloc (c : Cache) (w : World) : Option (Option ℕ × Cache × World) :=
  if c.freeList ≠ 0 then
    some (some c.freeList, { c with freeList := w.mem.long c.freeList }, w)
  else slabGrow P c w

/-- `slab_free`. -/
def slabFree (ptr : ℕ) (c : Cache) (w : World) : Cache × World :=
  ({ c with freeList := ptr }, { w with mem := w.mem.setLong ptr c.freeList })

/-- `memset(ptr, 0, n)`. -/
def zero (ptr n : ℕ) (m : Block) : Block := fun i => if ptr ≤ i ∧ i < ptr + n then 0 else m i

/-- `slab_zalloc`. -/
def slabZalloc (c : Cache) (w : World) : Option (Option ℕ × Cache × World) :=
  (slabAlloc P c w).map fun
    | (none, c, w) => (none, c, w)
    | (some ptr, c, w) => (some ptr, c, { w with mem := zero ptr c.objSize w.mem })

/-- The loop of `slab_cache_destroy`, over so many nodes at most. -/
def destroyFrom (dmaPool : Bool) : ℕ → ℕ → World → Option World
  | 0, _, _ => none
  | n + 1, node, w =>
    if node = 0 then some w
    else
      let next := w.mem.long node
      let data := w.mem.long (node + 4)
      (if dmaPool then P.dmaFree data w else P.poolFree data w).bind fun w =>
        (P.poolFree node w).bind (destroyFrom dmaPool n next)

/-- **`slab_cache_destroy`.** -/
def slabCacheDestroy (n : ℕ) (c : Cache) (w : World) : Option (Cache × World) :=
  (destroyFrom P c.dmaPool n c.slabs w).map fun w => ({ c with freeList := 0, slabs := 0 }, w)

/-! ## Runs -/

/-- A cache, the memory, and the objects its clients have. -/
structure State where
  cache : Cache
  world : World
  live : List ℕ

/-- Whether a byte is in an object of a client. -/
def State.Client (s : State) (i : ℕ) : Prop :=
  ∃ p ∈ s.live, p ≤ i ∧ i < p + s.cache.objSize

/-- **One step**: a call, with whatever the pools answer, or a write of a client inside its objects
or of anyone outside the blocks the pools have handed out. -/
inductive Step : State → State → Prop where
  | alloc (P : Pools) {s : State} {r : Option ℕ} {c : Cache} {w : World}
    (h : slabAlloc P s.cache s.world = some (r, c, w)) : Step s ⟨c, w, r.toList ++ s.live⟩
  | zalloc (P : Pools) {s : State} {r : Option ℕ} {c : Cache} {w : World}
    (h : slabZalloc P s.cache s.world = some (r, c, w)) : Step s ⟨c, w, r.toList ++ s.live⟩
  | grow (P : Pools) {s : State} {r : Option ℕ} {c : Cache} {w : World}
    (h : slabGrow P s.cache s.world = some (r, c, w)) : Step s ⟨c, w, r.toList ++ s.live⟩
  | free {s : State} {p : ℕ} (hp : p ∈ s.live) :
    Step s ⟨(slabFree p s.cache s.world).1, (slabFree p s.cache s.world).2, s.live.erase p⟩
  | write {s : State} (m : Block)
    (h : ∀ i, Holds s.world.held i → ¬s.Client i → m i = s.world.mem i) :
    Step s ⟨s.cache, { s.world with mem := m }, s.live⟩

end Slab
