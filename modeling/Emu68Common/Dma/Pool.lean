import Emu68Common.Dma.Regions
import Mathlib.Logic.Function.Basic

/-!
# Dma/Pool — the region pool

A pool grabs arenas from the headers of the DMA regions and puts each under a header of its own, in
a puddle; the puddles of a pool are linked.  A request is served first fit, from the puddles and
then from a new one.  Structures stand at addresses (`World`); one that is not there is not read,
and a block that is not out is not given back: such a call comes to nothing.

    dma_pool_region_alloc, dma_pool_region_free      a block, and back
    dma_pool_shrink                                  the large arenas that are empty go back
    dma_pool_create, dma_pool_delete                 the pool itself
-/

namespace Dma

open Machinery

def DMA_POOL_PUDDLE_SIZE : ℕ := 128 * 1024

/-- A puddle: an arena, the header it came from, and its own header. -/
structure DmaPuddle where
  next : ℕ
  src : ℕ
  arena : ℕ
  arenaSize : ℕ
  mh : MemHeader
  deriving DecidableEq, Repr

/-- A pool. -/
structure DmaPool where
  puddles : ℕ
  puddleSize : ℕ
  deriving DecidableEq, Repr

/-- **The memory**: its bytes, Exec's headers, and the structures allocated in it. -/
structure World where
  mem : Block
  headers : ℕ → MemHeader
  puds : ℕ → Option DmaPuddle
  pools : ℕ → Option DmaPool

namespace World

variable (w : World)

/-- Whether a structure is at an address. -/
def used (a : ℕ) : Bool := (w.puds a).isSome || (w.pools a).isSome

def setHeader (h : ℕ) (mh : MemHeader) : World :=
  { w with headers := Function.update w.headers h mh }

def setPud (q : ℕ) (p : Option DmaPuddle) : World := { w with puds := Function.update w.puds q p }

def setPool (a : ℕ) (P : Option DmaPool) : World := { w with pools := Function.update w.pools a P }

def setMem (m : Block) : World := { w with mem := m }

/-- The puddle behind one. -/
def next (q : ℕ) : Option ℕ := (w.puds q).map DmaPuddle.next

end World

variable (E : Exec) (ctx : DmaMemCtx)

/-- The loop of `dma_pool_grow`: an arena, from the first region with room. -/
def grab (n : ℕ) : List DmaMemRegion → World → Option (ℕ × ℕ × World)
  | [], _ => none
  | r :: rs, w =>
    match E.allocate (w.headers r.header) n w.mem with
    | none => grab n rs w
    | some (arena, mh, m) => some (r.header, arena, (w.setHeader r.header mh).setMem m)

/-- `Deallocate(src, arena, arena_size)`. -/
def release (src arena arenaSize : ℕ) (w : World) : Option World :=
  (E.deallocate (w.headers src) arena arenaSize w.mem).map fun (mh, m) =>
    (w.setHeader src mh).setMem m

/-- **`dma_pool_grow`**: a puddle in front of the others. -/
def dmaPoolGrow (pool need : ℕ) (w : World) : Option (Option ℕ × World) :=
  (w.pools pool).bind fun P =>
    let arenaSize := alignUp (if P.puddleSize < need then need else P.puddleSize) MEM_BLOCKSIZE
    match grab E arenaSize ctx.regions w with
    | none => some (none, w)
    | some (src, arena, w) =>
      match E.allocMem 48 w.used with
      | none => (release E src arena arenaSize w).map fun w => (none, w)
      | some pud =>
        let mh : MemHeader := ⟨arena, u32 (arena + arenaSize), arenaSize, []⟩
        let m := (w.mem.setLong arena 0).setLong (arena + 4) arenaSize
        let w := (w.setPud pud (some ⟨P.puddles, src, arena, arenaSize, mh⟩)).setMem m
        some (some pud, w.setPool pool (some { P with puddles := pud }))

/-- `Allocate(&pud->mh, need)`. -/
def carve (pud need : ℕ) (w : World) : Option (Option ℕ × World) :=
  (w.puds pud).map fun p =>
    match E.allocate p.mh need w.mem with
    | none => (none, w)
    | some (ptr, mh, m) => (some ptr, (w.setPud pud (some { p with mh := mh })).setMem m)

/-- The walk of `dma_pool_region_alloc` over so many puddles at most: the first with room. -/
def firstFit (need : ℕ) : ℕ → ℕ → World → Option (Option ℕ × World)
  | 0, _, _ => none
  | n + 1, pud, w =>
    if pud = 0 then some (none, w)
    else (carve E pud need w).bind fun
      | (some ptr, w) => some (some ptr, w)
      | (none, w) => (w.next pud).bind fun next => firstFit need n next w

/-- **`dma_pool_region_alloc`.** -/
def dmaPoolRegionAlloc (n pool size : ℕ) (w : World) : Option (Option ℕ × World) :=
  let need := alignUp size MEM_BLOCKSIZE
  (w.pools pool).bind fun P => (firstFit E need n P.puddles w).bind fun
    | (some ptr, w) => some (some ptr, w)
    | (none, w) => (dmaPoolGrow E ctx pool need w).bind fun
      | (none, w) => some (none, w)
      | (some pud, w) => carve E pud need w

/-- The walk of `dma_pool_region_free`: to the puddle the address is in, if there is one. -/
def freeIn (ptr need : ℕ) : ℕ → ℕ → World → Option World
  | 0, _, _ => none
  | n + 1, pud, w =>
    if pud = 0 then some w
    else (w.puds pud).bind fun p =>
      if p.mh.mhLower ≤ ptr ∧ ptr < p.mh.mhUpper then
        (E.deallocate p.mh ptr need w.mem).map fun (mh, m) =>
          (w.setPud pud (some { p with mh := mh })).setMem m
      else freeIn ptr need n p.next w

/-- **`dma_pool_region_free`.** -/
def dmaPoolRegionFree (n pool ptr size : ℕ) (w : World) : Option World :=
  if ptr = 0 then some w
  else (w.pools pool).bind fun P => freeIn E ptr (alignUp size MEM_BLOCKSIZE) n P.puddles w

/-- `FreeMem` of a puddle's structure. -/
def freePuddle (pud : ℕ) (w : World) : Option World := (w.puds pud).map fun _ => w.setPud pud none

/-! ## Shrinking -/

/-- Where a puddle is linked from. -/
inductive Link where
  | puddles (pool : ℕ)
  | next (pud : ℕ)
  deriving DecidableEq, Repr

namespace Link

/-- `*link`. -/
def get (w : World) : Link → Option ℕ
  | puddles pool => (w.pools pool).map DmaPool.puddles
  | next pud => w.next pud

/-- `*link = v`. -/
def set (v : ℕ) (w : World) : Link → World
  | puddles pool => w.setPool pool ((w.pools pool).map fun P => { P with puddles := v })
  | next pud => w.setPud pud ((w.puds pud).map fun p => { p with next := v })

end Link

/-- Whether `dma_pool_shrink` gives a puddle's arena back. -/
def DmaPuddle.Idle (puddleSize : ℕ) (p : DmaPuddle) : Prop :=
  puddleSize < p.arenaSize ∧ p.mh.mhFree = p.arenaSize

instance (puddleSize : ℕ) (p : DmaPuddle) : Decidable (p.Idle puddleSize) :=
  inferInstanceAs (Decidable (_ ∧ _))

/-- The loop of `dma_pool_shrink`. -/
def shrinkFrom (pool : ℕ) : ℕ → Link → World → Option World
  | 0, _, _ => none
  | n + 1, link, w => (link.get w).bind fun pud =>
    if pud = 0 then some w
    else (w.pools pool).bind fun P => (w.puds pud).bind fun p =>
      if p.Idle P.puddleSize then
        (release E p.src p.arena p.arenaSize (link.set p.next w)).bind fun w =>
          (freePuddle pud w).bind (shrinkFrom pool n link)
      else shrinkFrom pool n (.next pud) w

/-- **`dma_pool_shrink`.** -/
def dmaPoolShrink (n pool : ℕ) (w : World) : Option World :=
  if pool = 0 then some w else shrinkFrom E pool n (.puddles pool) w

/-! ## The pool itself -/

/-- **`dma_pool_create`.** -/
def dmaPoolCreate (w : World) : Option ℕ × World :=
  if ctx.regions = [] then (none, w)
  else match E.allocMem 16 w.used with
    | none => (none, w)
    | some pool => (some pool, w.setPool pool (some ⟨0, DMA_POOL_PUDDLE_SIZE⟩))

/-- The loop of `dma_pool_delete`. -/
def deleteFrom : ℕ → ℕ → World → Option World
  | 0, _, _ => none
  | n + 1, pud, w =>
    if pud = 0 then some w
    else (w.puds pud).bind fun p =>
      (release E p.src p.arena p.arenaSize w).bind fun w =>
        (freePuddle pud w).bind (deleteFrom n p.next)

/-- **`dma_pool_delete`.** -/
def dmaPoolDelete (n pool : ℕ) (w : World) : Option World :=
  if pool = 0 then some w
  else (w.pools pool).bind fun P =>
    (deleteFrom E n P.puddles w).map fun w => w.setPool pool none

end Dma
