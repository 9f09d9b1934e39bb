import Emu68Common.Dma.Buffer
import Mathlib.Algebra.BigOperators.Group.List.Basic
import Mathlib.Data.List.Pairwise

/-!
# Dma/Exec — Exec's memory headers

A memory header hands out blocks of the memory it stands for.  What is relied on is what Exec
documents (`Exec`): a block handed out lies in that memory, meets none that is out, and is no more
than is free; and Exec writes only in the free memory, where it keeps its chunks.

    Allocate, Deallocate      a block out of a header, and back
    AllocMem                  a structure, at an address where none is
-/

namespace Dma

open Machinery

def MEM_BLOCKSIZE : ℕ := 8

/-- A block: where, and how long. -/
structure Extent where
  addr : ℕ
  size : ℕ
  deriving DecidableEq, Repr

namespace Extent

/-- Whether a byte is in the block. -/
def Has (e : Extent) (i : ℕ) : Prop := e.addr ≤ i ∧ i < e.addr + e.size

/-- Two blocks that do not meet. -/
def Apart (e f : Extent) : Prop := Machinery.Apart e.addr e.size f.addr f.size

instance : Std.Symm Apart := ⟨fun _ _ => Or.symm⟩

theorem Apart.not_has {e f : Extent} (h : e.Apart f) {i : ℕ} (hi : e.Has i) : ¬f.Has i := by
  rintro ⟨hlow, hhigh⟩
  obtain ⟨hlow', hhigh'⟩ := hi
  rcases h with h | h <;> omega

/-- A block that is not empty meets itself. -/
theorem Apart.ne {e f : Extent} (h : e.Apart f) (hpos : 0 < e.size) : e ≠ f := by
  rintro rfl
  rcases h with h | h <;> omega

end Extent

/-- **A memory header**: its memory, how much of it is free, and the blocks that are out. -/
structure MemHeader where
  mhLower : ℕ
  mhUpper : ℕ
  mhFree : ℕ
  out : List Extent
  deriving DecidableEq, Repr

namespace MemHeader

/-- A byte Exec does not write: outside the memory, or in a block that is out. -/
def Spared (mh : MemHeader) (i : ℕ) : Prop :=
  i < mh.mhLower ∨ mh.mhUpper ≤ i ∨ ∃ e ∈ mh.out, e.Has i

/-- A block goes out. -/
def take (mh : MemHeader) (e : Extent) : MemHeader :=
  { mh with mhFree := mh.mhFree - e.size, out := e :: mh.out }

/-- A block comes back. -/
def give (mh : MemHeader) (e : Extent) : MemHeader :=
  { mh with mhFree := mh.mhFree + e.size, out := mh.out.erase e }

/-- A block the header may hand out. -/
structure Fresh (mh : MemHeader) (e : Extent) : Prop where
  pos : 0 < e.size
  ne_zero : e.addr ≠ 0
  dvd : MEM_BLOCKSIZE ∣ e.addr
  lower : mh.mhLower ≤ e.addr
  upper : e.addr + e.size ≤ mh.mhUpper
  free : e.size ≤ mh.mhFree
  apart : ∀ f ∈ mh.out, e.Apart f

/-- **A header whose memory is one chunk.** -/
structure Whole (mh : MemHeader) : Prop where
  ne_zero : mh.mhLower ≠ 0
  dvd : MEM_BLOCKSIZE ∣ mh.mhLower
  upper : mh.mhLower + mh.mhFree = mh.mhUpper
  out : mh.out = []

end MemHeader

/-- **Exec**: where it finds room, what it leaves of the memory when a block goes out or comes back,
and where it places a structure.  There is no room for nothing, and room for all that a chunk
holds. -/
structure Exec where
  find : MemHeader → ℕ → Option ℕ
  asked : MemHeader → ℕ → Block → Block
  given : MemHeader → Block → Block
  place : ℕ → (ℕ → Bool) → Option ℕ
  find_fresh : ∀ mh n a, find mh n = some a → mh.Fresh ⟨a, n⟩
  find_whole : ∀ mh n, mh.Whole → 0 < n → MEM_BLOCKSIZE ∣ n → n ≤ mh.mhFree → (find mh n).isSome
  asked_spared : ∀ mh n m i, mh.Spared i → asked mh n m i = m i
  given_spared : ∀ mh m i, mh.Spared i → given mh m i = m i
  place_unused : ∀ n used a, place n used = some a → a ≠ 0 ∧ used a = false

namespace Exec

variable (E : Exec)

/-- `Allocate(mh, n)`. -/
def allocate (mh : MemHeader) (n : ℕ) (m : Block) : Option (ℕ × MemHeader × Block) :=
  (E.find mh n).map fun a => (a, mh.take ⟨a, n⟩, E.asked mh n m)

/-- `Deallocate(mh, a, n)`, of a block that is out. -/
def deallocate (mh : MemHeader) (a n : ℕ) (m : Block) : Option (MemHeader × Block) :=
  if ⟨a, n⟩ ∈ mh.out then some (mh.give ⟨a, n⟩, E.given (mh.give ⟨a, n⟩) m) else none

/-- `AllocMem(n, …)`, at an address where no structure is. -/
def allocMem (n : ℕ) (used : ℕ → Bool) : Option ℕ := E.place n used

end Exec

/-! ## What is out of a header -/

namespace MemHeader

variable {mh : MemHeader} {e f : Extent} {i : ℕ}

/-- **The blocks that are out** lie in the memory, and apart. -/
structure Sound (mh : MemHeader) : Prop where
  within : ∀ e ∈ mh.out, 0 < e.size ∧ mh.mhLower ≤ e.addr ∧ e.addr + e.size ≤ mh.mhUpper
  apart : mh.out.Pairwise Extent.Apart

/-- What is free and what is out is all there is. -/
def Balanced (mh : MemHeader) : Prop :=
  mh.mhLower + (mh.mhFree + (mh.out.map Extent.size).sum) = mh.mhUpper

/-- What goes out is not in use. -/
theorem Fresh.not_has (h : mh.Fresh e) (hi : mh.Spared i) : ¬e.Has i := by
  intro hhas
  obtain ⟨hlow, hhigh⟩ := hhas
  have hlower := h.lower
  have hupper := h.upper
  rcases hi with hi | hi | ⟨f, hf, hi⟩
  · omega
  · omega
  · exact (h.apart f hf).not_has ⟨hlow, hhigh⟩ hi

theorem Sound.nodup (h : mh.Sound) : mh.out.Nodup :=
  h.apart.imp_of_mem fun he _ hef => hef.ne (h.within _ he).1

theorem Sound.apart_of_ne (h : mh.Sound) (he : e ∈ mh.out) (hf : f ∈ mh.out) (hne : e ≠ f) :
    e.Apart f :=
  h.apart.forall he hf hne

theorem Sound.take (h : mh.Sound) (hf : mh.Fresh e) : (mh.take e).Sound where
  within := List.forall_mem_cons.mpr ⟨⟨hf.pos, hf.lower, hf.upper⟩, h.within⟩
  apart := List.pairwise_cons.mpr ⟨hf.apart, h.apart⟩

theorem Sound.give (h : mh.Sound) (e : Extent) : (mh.give e).Sound where
  within f hf := h.within f (List.mem_of_mem_erase hf)
  apart := h.apart.sublist List.erase_sublist

theorem Balanced.take (h : mh.Balanced) (hf : mh.Fresh e) : (mh.take e).Balanced := by
  have hfree := hf.free
  rw [Balanced] at h
  change mh.mhLower + (mh.mhFree - e.size + (e.size + (mh.out.map Extent.size).sum)) = mh.mhUpper
  omega

theorem Balanced.give (h : mh.Balanced) (he : e ∈ mh.out) : (mh.give e).Balanced := by
  have hsum := ((List.perm_cons_erase he).map Extent.size).sum_eq
  rw [List.map_cons, List.sum_cons] at hsum
  rw [Balanced] at h
  change mh.mhLower + (mh.mhFree + e.size + ((mh.out.erase e).map Extent.size).sum) = mh.mhUpper
  omega

/-- **Nothing is out** when all of the memory is free. -/
theorem Balanced.out_eq_nil (h : mh.Balanced) (hs : mh.Sound) :
    mh.mhLower + mh.mhFree = mh.mhUpper ↔ mh.out = [] := by
  rw [Balanced] at h
  constructor
  · intro hfree
    refine List.eq_nil_iff_forall_not_mem.mpr fun e he => ?_
    have hsum := ((List.perm_cons_erase he).map Extent.size).sum_eq
    have hpos := (hs.within e he).1
    rw [List.map_cons, List.sum_cons] at hsum
    omega
  · intro hout
    rw [hout] at h
    exact h

/-- What goes out and comes straight back leaves the header as it was. -/
theorem give_take (h : mh.Fresh e) : (mh.take e).give e = mh := by
  have hfree : mh.mhFree - e.size + e.size = mh.mhFree := Nat.sub_add_cancel h.free
  rw [MemHeader.take, MemHeader.give, List.erase_cons_head, hfree]

end MemHeader

/-! ## The calls -/

namespace Exec

variable (E : Exec) {mh : MemHeader} {n a : ℕ} {m : Block} {e : Extent}

theorem deallocate_eq (h : ⟨a, n⟩ ∈ mh.out) :
    E.deallocate mh a n m = some (mh.give ⟨a, n⟩, E.given (mh.give ⟨a, n⟩) m) := if_pos h

end Exec

/-! ## An Exec

One that gives out the lowest address with room, and keeps a chunk's two longs at its start, is as
documented. -/

section Lowest

instance (e f : Extent) : Decidable (e.Apart f) := inferInstanceAs (Decidable (_ ∨ _))

instance (mh : MemHeader) (e : Extent) : Decidable (mh.Fresh e) :=
  decidable_of_iff (0 < e.size ∧ e.addr ≠ 0 ∧ MEM_BLOCKSIZE ∣ e.addr ∧ mh.mhLower ≤ e.addr ∧
      e.addr + e.size ≤ mh.mhUpper ∧ e.size ≤ mh.mhFree ∧ ∀ f ∈ mh.out, e.Apart f)
    ⟨fun ⟨h₁, h₂, h₃, h₄, h₅, h₆, h₇⟩ => ⟨h₁, h₂, h₃, h₄, h₅, h₆, h₇⟩,
      fun ⟨h₁, h₂, h₃, h₄, h₅, h₆, h₇⟩ => ⟨h₁, h₂, h₃, h₄, h₅, h₆, h₇⟩⟩

/-- Where free memory can start: at the header's, or behind a block that is out. -/
def MemHeader.starts (mh : MemHeader) : List ℕ :=
  mh.mhLower :: mh.out.map fun e => e.addr + e.size

/-- The first of these places with room. -/
def MemHeader.lowest (mh : MemHeader) (n : ℕ) : Option ℕ :=
  mh.starts.find? fun a => decide (mh.Fresh ⟨a, n⟩)

/-- A chunk entered, where there is room for one: no next one, and its size. -/
def MemHeader.chunk (mh : MemHeader) (a bytes : ℕ) (m : Block) : Block :=
  if mh.Fresh ⟨a, 8⟩ then (m.setLong a 0).setLong (a + 4) bytes else m

theorem MemHeader.chunk_spared {mh : MemHeader} {i : ℕ} (a bytes : ℕ) (m : Block)
    (hi : mh.Spared i) : mh.chunk a bytes m i = m i := by
  rw [MemHeader.chunk]
  split
  · rename_i hfresh
    have hoff : i < a ∨ a + 8 ≤ i := by
      by_contra hin
      refine hfresh.not_has hi ⟨?_, ?_⟩ <;> dsimp only <;> omega
    rw [Block.setLong_of_off (by omega), Block.setLong_of_off (by omega)]
  · rfl

/-- **An Exec.** -/
def lowestExec : Exec where
  find := MemHeader.lowest
  asked mh n m := mh.chunk (((mh.lowest n).getD 0) + n) (mh.mhFree - n) m
  given mh m := mh.chunk mh.mhLower mh.mhFree m
  place _ used := ((List.range 8).map fun k => 0x00300000 + 64 * k).find? fun a => !used a
  find_fresh mh n a h := by
    rw [MemHeader.lowest] at h
    have hfresh := List.find?_some h
    exact of_decide_eq_true hfresh
  find_whole mh n h hpos _ hfree := by
    obtain ⟨hne, hdvd, hupper, hout⟩ := h
    have hfresh : mh.Fresh ⟨mh.mhLower, n⟩ :=
      ⟨hpos, hne, hdvd, le_rfl, by dsimp only; omega, hfree, by
        rw [hout]
        exact fun f hf => absurd hf List.not_mem_nil⟩
    exact List.find?_isSome.mpr ⟨mh.mhLower, List.mem_cons_self, decide_eq_true hfresh⟩
  asked_spared _ _ m _ hi := MemHeader.chunk_spared _ _ m hi
  given_spared _ m _ hi := MemHeader.chunk_spared _ _ m hi
  place_unused _ used a h := by
    have hfree := List.find?_some h
    obtain ⟨k, -, rfl⟩ := List.mem_map.mp (List.mem_of_find?_eq_some h)
    exact ⟨by omega, Bool.not_eq_true' _ ▸ hfree⟩

end Lowest

end Dma
