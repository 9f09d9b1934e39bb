import Emu68Common.Slab.Cache
import Mathlib.Data.List.Nodup
import Mathlib.Data.List.Pairwise

/-!
# Slab/Layout — where a cache's slabs, objects and books lie

A slab is two blocks: its node's, and that of its data, cut into a row of slots.  The books of the
pools and of the cache lie in the same blocks, in front of the data (`places`), so writing an object
touches none of them (`off_span`), and different slots do not meet (`slots_apart`).
-/

namespace Slab

open Machinery Dma

/-! ## Sizes -/

namespace Geometry

/-- The bytes a slab's objects take. -/
def span (k : Geometry) : ℕ := k.objSize * k.slabCapacity

/-- What is asked of a pool for them. -/
def total (k : Geometry) : ℕ :=
  if k.dmaPool then dmaTotal k.objAlign k.span else k.span + 4

/-- **The geometry of an initialised cache**, with sizes that fit 32 bits. -/
structure Sized (k : Geometry) : Prop where
  align : ∃ i, k.objAlign = 2 ^ i
  least : (if k.dmaPool then DMA_ALIGN_MIN else 4) ≤ k.objAlign
  multiple : k.objAlign ∣ k.objSize
  pos : 0 < k.objSize
  capacity : 0 < k.slabCapacity
  fits : k.span + (if k.dmaPool then k.objAlign - 1 + 8 else 4) < 2 ^ 32

variable {k : Geometry}

namespace Sized

theorem four_le_align (h : k.Sized) : 4 ≤ k.objAlign := by
  have := h.least
  split at this
  · exact le_trans (by decide) this
  · exact this

theorem four_le (h : k.Sized) : 4 ≤ k.objSize :=
  h.four_le_align.trans (Nat.le_of_dvd h.pos h.multiple)

theorem span_pos (h : k.Sized) : 0 < k.span := Nat.mul_pos h.pos h.capacity

theorem dvd_span (h : k.Sized) : k.objAlign ∣ k.span := h.multiple.mul_right _

theorem min_le (h : k.Sized) (hd : k.dmaPool = true) : DMA_ALIGN_MIN ≤ k.objAlign := by
  have := h.least
  rwa [if_pos hd] at this

theorem dma_fits (h : k.Sized) (hd : k.dmaPool = true) :
    k.span + (k.objAlign - 1) + 8 < 2 ^ 32 := by
  have := h.fits
  rw [if_pos hd] at this
  omega

/-- The data of a DMA slab is whole lines already. -/
theorem dmaSize_eq (h : k.Sized) (hd : k.dmaPool = true) :
    dmaSize k.objAlign k.span = k.span := by
  have hfit := h.dma_fits hd
  rw [dmaSize, if_pos (h.min_le hd)]
  exact align_mask_of_dvd h.align (by omega) h.dvd_span

theorem request (h : k.Sized) (hd : k.dmaPool = true) : Fits k.objAlign k.span := by
  have hfit := h.dma_fits hd
  exact ⟨(h.dmaSize_eq hd).symm ▸ hfit, by omega⟩

theorem span_lt (h : k.Sized) : k.span < 2 ^ 32 := by
  have := h.fits
  omega

end Sized

end Geometry

/-! ## Slabs -/

/-- **A slab**: where its node's block is, and its data's. -/
structure Chunk where
  rawNode : ℕ
  rawData : ℕ
  deriving DecidableEq, Repr

namespace Chunk

/-- The node, behind the size of its block. -/
def node (s : Chunk) : ℕ := s.rawNode + 4

/-- The data. -/
def data (k : Geometry) (s : Chunk) : ℕ :=
  if k.dmaPool then dmaAligned k.objAlign s.rawData else s.rawData + 4

/-- The pool the data is from. -/
def source (k : Geometry) : Pool := if k.dmaPool then .dmaPool else .metaPool

/-- Its two blocks. -/
def grants (k : Geometry) (s : Chunk) : List Grant :=
  [⟨.metaPool, s.rawNode, 12⟩, ⟨source k, s.rawData, k.total⟩]

/-- What its blocks keep besides the link to the next node. -/
def books (k : Geometry) (s : Chunk) : Book :=
  (s.rawNode, 12) :: (s.node + 4, s.data k) :: (s.rawData, k.total) ::
    if k.dmaPool then [(s.data k - 4, s.rawData)] else []

/-- Its slots. -/
def slots (k : Geometry) (s : Chunk) : List ℕ := row k.objSize k.slabCapacity (s.data k)

/-- Its blocks are in the address space, and apart. -/
structure Within (k : Geometry) (s : Chunk) : Prop where
  node_pos : 0 < s.rawNode
  node_le : s.rawNode + 12 ≤ 2 ^ 32
  data_pos : 0 < s.rawData
  data_le : s.rawData + k.total ≤ 2 ^ 32
  own : Apart s.rawNode 12 s.rawData k.total

/-- The blocks of two slabs do not meet. -/
def Clear (k : Geometry) (s s' : Chunk) : Prop :=
  ∀ g ∈ s.grants k, ∀ g' ∈ s'.grants k, Apart g.raw g.size g'.raw g'.size

theorem Clear.symm {k : Geometry} {s s' : Chunk} (h : Clear k s s') : Clear k s' s :=
  fun g hg g' hg' => (h g' hg' g hg).symm

instance (k : Geometry) : Std.Symm (Clear k) := ⟨fun _ _ => Clear.symm⟩

variable {k : Geometry} {s s' : Chunk} {a n : ℕ}

/-- **The data lies in its block**, with the books of its pool before it. -/
theorem data_spec (hk : k.Sized) (hle : s.rawData + k.total ≤ 2 ^ 32) :
    s.rawData + 4 ≤ s.data k ∧ s.data k + k.span ≤ s.rawData + k.total ∧
      (k.dmaPool = true → s.rawData + 8 ≤ s.data k ∧ k.objAlign ∣ s.data k) := by
  cases hd : k.dmaPool with
  | false =>
    rw [data, Geometry.total, hd]
    exact ⟨le_rfl, le_of_eq (Nat.add_right_comm _ _ _), fun h => absurd h Bool.false_ne_true⟩
  | true =>
    rw [Geometry.total, hd, if_pos rfl] at hle
    have hsize := hk.dmaSize_eq hd
    obtain ⟨hdvd, hlow, hhigh⟩ := aligned_spec hk.align (hk.request hd)
      (hsize.symm ▸ hk.span_pos) hle
    rw [hsize] at hhigh
    rw [data, Geometry.total, hd]
    exact ⟨le_trans (by omega) hlow, hhigh, fun _ => ⟨hlow, hdvd⟩⟩

/-- Where a slab's books are: in its node, or in front of its data. -/
def Place (k : Geometry) (s : Chunk) (a : ℕ) : Prop :=
  s.rawNode ≤ a ∧ a + 4 ≤ s.rawNode + 12 ∨ s.rawData ≤ a ∧ a + 4 ≤ s.data k

theorem place_of_mem (hk : k.Sized) (h : s.Within k) {e : ℕ × ℕ} (he : e ∈ s.books k) :
    s.Place k e.1 := by
  obtain ⟨hlow, -, hdma⟩ := data_spec hk h.data_le
  rcases List.mem_cons.mp he with rfl | he
  · exact Or.inl ⟨le_rfl, by omega⟩
  rcases List.mem_cons.mp he with rfl | he
  · exact Or.inl ⟨by rw [node]; omega, by rw [node]⟩
  rcases List.mem_cons.mp he with rfl | he
  · exact Or.inr ⟨le_rfl, hlow⟩
  split at he
  · rename_i hd
    obtain rfl := List.mem_singleton.mp he
    have := (hdma hd).1
    exact Or.inr ⟨by omega, by omega⟩
  · exact absurd he List.not_mem_nil

theorem place_node (s : Chunk) : s.Place k s.node :=
    Or.inl ⟨by rw [node]; omega, by rw [node]; omega⟩

/-- A place is in one of the slab's blocks. -/
theorem Place.held (hk : k.Sized) (h : s.Within k) (hp : s.Place k a) :
    ∃ g ∈ s.grants k, g.raw ≤ a ∧ a + 4 ≤ g.raw + g.size := by
  obtain ⟨-, hhigh, -⟩ := data_spec hk h.data_le
  rcases hp with ⟨hlow, hp⟩ | ⟨hlow, hp⟩
  · exact ⟨_, List.mem_cons_self, hlow, hp⟩
  · exact ⟨_, List.mem_cons_of_mem _ List.mem_cons_self, hlow, by
      change a + 4 ≤ s.rawData + k.total
      omega⟩

/-- **Books are not in the data**: a place of one slab, the data of the same or of another. -/
theorem Place.apart (hk : k.Sized) (h : s.Within k) (h' : s'.Within k)
    (hss : s = s' ∨ Clear k s s') (hp : s.Place k a) : Apart a 4 (s'.data k) k.span := by
  obtain ⟨hlow, hhigh, -⟩ := data_spec hk h'.data_le
  rcases hss with rfl | hclear
  · rcases hp with ⟨hp₁, hp₂⟩ | ⟨-, hp⟩
    · exact h.own.mono hp₁ hp₂ (by omega) hhigh
    · exact Or.inl hp
  · obtain ⟨g, hg, hp₁, hp₂⟩ := hp.held hk h
    exact (hclear g hg _ (List.mem_cons_of_mem _ List.mem_cons_self)).mono hp₁ hp₂ (by
      change s'.rawData ≤ s'.data k
      omega) hhigh

/-- The data of different slabs does not meet. -/
theorem Clear.data (hk : k.Sized) (h : s.Within k) (h' : s'.Within k) (hc : Clear k s s') :
    Apart (s.data k) k.span (s'.data k) k.span := by
  obtain ⟨hlow, hhigh, -⟩ := data_spec hk h.data_le
  obtain ⟨hlow', hhigh', -⟩ := data_spec hk h'.data_le
  have hblocks := hc _ (List.mem_cons_of_mem _ List.mem_cons_self) _
    (List.mem_cons_of_mem _ List.mem_cons_self)
  exact hblocks.mono (by change s.rawData ≤ s.data k; omega) hhigh
    (by change s'.rawData ≤ s'.data k; omega) hhigh'

end Chunk

/-! ## All the slabs -/

/-- What all the slabs' blocks keep: the list of the nodes, and each slab's own books. -/
def slabBook (k : Geometry) (slabs : List Chunk) : Book :=
  links (slabs.map Chunk.node) 0 ++ slabs.flatMap (Chunk.books k)

/-- The slots of all slabs. -/
def allSlots (k : Geometry) (slabs : List Chunk) : List ℕ := slabs.flatMap (Chunk.slots k)

/-- **Slabs in the address space, and apart.** -/
structure Spread (k : Geometry) (slabs : List Chunk) : Prop where
  sized : k.Sized
  within : ∀ s ∈ slabs, s.Within k
  clear : slabs.Pairwise (Chunk.Clear k)

namespace Spread

variable {k : Geometry} {slabs : List Chunk} {s s' : Chunk} {p q : ℕ}

theorem clear_of_ne (h : Spread k slabs) (hs : s ∈ slabs) (hs' : s' ∈ slabs) :
    s = s' ∨ Chunk.Clear k s s' := by
  by_cases hne : s = s'
  · exact Or.inl hne
  · exact Or.inr (h.clear.forall hs hs' hne)

/-- Where the books are. -/
theorem places (h : Spread k slabs) {e : ℕ × ℕ} (he : e ∈ slabBook k slabs) :
    ∃ s ∈ slabs, s.Place k e.1 := by
  rcases List.mem_append.mp he with he | he
  · obtain ⟨s, hs, hnode⟩ := List.mem_map.mp (mem_of_mem_links he)
    exact ⟨s, hs, hnode ▸ s.place_node⟩
  · obtain ⟨s, hs, he⟩ := List.mem_flatMap.mp he
    exact ⟨s, hs, Chunk.place_of_mem h.sized (h.within s hs) he⟩

/-- **No book is in a slab's data.** -/
theorem off_span (h : Spread k slabs) (hs : s ∈ slabs) :
    (slabBook k slabs).Off (s.data k) k.span := by
  intro e he
  obtain ⟨s', hs', hp⟩ := h.places he
  exact hp.apart h.sized (h.within s' hs') (h.within s hs) (h.clear_of_ne hs' hs)

/-- A slot lies in its slab's data. -/
theorem slot_within (hp : p ∈ allSlots k slabs) :
    ∃ s ∈ slabs, s.data k ≤ p ∧ p + k.objSize ≤ s.data k + k.span := by
  obtain ⟨s, hs, hp⟩ := List.mem_flatMap.mp hp
  have := row_within hp
  rw [Nat.mul_comm] at this
  exact ⟨s, hs, this⟩

/-- **No book is in a slot.** -/
theorem off_slot (h : Spread k slabs) (hp : p ∈ allSlots k slabs) :
    (slabBook k slabs).Off p k.objSize := by
  obtain ⟨s, hs, hlow, hhigh⟩ := slot_within hp
  exact (h.off_span hs).mono hlow hhigh

/-- **Different slots do not meet.** -/
theorem slots_apart (h : Spread k slabs) (hp : p ∈ allSlots k slabs) (hq : q ∈ allSlots k slabs)
    (hne : p ≠ q) : Apart p k.objSize q k.objSize := by
  obtain ⟨s, hs, hp⟩ := List.mem_flatMap.mp hp
  obtain ⟨s', hs', hq⟩ := List.mem_flatMap.mp hq
  rcases h.clear_of_ne hs hs' with rfl | hclear
  · exact row_apart hp hq hne
  · have hp' := row_within hp
    have hq' := row_within hq
    rw [Nat.mul_comm] at hp' hq'
    exact (hclear.data h.sized (h.within s hs) (h.within s' hs')).mono hp'.1 hp'.2 hq'.1 hq'.2

/-- No slot is listed twice. -/
theorem slots_nodup (h : Spread k slabs) : (allSlots k slabs).Nodup := by
  refine List.nodup_flatMap.mpr ⟨fun s _ => row_nodup h.sized.pos, ?_⟩
  refine h.clear.imp_of_mem fun {s s'} hs hs' hclear p hp hp' => ?_
  have hw := row_within hp
  have hw' := row_within hp'
  have hpos := h.sized.pos
  rw [Nat.mul_comm] at hw hw'
  rcases (hclear.data h.sized (h.within s hs)
    (h.within s' hs')).mono hw.1 hw.2 hw'.1 hw'.2 with h | h
  · omega
  · omega

/-- A slot is an address, and not NULL. -/
theorem slot_address (h : Spread k slabs) (hp : p ∈ allSlots k slabs) :
    p ≠ 0 ∧ p + k.objSize ≤ 2 ^ 32 := by
  obtain ⟨s, hs, hlow, hhigh⟩ := slot_within hp
  obtain ⟨hdata, hdata', -⟩ := Chunk.data_spec h.sized (h.within s hs).data_le
  have := (h.within s hs).data_le
  omega

end Spread

end Slab
