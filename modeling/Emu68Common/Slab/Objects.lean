import Emu68Common.Slab.Layout

/-!
# Slab/Objects — every object is handed out once

The slots of a cache's slabs are the nodes of its free list and the objects its clients have, each
once (`Laid`).  No call and no client's write breaks that, because a free slot's link, a node and a
pool's size before a block all lie off the objects; so a run keeps it (`laid_of_run`), and at its
end every block goes back to the pool it came from (`destroy_spec`).
-/

namespace Slab

open Machinery Dma

/-! ## What the pools do -/

section Pools

variable (P : Pools) {w : World} {k : Geometry}

/-- Every long of a book is in one of these blocks. -/
def Housed (held : List Grant) (book : Book) : Prop :=
  ∀ e ∈ book, ∃ g ∈ held, g.raw ≤ e.1 ∧ e.1 + 4 ≤ g.raw + g.size

/-- What is in the blocks that are out is not in a fresh one. -/
theorem Housed.off {held : List Grant} {book : Book} {a n : ℕ} (h : Housed held book)
    (hf : Fresh held a n) : book.Off a n := by
  intro e he
  obtain ⟨g, hg, hlow, hhigh⟩ := h e he
  exact (hf.2.2 g hg).mono hlow hhigh le_rfl le_rfl

theorem Housed.mono {held held' : List Grant} {book : Book} (h : Housed held book)
    (hsub : held ⊆ held') : Housed held' book := by
  intro e he
  obtain ⟨g, hg, hin⟩ := h e he
  exact ⟨g, hsub hg, hin⟩

/-- Books in blocks that stay as they are are kept. -/
theorem Housed.kept {held : List Grant} {book : Book} {m m' : Block} (h : Housed held book)
    (hm : Agree held m m') (hk : m.Kept book) : m'.Kept book :=
  hk.congr fun e he i hi hi' => by
    obtain ⟨g, hg, hlow, hhigh⟩ := h e he
    exact hm i ⟨g, hg, by omega, by omega⟩

/-- What is written in a fresh block is in none that is out. -/
theorem agree_setLong {held : List Grant} {raw n a v : ℕ} {m : Block} (hf : Fresh held raw n)
    (ha : raw ≤ a) (ha' : a + 4 ≤ raw + n) : Agree held m (m.setLong a v) := by
  rintro i ⟨g, hg, hlow, hhigh⟩
  exact Block.setLong_of_off (by rcases hf.2.2 g hg with h | h <;> omega)

/-- **A pool answers** with nothing, or with a fresh block. -/
theorem take_cases (p : Pool) (n : ℕ) (w : World) : ∃ m, Agree w.held w.mem m ∧
    (P.take p n w = (none, ⟨m, w.held⟩) ∨
      ∃ raw, Fresh w.held raw n ∧ P.take p n w = (some raw, ⟨m, ⟨p, raw, n⟩ :: w.held⟩)) := by
  refine ⟨P.asked p n w, P.asked_agree p n w, ?_⟩
  rw [Pools.take]
  cases hask : P.ask p n w with
  | none => exact Or.inl rfl
  | some raw => exact Or.inr ⟨raw, P.fresh p n w raw hask, rfl⟩

/-- `pool_alloc` enters the size of a fresh block. -/
theorem poolAlloc_cases {size : ℕ} (h : size + 4 < 2 ^ 32) (w : World) :
    ∃ m, Agree w.held w.mem m ∧ (P.poolAlloc size w = (none, ⟨m, w.held⟩) ∨
      ∃ raw, Fresh w.held raw (size + 4) ∧ P.poolAlloc size w = (some (raw + 4),
        ⟨m.setLong raw (size + 4), ⟨.metaPool, raw, size + 4⟩ :: w.held⟩)) := by
  obtain ⟨m, hm, htake⟩ := take_cases P .metaPool (size + 4) w
  refine ⟨m, hm, ?_⟩
  rw [Pools.poolAlloc, u32_of_lt h]
  rcases htake with htake | ⟨raw, hfresh, htake⟩
  · exact Or.inl (by simp only [htake])
  · exact Or.inr ⟨raw, hfresh, by simp only [htake]⟩

/-- `dma_alloc` enters the size of a fresh block at its start and its address before the buffer. -/
theorem dmaAlloc_cases {align size : ℕ} (w : World) : ∃ m, Agree w.held w.mem m ∧
    (P.dmaAlloc align size w = (none, ⟨m, w.held⟩) ∨
      ∃ raw, Fresh w.held raw (dmaTotal (dmaAlign align) size) ∧
        P.dmaAlloc align size w = (some (dmaAligned (dmaAlign align) raw),
          ⟨(m.setLong (dmaAligned (dmaAlign align) raw - 4) raw).setLong raw
            (dmaTotal (dmaAlign align) size),
            ⟨.dmaPool, raw, dmaTotal (dmaAlign align) size⟩ :: w.held⟩)) := by
  obtain ⟨m, hm, htake⟩ := take_cases P .dmaPool (dmaTotal (dmaAlign align) size) w
  refine ⟨m, hm, ?_⟩
  rw [Pools.dmaAlloc]
  rcases htake with htake | ⟨raw, hfresh, htake⟩
  · exact Or.inl (by simp only [htake])
  · exact Or.inr ⟨raw, hfresh, by simp only [htake]⟩

/-- The allocation of a slab's data. -/
def dataAlloc (k : Geometry) (w : World) : Option ℕ × World :=
  if k.dmaPool then P.dmaAlloc k.objAlign (u32 (k.objSize * k.slabCapacity)) w
  else P.poolAlloc (u32 (k.objSize * k.slabCapacity)) w

/-- What the pool keeps in front of a slab's data. -/
def dataBook (k : Geometry) (s : Chunk) : Book :=
  (s.rawData, k.total) :: if k.dmaPool then [(s.data k - 4, s.rawData)] else []

/-- It is in the data's block, in front of the data. -/
theorem dataBook_within (hk : k.Sized) {s : Chunk} (hle : s.rawData + k.total ≤ 2 ^ 32)
    {e : ℕ × ℕ} (he : e ∈ dataBook k s) : s.rawData ≤ e.1 ∧ e.1 + 4 ≤ s.data k := by
  obtain ⟨hlow, -, hdma⟩ := Chunk.data_spec hk hle
  rcases List.mem_cons.mp he with rfl | he
  · exact ⟨le_rfl, hlow⟩
  split at he
  · rename_i hd
    obtain rfl := List.mem_singleton.mp he
    have := (hdma hd).1
    exact ⟨by omega, by omega⟩
  · exact absurd he List.not_mem_nil

/-- **The data of a slab**: nothing, or a fresh block with the pool's books in front. -/
theorem dataAlloc_cases (hk : k.Sized) (w : World) (node : ℕ) : ∃ m,
    (Agree w.held w.mem m ∧ dataAlloc P k w = (none, ⟨m, w.held⟩)) ∨
      ∃ raw, Fresh w.held raw k.total ∧
      dataAlloc P k w = (some ((Chunk.mk node raw).data k),
        ⟨m, ⟨Chunk.source k, raw, k.total⟩ :: w.held⟩) ∧
      ∀ B, w.mem.Kept B → Housed w.held B → m.Kept (dataBook k ⟨node, raw⟩ ++ B) := by
  have hspan : u32 (k.objSize * k.slabCapacity) = k.span := u32_of_lt hk.span_lt
  rw [dataAlloc, hspan]
  cases hd : k.dmaPool with
  | false =>
    have hfit : k.span + 4 < 2 ^ 32 := by
      have := hk.fits
      rwa [hd, if_neg Bool.false_ne_true] at this
    have htotal : k.total = k.span + 4 := by
      rw [Geometry.total, hd]
      rfl
    rw [if_neg Bool.false_ne_true]
    obtain ⟨m, hm, h | ⟨raw, hfresh, h⟩⟩ := poolAlloc_cases P hfit w
    · exact ⟨m, Or.inl ⟨hm, h⟩⟩
    · refine ⟨m.setLong raw (k.span + 4), Or.inr ⟨raw, htotal ▸ hfresh, ?_, fun B hB hin => ?_⟩⟩
      · rw [h, Chunk.data, Chunk.source, hd, htotal]
        rfl
      · rw [dataBook, hd, htotal]
        exact (hin.kept hm hB).enter ((hin.off hfresh).mono le_rfl (by omega)) hfit
  | true =>
    have halign : dmaAlign k.objAlign = k.objAlign :=
      if_neg (Nat.not_lt.mpr hk.four_le_align)
    have htotal : k.total = dmaTotal k.objAlign k.span := by
      rw [Geometry.total, hd]
      rfl
    rw [if_pos rfl]
    obtain ⟨m, hm, h | ⟨raw, hfresh, h⟩⟩ := dmaAlloc_cases P w
    · exact ⟨m, Or.inl ⟨hm, h⟩⟩
    · rw [halign, ← htotal] at hfresh h
      have hdata : (Chunk.mk node raw).data k = dmaAligned k.objAlign raw := by
        rw [Chunk.data, hd]
        rfl
      obtain ⟨-, hhigh, hdma⟩ := Chunk.data_spec (s := ⟨node, raw⟩) hk hfresh.2.1
      have hlow : raw + 8 ≤ dmaAligned k.objAlign raw := hdata ▸ (hdma hd).1
      have hend : dmaAligned k.objAlign raw + k.span ≤ raw + k.total := hdata ▸ hhigh
      have hle := hfresh.2.1
      have htotal_lt : k.total < 2 ^ 32 := by
        have hpos := hfresh.1
        omega
      refine ⟨(m.setLong (dmaAligned k.objAlign raw - 4) raw).setLong raw k.total,
        Or.inr ⟨raw, hfresh, ?_, fun B hB hin => ?_⟩⟩
      · rw [h, hdata, Chunk.source, hd]
        rfl
      · have hoff := hin.off hfresh
        rw [dataBook, hd, hdata]
        refine ((hin.kept hm hB).enter (hoff.mono (by omega) (by omega))
          (by omega)).enter ?_ htotal_lt
        exact Book.off_cons.mpr ⟨Or.inr (by omega), hoff.mono le_rfl (by omega)⟩

/-- A block that is out is taken back. -/
theorem give_eq {g : Grant} (h : g ∈ w.held) :
    P.give g w = some ⟨P.given g w, w.held.erase g⟩ := if_pos h

end Pools

/-! ## The new chain -/

/-- **The loop of `slab_grow`** enters the links of a row that ends in the list there was. -/
theorem thread_kept {sz last : ℕ} (h4 : 4 ≤ sz) (hlast : last < 2 ^ 32) (i : ℕ) {slot : ℕ}
    {m : Block} {B : Book} (hB : m.Kept B) (hoff : B.Off slot ((i + 1) * sz))
    (hle : slot + (i + 1) * sz ≤ 2 ^ 32) :
    (thread sz last i slot m).Kept (links (row sz (i + 1) slot) last ++ B) := by
  induction i generalizing slot m B with
  | zero => exact hB.enter (hoff.mono le_rfl (by omega)) hlast
  | succ i ih =>
    have hsucc : (i + 1 + 1) * sz = (i + 1) * sz + sz := Nat.succ_mul (i + 1) sz
    rw [hsucc] at hoff hle
    have hpos : 0 < (i + 1) * sz := Nat.mul_pos (Nat.succ_pos i) (by omega)
    have henter : (m.setLong slot (slot + sz)).Kept ((slot, slot + sz) :: B) :=
      hB.enter (hoff.mono le_rfl (by omega)) (by omega)
    have hoff' : Book.Off ((slot, slot + sz) :: B) (slot + sz) ((i + 1) * sz) :=
      Book.off_cons.mpr ⟨Or.inl (Nat.add_le_add_left h4 slot),
        hoff.mono (Nat.le_add_right slot sz) (by omega)⟩
    have hstep := ih henter hoff' (by omega)
    refine hstep.of_subset fun e he => ?_
    rcases List.mem_append.mp he with he | he
    · rcases List.mem_cons.mp he with rfl | he
      · exact List.mem_append_right _ List.mem_cons_self
      · exact List.mem_append_left _ he
    · exact List.mem_append_right _ (List.mem_cons_of_mem _ he)

/-! ## The invariant -/

/-- **The blocks of a cache and what they keep.** -/
structure Stacked (k : Geometry) (w : World) (slabs : List Chunk) : Prop
    extends Spread k slabs where
  held : w.held.Perm (slabs.flatMap (Chunk.grants k))
  kept : w.mem.Kept (slabBook k slabs)

/-- **The slots of all slabs are the free list and the clients' objects**, each once. -/
structure Laid (s : State) (slabs : List Chunk) (fs : List ℕ) : Prop
    extends Stacked s.cache.toGeometry s.world slabs where
  head : s.cache.freeList = fs.headD 0
  first : s.cache.slabs = (slabs.map Chunk.node).headD 0
  free : s.world.mem.Kept (links fs 0)
  slots : (fs ++ s.live).Perm (allSlots s.cache.toGeometry slabs)

namespace Stacked

variable {k : Geometry} {w : World} {slabs : List Chunk} {s : Chunk} {g : Grant} {a n : ℕ}

theorem grant_held (h : Stacked k w slabs) (hs : s ∈ slabs) (hg : g ∈ s.grants k) : g ∈ w.held :=
  h.held.symm.subset (List.mem_flatMap.mpr ⟨s, hs, hg⟩)

/-- A place is in a block that is out. -/
theorem place_held (h : Stacked k w slabs) (hs : s ∈ slabs) (hp : s.Place k a) :
    ∃ g ∈ w.held, g.raw ≤ a ∧ a + 4 ≤ g.raw + g.size := by
  obtain ⟨g, hg, hp⟩ := hp.held h.sized (h.within s hs)
  exact ⟨g, h.grant_held hs hg, hp⟩

/-- A slot is in a block that is out. -/
theorem slot_held (h : Stacked k w slabs) (ha : a ∈ allSlots k slabs) :
    ∃ g ∈ w.held, g.raw ≤ a ∧ a + k.objSize ≤ g.raw + g.size := by
  obtain ⟨s, hs, hlow, hhigh⟩ := Spread.slot_within ha
  obtain ⟨hdata, hend, -⟩ := Chunk.data_spec h.sized (h.within s hs).data_le
  refine ⟨_, h.grant_held hs (List.mem_cons_of_mem _ List.mem_cons_self), ?_, ?_⟩
  · change s.rawData ≤ a
    omega
  · change a + k.objSize ≤ s.rawData + k.total
    omega

end Stacked

namespace Laid

variable {s : State} {slabs : List Chunk} {fs : List ℕ} {p a n : ℕ}

theorem mem_slots (h : Laid s slabs fs) (hp : p ∈ fs ∨ p ∈ s.live) :
    p ∈ allSlots s.cache.toGeometry slabs :=
  h.slots.subset (List.mem_append.mpr hp)

theorem nodup (h : Laid s slabs fs) : (fs ++ s.live).Nodup :=
  h.slots.nodup_iff.mpr h.toSpread.slots_nodup

theorem ne_zero (h : Laid s slabs fs) : ∀ p ∈ fs, p ≠ 0 := fun _ hp =>
  (h.toSpread.slot_address (h.mem_slots (Or.inl hp))).1

/-- The whole book: the links of the free list, and what the slabs keep. -/
def book (s : State) (slabs : List Chunk) (fs : List ℕ) : Book :=
  links fs 0 ++ slabBook s.cache.toGeometry slabs

theorem keptBook (h : Laid s slabs fs) : s.world.mem.Kept (book s slabs fs) :=
  Block.kept_append.mpr ⟨h.free, h.kept⟩

/-- **No long of the book is in a client's object.** -/
theorem off_live (h : Laid s slabs fs) (hp : p ∈ s.live) :
    (book s slabs fs).Off p s.cache.objSize := by
  refine Book.off_append.mpr ⟨fun e he => ?_, h.toSpread.off_slot (h.mem_slots (Or.inr hp))⟩
  have hmem := mem_of_mem_links he
  have hne : e.1 ≠ p := (List.nodup_append.mp h.nodup).2.2 e.1 hmem p hp
  exact (h.toSpread.slots_apart (h.mem_slots (Or.inl hmem)) (h.mem_slots (Or.inr hp)) hne).mono
    le_rfl (Nat.add_le_add_left h.sized.four_le _) le_rfl le_rfl

/-- Every long of the book is in a block that is out. -/
theorem housed (h : Laid s slabs fs) : Housed s.world.held (book s slabs fs) := by
  intro e he
  rcases List.mem_append.mp he with he | he
  · obtain ⟨g, hg, hlow, hhigh⟩ :=
      h.toStacked.slot_held (h.mem_slots (Or.inl (mem_of_mem_links he)))
    have := h.sized.four_le
    exact ⟨g, hg, hlow, by omega⟩
  · obtain ⟨c, hc, hp⟩ := h.toSpread.places he
    exact h.toStacked.place_held hc hp

/-- **A write** inside the clients' objects or outside all blocks. -/
theorem write (h : Laid s slabs fs) {m : Block}
    (hm : ∀ i, Holds s.world.held i → ¬s.Client i → m i = s.world.mem i) :
    Laid ⟨s.cache, { s.world with mem := m }, s.live⟩ slabs fs := by
  have hkept : m.Kept (book s slabs fs) := h.keptBook.congr fun e he i hi hi' => by
    obtain ⟨g, hg, hlow, hhigh⟩ := h.housed e he
    refine hm i ⟨g, hg, by omega, by omega⟩ ?_
    rintro ⟨p, hp, hpi, hpi'⟩
    rcases h.off_live hp e he with hoff | hoff <;> omega
  obtain ⟨hfree, hslabs⟩ := Block.kept_append.mp hkept
  exact { h with kept := hslabs, free := hfree }

/-- **The first free object is handed out.** -/
theorem pop (h : Laid s slabs (p :: fs)) :
    Laid ⟨{ s.cache with freeList := s.world.mem.long p }, s.world, p :: s.live⟩ slabs fs := by
  obtain ⟨hlink, hfree⟩ := Block.kept_cons.mp h.free
  exact { h with head := hlink, free := hfree, slots := List.perm_middle.trans h.slots }

theorem freeList_lt (h : Laid s slabs fs) : s.cache.freeList < 2 ^ 32 := by
  rw [h.head]
  cases fs with
  | nil => decide
  | cons q fs =>
    have := (h.toSpread.slot_address (h.mem_slots (Or.inl List.mem_cons_self))).2
    have := h.sized.pos
    change q < 2 ^ 32
    omega

theorem slabs_lt (h : Laid s slabs fs) : s.cache.slabs < 2 ^ 32 := by
  rw [h.first]
  cases slabs with
  | nil => decide
  | cons c slabs =>
    have := (h.within c List.mem_cons_self).node_le
    change c.rawNode + 4 < 2 ^ 32
    omega

/-- **An object is freed.** -/
theorem push (h : Laid s slabs fs) (hp : p ∈ s.live) :
    Laid ⟨(slabFree p s.cache s.world).1, (slabFree p s.cache s.world).2, s.live.erase p⟩ slabs
      (p :: fs) := by
  have hkept := h.keptBook.enter ((h.off_live hp).mono le_rfl
    (Nat.add_le_add_left h.sized.four_le p)) h.freeList_lt
  obtain ⟨hlink, hbook⟩ := Block.kept_cons.mp hkept
  obtain ⟨hfree, hslabs⟩ := Block.kept_append.mp hbook
  have hslots : (p :: fs ++ s.live.erase p).Perm (fs ++ s.live) :=
    List.perm_middle.symm.trans ((List.perm_cons_erase hp).symm.append_left fs)
  exact { h with
    kept := hslabs, head := rfl, free := Block.kept_cons.mpr ⟨hlink.trans h.head, hfree⟩
    slots := hslots.trans h.slots }

/-- **An object is cleared**, once it is the client's. -/
theorem zeroed (h : Laid s slabs fs) (hp : p ∈ s.live) :
    Laid ⟨s.cache, { s.world with mem := zero p s.cache.objSize s.world.mem }, s.live⟩ slabs fs :=
  h.write fun _ _ hclient => if_neg fun hi => hclient ⟨p, hp, hi⟩

/-! ### A new slab -/

/-- A slab in fresh blocks is apart from those there are. -/
theorem spread (h : Laid s slabs fs) {c : Chunk} (hn : Fresh s.world.held c.rawNode 12)
    (hd : Fresh (⟨.metaPool, c.rawNode, 12⟩ :: s.world.held) c.rawData s.cache.total) :
    Spread s.cache.toGeometry (c :: slabs) := by
  have hown : Apart c.rawNode 12 c.rawData s.cache.total := hd.2.2 _ List.mem_cons_self
  refine ⟨h.sized, fun d hmem => ?_, List.pairwise_cons.mpr ⟨fun d hmem g hg g' hg' => ?_, h.clear⟩⟩
  · rcases List.mem_cons.mp hmem with rfl | hmem
    · exact ⟨hn.1, hn.2.1, hd.1, hd.2.1, hown⟩
    · exact h.within d hmem
  · have hheld := h.toStacked.grant_held hmem hg'
    rcases List.mem_cons.mp hg with rfl | hg
    · exact (hn.2.2 g' hheld).symm
    · obtain rfl := List.mem_singleton.mp hg
      exact (hd.2.2 g' (List.mem_cons_of_mem _ hheld)).symm

/-- **What a new slab's memory has**: its slots linked up to the free list, its node, and whatever
was there before. -/
theorem grown_kept (h : Laid s slabs fs) {c : Chunk} (hn : Fresh s.world.held c.rawNode 12)
    (hd : Fresh (⟨.metaPool, c.rawNode, 12⟩ :: s.world.held) c.rawData s.cache.total) {m : Block}
    (hm : m.Kept (dataBook s.cache.toGeometry c ++ (c.rawNode, 12) :: book s slabs fs)) :
    (thread s.cache.objSize s.cache.freeList (s.cache.slabCapacity - 1)
      (c.data s.cache.toGeometry)
        ((m.setLong (c.node + 4) (c.data s.cache.toGeometry)).setLong c.node
        s.cache.slabs)).Kept
      (links (row s.cache.objSize (s.cache.slabCapacity - 1 + 1) (c.data s.cache.toGeometry))
          s.cache.freeList ++
        ((c.node, s.cache.slabs) :: (c.node + 4, c.data s.cache.toGeometry) ::
          (dataBook s.cache.toGeometry c ++ (c.rawNode, 12) :: book s slabs fs))) := by
  obtain ⟨hlow, hhigh, -⟩ := Chunk.data_spec h.sized hd.2.1
  generalize hdata : c.data s.cache.toGeometry = data at hlow hhigh ⊢
  have hle := hd.2.1
  have hraw := hd.1
  have hown : Apart c.rawNode 12 c.rawData s.cache.total := hd.2.2 _ List.mem_cons_self
  have hpos := h.sized.span_pos
  have hoffN := h.housed.off hn
  have hoffD := (h.housed.mono (List.subset_cons_self _ _)).off hd
  have hfront : ∀ e ∈ dataBook s.cache.toGeometry c, c.rawData ≤ e.1 ∧ e.1 + 4 ≤ data :=
    fun e he => hdata ▸ dataBook_within h.sized hle he
  -- the node
  have hoff₁ : Book.Off (dataBook s.cache.toGeometry c ++ (c.rawNode, 12) :: book s slabs fs)
      c.node 8 := by
    refine Book.off_append.mpr ⟨fun e he => ?_, Book.off_cons.mpr ⟨Or.inl le_rfl, ?_⟩⟩
    · obtain ⟨hfe, hfe'⟩ := hfront e he
      exact hown.symm.mono hfe (by omega) (Nat.le_add_right _ _) (by rw [Chunk.node])
    · exact hoffN.mono (Nat.le_add_right _ _) (by rw [Chunk.node])
  have h₂ := hm.enter (hoff₁.mono (Nat.le_add_right _ 4) (by omega)) (v := data) (by omega)
  have h₃ := h₂.enter (Book.off_cons.mpr ⟨Or.inr le_rfl, hoff₁.mono le_rfl (by omega)⟩) h.slabs_lt
  -- the row of slots
  have hspan : (s.cache.slabCapacity - 1 + 1) * s.cache.objSize = s.cache.span := by
    rw [Nat.sub_add_cancel h.sized.capacity, Nat.mul_comm]
    rfl
  have hoff₃ : Book.Off ((c.node, s.cache.slabs) :: (c.node + 4, data) ::
      (dataBook s.cache.toGeometry c ++ (c.rawNode, 12) :: book s slabs fs)) data s.cache.span := by
    have hnode : ∀ a, c.rawNode ≤ a → a + 4 ≤ c.rawNode + 12 → Apart a 4 data s.cache.span :=
      fun a ha ha' => hown.mono ha ha' (by omega) hhigh
    refine Book.off_cons.mpr ⟨hnode _ (Nat.le_add_right _ _) (by rw [Chunk.node]; omega),
      Book.off_cons.mpr ⟨hnode _ (by rw [Chunk.node]; omega) (by rw [Chunk.node]), ?_⟩⟩
    refine Book.off_append.mpr ⟨fun e he => Or.inl (hfront e he).2, Book.off_cons.mpr
      ⟨hnode _ le_rfl (by omega), hoffD.mono (by omega) hhigh⟩⟩
  exact thread_kept h.sized.four_le h.freeList_lt (s.cache.slabCapacity - 1) h₃
    (hspan.symm ▸ hoff₃) (by rw [hspan]; omega)

/-- **The new slab is cut up**: its first slot is the client's, the others go before the list. -/
theorem grown (h : Laid s slabs fs) {c : Chunk} (hn : Fresh s.world.held c.rawNode 12)
    (hd : Fresh (⟨.metaPool, c.rawNode, 12⟩ :: s.world.held) c.rawData s.cache.total) {m : Block}
    (hm : m.Kept (dataBook s.cache.toGeometry c ++ (c.rawNode, 12) :: book s slabs fs)) :
    let data := c.data s.cache.toGeometry
    let m' := thread s.cache.objSize s.cache.freeList (s.cache.slabCapacity - 1) data
      ((m.setLong (c.node + 4) data).setLong c.node s.cache.slabs)
    Laid ⟨{ s.cache with slabs := c.node, freeList := m'.long data },
        ⟨m', ⟨Chunk.source s.cache.toGeometry, c.rawData, s.cache.total⟩ ::
          ⟨.metaPool, c.rawNode, 12⟩ :: s.world.held⟩, data :: s.live⟩ (c :: slabs)
      (row s.cache.objSize (s.cache.slabCapacity - 1) (data + s.cache.objSize) ++ fs) := by
  intro data m'
  have hcap : s.cache.slabCapacity - 1 + 1 = s.cache.slabCapacity :=
    Nat.sub_add_cancel h.sized.capacity
  obtain ⟨hall, hrest⟩ := Block.kept_append.mp (h.grown_kept hn hd hm)
  obtain ⟨hfirst, hrow⟩ := Block.kept_cons.mp hall
  obtain ⟨hnode, hrest⟩ := Block.kept_cons.mp hrest
  obtain ⟨hdata, hrest⟩ := Block.kept_cons.mp hrest
  obtain ⟨hfrontKept, hrest⟩ := Block.kept_append.mp hrest
  obtain ⟨hraw, hbook⟩ := Block.kept_cons.mp hrest
  obtain ⟨hfree, hslabs⟩ := Block.kept_append.mp hbook
  obtain ⟨hnodes, hbooks⟩ := Block.kept_append.mp hslabs
  have hrowEq : row s.cache.objSize s.cache.slabCapacity data = data ::
      row s.cache.objSize (s.cache.slabCapacity - 1) (data + s.cache.objSize) := by
    rw [← hcap]
    rfl
  have hheld : (⟨Chunk.source s.cache.toGeometry, c.rawData, s.cache.total⟩ ::
      ⟨.metaPool, c.rawNode, 12⟩ :: s.world.held).Perm
        ((c :: slabs).flatMap (Chunk.grants s.cache.toGeometry)) :=
    (List.Perm.swap _ _ _).trans (h.held.append_left (c.grants s.cache.toGeometry))
  have hslabs : m'.Kept (slabBook s.cache.toGeometry (c :: slabs)) := by
    refine Block.kept_append.mpr ⟨Block.kept_cons.mpr ⟨hnode.trans h.first, hnodes⟩, ?_⟩
    refine Block.kept_append.mpr ⟨?_, hbooks⟩
    exact Block.kept_cons.mpr ⟨hraw, Block.kept_cons.mpr ⟨hdata, hfrontKept⟩⟩
  refine ⟨⟨h.spread hn hd, hheld, hslabs⟩, ?head, rfl, ?free, ?slots⟩
  case head =>
    refine hfirst.trans ?_
    rw [h.head]
    cases row s.cache.objSize (s.cache.slabCapacity - 1) (data + s.cache.objSize) <;> rfl
  case free =>
    rw [links_append, ← h.head]
    exact Block.kept_append.mpr ⟨hrow, hfree⟩
  case slots =>
    refine List.perm_middle.trans ?_
    rw [List.append_assoc, ← List.cons_append, ← hrowEq]
    exact h.slots.append_left _

/-- **A call is served**: it returns, with an object or with the cache and its blocks as they were,
and the slots are laid out again. -/
def Served (s : State) (x : Option (Option ℕ × Cache × World)) : Prop :=
  ∃ r c w, x = some (r, c, w) ∧ (r = none → c = s.cache ∧ w.held = s.world.held) ∧
    c.toGeometry = s.cache.toGeometry ∧ ∃ slabs fs, Laid ⟨c, w, r.toList ++ s.live⟩ slabs fs

theorem grow (h : Laid s slabs fs) (P : Pools) : Served s (slabGrow P s.cache s.world) := by
  rw [slabGrow]
  obtain ⟨m₁, hm₁, hnode | ⟨raw, hn, hnode⟩⟩ :=
    poolAlloc_cases P (by decide : 8 + 4 < 2 ^ 32) s.world
  · simp only [hnode]
    exact ⟨none, s.cache, _, rfl, fun _ => ⟨rfl, rfl⟩, rfl, slabs, fs,
      h.write fun i hi _ => hm₁ i hi⟩
  simp only [hnode]
  -- the size of the node's block is entered
  have hbook : (m₁.setLong raw 12).Kept ((raw, 12) :: book s slabs fs) :=
    (h.housed.kept hm₁ h.keptBook).enter ((h.housed.off hn).mono le_rfl (by omega)) (by decide)
  have hhoused : Housed (⟨.metaPool, raw, 12⟩ :: s.world.held) ((raw, 12) :: book s slabs fs) :=
    List.forall_mem_cons.mpr ⟨⟨_, List.mem_cons_self, le_rfl, by change raw + 4 ≤ raw + 12; omega⟩,
      h.housed.mono (List.subset_cons_self _ _)⟩
  obtain ⟨m₂, ⟨hm₂, hdata⟩ | ⟨rawData, hd, hdata, hm₂⟩⟩ := dataAlloc_cases P h.sized
    ⟨m₁.setLong raw 12, ⟨.metaPool, raw, 12⟩ :: s.world.held⟩ raw
  · -- the node goes back, and what was written is in no block that was out before
    have hsize : m₂.long raw = 12 := (Block.kept_cons.mp (hhoused.kept hm₂ hbook)).1
    have hfree : P.poolFree (raw + 4) ⟨m₂, ⟨.metaPool, raw, 12⟩ :: s.world.held⟩ =
        some ⟨P.given ⟨.metaPool, raw, 12⟩ ⟨m₂, ⟨.metaPool, raw, 12⟩ :: s.world.held⟩,
          s.world.held⟩ := by
      rw [Pools.poolFree, if_neg (Nat.succ_ne_zero _), Nat.add_sub_cancel, hsize,
        give_eq P List.mem_cons_self, List.erase_cons_head]
    rw [dataAlloc] at hdata
    simp only [hdata, hfree, Option.map_some]
    refine ⟨none, s.cache, _, rfl, fun _ => ⟨rfl, rfl⟩, rfl, slabs, fs, h.write fun i hi _ => ?_⟩
    have hgiven := P.given_agree ⟨.metaPool, raw, 12⟩ ⟨m₂, ⟨.metaPool, raw, 12⟩ :: s.world.held⟩
    rw [List.erase_cons_head] at hgiven
    obtain ⟨g, hg, hin⟩ := hi
    calc P.given ⟨.metaPool, raw, 12⟩ ⟨m₂, ⟨.metaPool, raw, 12⟩ :: s.world.held⟩ i
        = m₂ i := hgiven i ⟨g, hg, hin⟩
      _ = m₁.setLong raw 12 i := hm₂ i ⟨g, List.mem_cons_of_mem _ hg, hin⟩
      _ = m₁ i := agree_setLong hn le_rfl (by omega) i ⟨g, hg, hin⟩
      _ = s.world.mem i := hm₁ i ⟨g, hg, hin⟩
  · rw [dataAlloc] at hdata
    simp only [hdata]
    exact ⟨_, _, _, rfl, fun hr => (Option.some_ne_none _ hr).elim, rfl, _, _,
      h.grown (c := ⟨raw, rawData⟩) hn hd (hm₂ _ hbook hhoused)⟩

/-- `slab_alloc` takes the first free object, or grows. -/
theorem alloc (h : Laid s slabs fs) (P : Pools) : Served s (slabAlloc P s.cache s.world) := by
  rw [slabAlloc]
  cases fs with
  | nil =>
    have hempty : s.cache.freeList = 0 := h.head
    rw [if_neg (not_not.mpr hempty)]
    exact h.grow P
  | cons p fs =>
    have hne : s.cache.freeList ≠ 0 := h.head ▸ h.ne_zero p List.mem_cons_self
    have hhead : s.cache.freeList = p := h.head
    rw [if_pos hne, hhead]
    exact ⟨some p, _, _, rfl, fun hr => (Option.some_ne_none p hr).elim, rfl, slabs, fs, h.pop⟩

/-- `slab_zalloc` clears what it got. -/
theorem zalloc (h : Laid s slabs fs) (P : Pools) : Served s (slabZalloc P s.cache s.world) := by
  obtain ⟨r, c, w, hcall, hnone, hk, slabs', fs', hlaid⟩ := h.alloc P
  rw [slabZalloc, hcall, Option.map_some]
  cases r with
  | none => exact ⟨none, c, w, rfl, hnone, hk, slabs', fs', hlaid⟩
  | some p =>
    exact ⟨some p, c, _, rfl, fun hr => (Option.some_ne_none p hr).elim, hk, slabs', fs',
      hlaid.zeroed List.mem_cons_self⟩

end Laid

/-! ## Runs -/

/-- The slots of a state's slabs are its free list and its clients' objects. -/
def Partitioned (s : State) : Prop := ∃ slabs fs, Laid s slabs fs

/-- A call that is served leaves what it returns to a step. -/
theorem partitioned_of_served {s : State} {x : Option (Option ℕ × Cache × World)} {r : Option ℕ}
    {c : Cache} {w : World} (h : Laid.Served s x) (hx : x = some (r, c, w)) :
    c.toGeometry = s.cache.toGeometry ∧ Partitioned ⟨c, w, r.toList ++ s.live⟩ := by
  obtain ⟨r', c', w', hcall, -, hk, hlaid⟩ := h
  obtain ⟨rfl, rfl, rfl⟩ : r' = r ∧ c' = c ∧ w' = w := by
    have := Option.some.inj (hcall.symm.trans hx)
    exact ⟨congrArg Prod.fst this, congrArg (·.2.1) this, congrArg (·.2.2) this⟩
  exact ⟨hk, hlaid⟩

/-- **One step** keeps the geometry and the partition. -/
theorem partitioned_of_step {s s' : State} (h : Partitioned s) (hstep : Step s s') :
    s'.cache.toGeometry = s.cache.toGeometry ∧ Partitioned s' := by
  obtain ⟨slabs, fs, h⟩ := h
  cases hstep with
  | alloc P hcall => exact partitioned_of_served (h.alloc P) hcall
  | zalloc P hcall => exact partitioned_of_served (h.zalloc P) hcall
  | grow P hcall => exact partitioned_of_served (h.grow P) hcall
  | free hp => exact ⟨rfl, slabs, _, h.push hp⟩
  | write m hm => exact ⟨rfl, slabs, fs, h.write hm⟩

/-- **A run** keeps them. -/
theorem partitioned_of_run {s s' : State} (h : Partitioned s)
    (hrun : Relation.ReflTransGen Step s s') :
    s'.cache.toGeometry = s.cache.toGeometry ∧ Partitioned s' := by
  induction hrun with
  | refl => exact ⟨rfl, h⟩
  | tail _ hstep ih =>
    obtain ⟨hk, hlaid⟩ := partitioned_of_step ih.2 hstep
    exact ⟨hk.trans ih.1, hlaid⟩

/-- The cache has no slabs yet. -/
theorem partitioned_of_sized {c : Cache} (hk : c.Sized) (hfree : c.freeList = 0)
    (hslabs : c.slabs = 0) (mem : Block) : Partitioned ⟨c, ⟨mem, []⟩, []⟩ :=
  have hspread : Spread c.toGeometry [] := ⟨hk, nofun, .nil⟩
  ⟨[], [], ⟨hspread, .nil, nofun⟩, hfree, hslabs, nofun, .nil⟩

/-- The least of two powers of two that is no less than one of them. -/
theorem raised {a least : ℕ} (ha : ∃ i, a = 2 ^ i) (hleast : ∃ i, least = 2 ^ i) :
    (∃ i, (if a < least then least else a) = 2 ^ i) ∧ least ≤ if a < least then least else a := by
  split
  · exact ⟨hleast, le_rfl⟩
  · exact ⟨ha, by omega⟩

/-- **An initialised cache**, when its sizes fit 32 bits: objects no shorter than asked for. -/
theorem init_sized {dmaPool : Bool} {objSize objAlign slabCapacity : ℕ} {c : Cache}
    (hc : c = slabCacheInit dmaPool objSize objAlign slabCapacity)
    (halign : ∃ i, objAlign = 2 ^ i) (hsize : 0 < objSize)
    (hround : objSize + (c.objAlign - 1) < 2 ^ 32)
    (hspan : c.objSize * c.slabCapacity + (if dmaPool then c.objAlign - 1 + 8 else 4) <
      2 ^ 32) :
    c.Sized ∧ objSize ≤ c.objSize := by
  have hdma : c.dmaPool = dmaPool := by rw [hc]; rfl
  have hleast : ∃ i, (if dmaPool then DMA_ALIGN_MIN else 4) = 2 ^ i := by
    cases dmaPool
    · exact ⟨2, rfl⟩
    · exact ⟨6, rfl⟩
  have hmin : c.objAlign = if objAlign < if dmaPool then DMA_ALIGN_MIN else 4 then
      if dmaPool then DMA_ALIGN_MIN else 4 else objAlign := by rw [hc]; rfl
  obtain ⟨halign', hge⟩ := raised halign hleast
  rw [← hmin] at halign' hge
  have hobj : c.objSize = alignMask objSize (c.objAlign - 1) := by rw [hc]; rfl
  obtain ⟨hdvd, hle, -⟩ := align_mask_spec halign' hround
  rw [← hobj] at hdvd hle
  refine ⟨⟨halign', hdma.symm ▸ hge, hdvd, hsize.trans_le hle, ?_, hdma.symm ▸ hspan⟩, hle⟩
  · have hcap : c.slabCapacity = if slabCapacity = 0 then
        if SLAB_DEFAULT_SIZE / c.objSize < 4 then 4 else SLAB_DEFAULT_SIZE / c.objSize
      else slabCapacity := by rw [hc]; rfl
    rw [hcap]
    split
    · split <;> omega
    · omega

/-! ## The end -/

section Destroy

variable (P : Pools) {k : Geometry} {w : World} {c : Chunk} {slabs : List Chunk} {g : Grant}

/-- The books of slabs are in their blocks. -/
theorem Spread.housed (h : Spread k slabs) :
    Housed (slabs.flatMap (Chunk.grants k)) (slabBook k slabs) := by
  intro e he
  obtain ⟨d, hd, hp⟩ := h.places he
  obtain ⟨g, hg, hin⟩ := hp.held h.sized (h.within d hd)
  exact ⟨g, List.mem_flatMap.mpr ⟨d, hd, hg⟩, hin⟩

/-- **The data of a slab** is given back to the pool it is from. -/
theorem data_free_eq (hk : k.Sized) (hle : c.rawData + k.total ≤ 2 ^ 32)
    (hbook : w.mem.Kept (c.books k)) :
    (if k.dmaPool then P.dmaFree (c.data k) w else P.poolFree (c.data k) w) =
      P.give ⟨Chunk.source k, c.rawData, k.total⟩ w := by
  obtain ⟨hlow, -, -⟩ := Chunk.data_spec hk hle
  have hne : c.data k ≠ 0 := by omega
  obtain ⟨-, hbook⟩ := Block.kept_cons.mp hbook
  obtain ⟨-, hbook⟩ := Block.kept_cons.mp hbook
  obtain ⟨htotal, hback⟩ := Block.kept_cons.mp hbook
  cases hd : k.dmaPool with
  | true =>
    rw [hd, if_pos rfl] at hback
    have hraw : w.mem.long (c.data k - 4) = c.rawData :=
      hback (c.data k - 4, c.rawData) List.mem_cons_self
    have hsize : w.mem.long c.rawData = k.total := htotal
    rw [if_pos rfl, Pools.dmaFree, if_neg hne]
    dsimp only
    rw [hraw, hsize, Chunk.source, hd, if_pos rfl]
  | false =>
    have hraw : c.data k - 4 = c.rawData := by
      rw [Chunk.data, hd, if_neg Bool.false_ne_true, Nat.add_sub_cancel]
    have hsize : w.mem.long c.rawData = k.total := htotal
    rw [if_neg Bool.false_ne_true, Pools.poolFree, if_neg hne, hraw, hsize, Chunk.source, hd,
      if_neg Bool.false_ne_true]

/-- **One slab is freed**: its data's block is given back, then its node's. -/
theorem free_slab (h : Stacked k w (c :: slabs)) : ∃ w₁ w₂,
    (if k.dmaPool then P.dmaFree (c.data k) w else P.poolFree (c.data k) w) = some w₁ ∧
      P.poolFree c.node w₁ = some w₂ ∧ Stacked k w₂ slabs := by
  have hwithin := h.within c List.mem_cons_self
  have hne : c.node ≠ 0 := Nat.succ_ne_zero _
  obtain ⟨hnodes, hbooks⟩ := Block.kept_append.mp h.kept
  obtain ⟨-, hnodes⟩ := Block.kept_cons.mp hnodes
  obtain ⟨hbook, hbooks⟩ := Block.kept_append.mp hbooks
  have hraw : w.mem.long c.rawNode = 12 := hbook (c.rawNode, 12) List.mem_cons_self
  -- the data
  let gd : Grant := ⟨Chunk.source k, c.rawData, k.total⟩
  let gn : Grant := ⟨.metaPool, c.rawNode, 12⟩
  have hheld : w.held.Perm (gd :: gn :: slabs.flatMap (Chunk.grants k)) :=
    h.held.trans (List.Perm.swap _ _ _)
  have hgd : gd ∈ w.held := hheld.symm.subset List.mem_cons_self
  have hheld₁ : (w.held.erase gd).Perm (gn :: slabs.flatMap (Chunk.grants k)) := by
    have := hheld.erase gd
    rwa [List.erase_cons_head] at this
  let w₁ : World := ⟨P.given gd w, w.held.erase gd⟩
  -- the node
  have hgn : gn ∈ w₁.held := hheld₁.symm.subset List.mem_cons_self
  have hraw₁ : w₁.mem.long c.rawNode = 12 := by
    refine (Block.long_congr fun i hi hi' => P.given_agree gd w i ⟨gn, hgn, hi, ?_⟩).trans hraw
    change i < gn.raw + 12
    omega
  have hheld₂ : (w₁.held.erase gn).Perm (slabs.flatMap (Chunk.grants k)) := by
    have := hheld₁.erase gn
    rwa [List.erase_cons_head] at this
  let w₂ : World := ⟨P.given gn w₁, w₁.held.erase gn⟩
  refine ⟨w₁, w₂, (data_free_eq P h.sized hwithin.data_le hbook).trans (give_eq P hgd), ?_, ?_⟩
  · rw [Pools.poolFree, if_neg hne, Chunk.node, Nat.add_sub_cancel, hraw₁]
    exact give_eq P hgn
  · have htail : Spread k slabs := ⟨h.sized, fun d hd => h.within d (List.mem_cons_of_mem c hd),
      (List.pairwise_cons.mp h.clear).2⟩
    have hhoused : Housed w₂.held (slabBook k slabs) := htail.housed.mono hheld₂.symm.subset
    have hkept : w.mem.Kept (slabBook k slabs) := Block.kept_append.mpr ⟨hnodes, hbooks⟩
    have hkept₁ := (hhoused.mono List.erase_subset).kept (P.given_agree gd w) hkept
    exact ⟨htail, hheld₂, hhoused.kept (P.given_agree gn w₁) hkept₁⟩

/-- **`slab_cache_destroy`** gives back, once, every block that is out, each to its own pool. -/
theorem destroyFrom_spec (h : Stacked k w slabs) {n : ℕ} (hn : slabs.length < n) :
    ∃ w', destroyFrom P k.dmaPool n ((slabs.map Chunk.node).headD 0) w = some w' ∧
      w'.held = [] := by
  induction slabs generalizing n w with
  | nil =>
    obtain ⟨n, rfl⟩ := Nat.exists_eq_succ_of_ne_zero (Nat.ne_of_gt hn)
    exact ⟨w, rfl, h.held.eq_nil⟩
  | cons c slabs ih =>
    obtain ⟨n, rfl⟩ := Nat.exists_eq_succ_of_ne_zero (Nat.ne_of_gt (Nat.zero_lt_of_lt hn))
    have hne : c.node ≠ 0 := Nat.succ_ne_zero _
    obtain ⟨hnodes, hbooks⟩ := Block.kept_append.mp h.kept
    have hnext : w.mem.long c.node = (slabs.map Chunk.node).headD 0 :=
      (Block.kept_cons.mp hnodes).1
    have hdata : w.mem.long (c.node + 4) = c.data k := (Block.kept_append.mp hbooks).1
      (c.node + 4, c.data k) (List.mem_cons_of_mem _ List.mem_cons_self)
    obtain ⟨w₁, w₂, hfree₁, hfree₂, hrest⟩ := free_slab P h
    obtain ⟨w', hend, hempty⟩ := ih hrest (Nat.lt_of_succ_lt_succ hn)
    refine ⟨w', ?_, hempty⟩
    rw [List.map_cons, List.headD_cons, destroyFrom, if_neg hne]
    dsimp only
    rw [hdata, hfree₁, Option.bind_some, hfree₂, Option.bind_some, hnext, hend]

end Destroy

/-! ## Every object is handed out once -/

/-- Two objects on no common cache line. -/
def NoLineShared (p q n : ℕ) : Prop := ∀ i j, p ≤ i → i < p + n → q ≤ j → j < q + n →
  i / DMA_ALIGN_MIN ≠ j / DMA_ALIGN_MIN

/-- Whole lines that do not meet share none. -/
theorem noLineShared {p q n : ℕ} (hp : DMA_ALIGN_MIN ∣ p) (hq : DMA_ALIGN_MIN ∣ q)
    (hn : DMA_ALIGN_MIN ∣ n) (h : Apart p n q n) : NoLineShared p q n := by
  intro i j hi hi' hj hj' hij
  rw [DMA_ALIGN_MIN] at hp hq hn hij
  obtain ⟨a, rfl⟩ := hp
  obtain ⟨b, rfl⟩ := hq
  obtain ⟨c, rfl⟩ := hn
  rcases h with h | h <;> omega

/-- The slots of a DMA slab start on a cache line. -/
theorem dvd_slot {k : Geometry} {slabs : List Chunk} (h : Spread k slabs) (hd : k.dmaPool = true)
    {p : ℕ} (hp : p ∈ allSlots k slabs) : DMA_ALIGN_MIN ∣ p := by
  obtain ⟨c, hc, hp⟩ := List.mem_flatMap.mp hp
  obtain ⟨i, -, rfl⟩ := mem_row.mp hp
  have hmin := (lines_of_align h.sized.align (h.sized.request hd) (h.sized.min_le hd)).1
  have hdata := (Chunk.data_spec h.sized (h.within c hc).data_le).2.2 hd
  exact Nat.dvd_add (hmin.trans hdata.2) ((hmin.trans h.sized.multiple).mul_left i)

/-- A call returns; with nothing, the cache and the blocks of its pools are as they were. -/
def Returns (s : State) (x : Option (Option ℕ × Cache × World)) : Prop :=
  ∃ r c w, x = some (r, c, w) ∧ (r = none → c = s.cache ∧ w.held = s.world.held)

theorem Laid.Served.returns {s : State} {x : Option (Option ℕ × Cache × World)}
    (h : Laid.Served s x) : Returns s x := by
  obtain ⟨r, c, w, hcall, hnone, -⟩ := h
  exact ⟨r, c, w, hcall, hnone⟩

/-- **The slab allocator hands out each object once.**  In every state of every run of a cache, the
free list and the clients' objects are the slots of the slabs, each once; the objects are apart, in
their slab's data, and on lines of their own if that is DMA memory; a call that fails changes
neither the cache nor its blocks; and the cache, destroyed, gives back every block it holds. -/
theorem objects_handed_out_once {dmaPool : Bool} {objSize objAlign slabCapacity : ℕ} {c : Cache}
    (hc : c = slabCacheInit dmaPool objSize objAlign slabCapacity)
    (halign : ∃ i, objAlign = 2 ^ i) (hsize : 0 < objSize)
    (hround : objSize + (c.objAlign - 1) < 2 ^ 32)
    (hspan : c.objSize * c.slabCapacity + (if dmaPool then c.objAlign - 1 + 8 else 4) < 2 ^ 32)
    (mem : Block) {s : State} (hrun : Relation.ReflTransGen Step ⟨c, ⟨mem, []⟩, []⟩ s) :
    objSize ≤ c.objSize ∧ ∃ slabs fs,
      -- the slabs of the cache, and the blocks it holds
      (Path s.world.mem.next s.cache.slabs 0 (slabs.map Chunk.node) ∧
        (∀ d ∈ slabs, s.world.mem.long (d.node + 4) = d.data c.toGeometry) ∧
        s.world.held.Perm (slabs.flatMap (Chunk.grants c.toGeometry))) ∧
      -- the free list, and the slots
      (Path s.world.mem.next s.cache.freeList 0 fs ∧ (fs ++ s.live).Nodup ∧
        (fs ++ s.live).Perm (allSlots c.toGeometry slabs)) ∧
      -- the objects
      (s.live.Pairwise (fun p q => Apart p c.objSize q c.objSize) ∧
        (∀ p ∈ s.live, ∃ d ∈ slabs, d.data c.toGeometry ≤ p ∧
          p + c.objSize ≤ d.data c.toGeometry + c.objSize * c.slabCapacity) ∧
        (dmaPool = true → s.live.Pairwise fun p q => NoLineShared p q c.objSize)) ∧
      -- the calls, and the end
      (∀ P : Pools, Returns s (slabAlloc P s.cache s.world) ∧
        Returns s (slabZalloc P s.cache s.world) ∧ Returns s (slabGrow P s.cache s.world)) ∧
      ∀ (P : Pools) (n : ℕ), slabs.length < n → ∃ w, slabCacheDestroy P n s.cache s.world =
        some ({ s.cache with freeList := 0, slabs := 0 }, w) ∧ w.held = [] := by
  obtain ⟨hsized, hle⟩ := init_sized hc halign hsize hround hspan
  have hdma : c.dmaPool = dmaPool := by rw [hc]; rfl
  obtain ⟨hk, slabs, fs, h⟩ := partitioned_of_run
    (partitioned_of_sized hsized (by rw [hc]; rfl) (by rw [hc]; rfl) mem) hrun
  have hk : s.cache.toGeometry = c.toGeometry := hk
  have hobj : s.cache.objSize = c.objSize := congrArg Geometry.objSize hk
  have hspread : Spread c.toGeometry slabs := hk ▸ h.toSpread
  have hslots : ∀ p ∈ s.live, p ∈ allSlots c.toGeometry slabs :=
    fun p hp => hk ▸ h.mem_slots (Or.inr hp)
  obtain ⟨hnodes, hbooks⟩ := Block.kept_append.mp h.kept
  have hapart : s.live.Pairwise fun p q => Apart p c.objSize q c.objSize :=
    (List.nodup_append.mp h.nodup).2.1.imp_of_mem fun hp hq hne =>
      hspread.slots_apart (hslots _ hp) (hslots _ hq) hne
  refine ⟨hle, slabs, fs, ⟨?nodes, fun d hd => ?_, hk ▸ h.held⟩,
    ⟨?free, h.nodup, hk ▸ h.slots⟩, ⟨hapart, fun p hp => ?_, fun hd => ?lines⟩,
    fun P => ⟨(h.alloc P).returns, (h.zalloc P).returns, (h.grow P).returns⟩, fun P n hn => ?_⟩
  case nodes =>
    rw [h.first]
    refine path_of_kept hnodes fun a ha => ?_
    obtain ⟨d, -, rfl⟩ := List.mem_map.mp ha
    exact Nat.succ_ne_zero _
  case free =>
    rw [h.head]
    exact path_of_kept h.free h.ne_zero
  case lines =>
    have hd' : c.dmaPool = true := hdma.trans hd
    have hmin := (lines_of_align hsized.align (hsized.request hd') (hsized.min_le hd')).1
    exact hapart.imp_of_mem fun hp hq => noLineShared (dvd_slot hspread hd' (hslots _ hp))
      (dvd_slot hspread hd' (hslots _ hq)) (hmin.trans hsized.multiple)
  · have hdata := hbooks (d.node + 4, d.data s.cache.toGeometry) (List.mem_flatMap.mpr
      ⟨d, hd, List.mem_cons_of_mem _ List.mem_cons_self⟩)
    rwa [hk] at hdata
  · obtain ⟨d, hd, hlow, hhigh⟩ := Spread.slot_within (hslots p hp)
    exact ⟨d, hd, hlow, hhigh⟩
  · obtain ⟨w, hend, hempty⟩ := destroyFrom_spec P h.toStacked hn
    refine ⟨w, ?_, hempty⟩
    rw [slabCacheDestroy, h.first, hend, Option.map_some]

/-! ## A cache in use -/

instance (a n b k : ℕ) : Decidable (Apart a n b k) := inferInstanceAs (Decidable (_ ∨ _))

instance (held : List Grant) (raw n : ℕ) : Decidable (Fresh held raw n) :=
  inferInstanceAs (Decidable (_ ∧ _ ∧ _))

/-- Pools that hand out one block behind the other, 64K apart. -/
def rowOfBlocks : Pools where
  ask _ n w :=
    let raw := (w.held.length + 1) * 0x10000
    if Fresh w.held raw n then some raw else none
  asked _ _ w := w.mem
  given _ w := w.mem
  fresh _ _ _ _ h := by
    dsimp only at h
    split at h
    · rename_i hf
      exact Option.some.inj h ▸ hf
    · exact absurd h.symm (Option.some_ne_none _)
  asked_agree _ _ _ _ _ := rfl
  given_agree _ _ _ _ := rfl

/-- The state after an allocation. -/
def State.alloced (P : Pools) (s : State) : State :=
  ((slabAlloc P s.cache s.world).map fun x => ⟨x.2.1, x.2.2, x.1.toList ++ s.live⟩).getD s

theorem State.step_alloced {P : Pools} {s : State} (h : (slabAlloc P s.cache s.world).isSome) :
    Step s (s.alloced P) := by
  obtain ⟨⟨r, c, w⟩, hx⟩ := Option.isSome_iff_exists.mp h
  rw [State.alloced, hx]
  exact .alloc P hx

/-- A slab of two objects: both are handed out, one comes back, and the cache is destroyed. -/
theorem objects_handed_out_once_twice : ∃ (s : State) (slabs : List Chunk) (fs : List ℕ),
    Relation.ReflTransGen Step ⟨slabCacheInit true 40 16 2, ⟨fun _ => 0, []⟩, []⟩ s ∧
      s.live = [0x20080] ∧ Path s.world.mem.next s.cache.freeList 0 fs ∧
      (fs ++ s.live).Perm (allSlots ⟨true, 64, 64, 2⟩ slabs) ∧ s.world.held ≠ [] ∧
      ∃ n c w, slabCacheDestroy rowOfBlocks n s.cache s.world = some (c, w) ∧ w.held = [] := by
  let s₀ : State := ⟨slabCacheInit true 40 16 2, ⟨fun _ => 0, []⟩, []⟩
  have h₁ : Step s₀ (s₀.alloced rowOfBlocks) := State.step_alloced (by decide +kernel)
  have h₂ : Step _ ((s₀.alloced rowOfBlocks).alloced rowOfBlocks) :=
    State.step_alloced (by decide +kernel)
  have h₃ := Step.free (p := 0x20040) (by decide +kernel :
    0x20040 ∈ ((s₀.alloced rowOfBlocks).alloced rowOfBlocks).live)
  have hrun := ((Relation.ReflTransGen.single h₁).tail h₂).tail h₃
  obtain ⟨-, slabs, fs, -, ⟨hfree, -, hslots⟩, -, -, hend⟩ := objects_handed_out_once rfl ⟨4, rfl⟩
    (by decide) (by decide) (by decide) (fun _ => 0) hrun
  exact ⟨_, slabs, fs, hrun, by decide +kernel, hfree, hslots, by decide +kernel, _, _,
    hend rowOfBlocks _ (Nat.lt_succ_self _)⟩

end Slab
