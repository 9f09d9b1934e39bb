import Emu68Common.Slab.Sizing

/-!
# Slab/Exec — a cache on Exec's blocks, and objects of no size

Exec hands out whole blocks of 8 bytes, whatever it is asked for, and what is left of the last one
is nobody else's (`OnExec`).  That is room for a link where a cache's objects have no size: all
slots of a slab are then one place, and the free list is a chain of such places (`Strung`).

    dma_pool     raw │total ………… raw │ link …│        a whole line is asked for
    meta_pool    raw │4│ link │                       4 bytes are asked for, and 8 taken
-/

namespace Slab

open Machinery Dma

/-! ## Exec's blocks -/

/-- So many bytes in whole blocks of 8. -/
def wholeSize (n : ℕ) : ℕ := (n + 7) / 8 * 8

/-- A block with what is left of its last 8 bytes. -/
def Grant.whole (g : Grant) : Grant := { g with size := wholeSize g.size }

/-- **Pools on Exec's memory**: what they hand out starts at a multiple of 8 and is meant whole. -/
structure Pools.OnExec (P : Pools) : Prop where
  multiple : ∀ p n w raw, P.ask p n w = some raw → 8 ∣ raw
  fresh : ∀ p n w raw, P.ask p n w = some raw →
    Fresh (w.held.map Grant.whole) raw (wholeSize n)
  asked_agree : ∀ p n w, Agree (w.held.map Grant.whole) w.mem (P.asked p n w)
  given_agree : ∀ g w, Agree ((w.held.erase g).map Grant.whole) w.mem (P.given g w)

/-- **A call for an object**, and what it returns. -/
def Calls (P : Pools) (s : State) (r : Option ℕ) (c : Cache) (w : World) : Prop :=
  slabAlloc P s.cache s.world = some (r, c, w) ∨
  slabZalloc P s.cache s.world = some (r, c, w) ∨
  slabGrow P s.cache s.world = some (r, c, w)

/-- **One step on Exec's memory.** -/
inductive ExecStep : State → State → Prop where
  | call {P : Pools} (hP : P.OnExec) {s : State} {r : Option ℕ} {c : Cache} {w : World}
    (h : Calls P s r c w) : ExecStep s ⟨c, w, r.toList ++ s.live⟩
  | free {s : State} {p : ℕ} (hp : p ∈ s.live) :
    ExecStep s ⟨(slabFree p s.cache s.world).1, (slabFree p s.cache s.world).2, s.live.erase p⟩
  | write {s : State} (m : Block)
    (h : ∀ i, Holds (s.world.held.map Grant.whole) i → ¬s.Client i → m i = s.world.mem i) :
    ExecStep s ⟨s.cache, { s.world with mem := m }, s.live⟩

variable {P : Pools} {held held' : List Grant} {g : Grant} {w w' : World} {m m' m'' : Block}
  {s s' : State} {r : Option ℕ} {c c' : Cache} {p a n : ℕ}

theorem le_wholeSize (n : ℕ) : n ≤ wholeSize n := by
  rw [wholeSize]
  omega

theorem Calls.step (h : Calls P s r c w) : Step s ⟨c, w, r.toList ++ s.live⟩ := by
  rcases h with h | h | h
  · exact .alloc P h
  · exact .zalloc P h
  · exact .grow P h

/-- A byte of a block is one of the whole block. -/
theorem holds_whole {i : ℕ} (h : Holds held i) : Holds (held.map Grant.whole) i := by
  obtain ⟨g, hg, hlow, hhigh⟩ := h
  refine ⟨g.whole, List.mem_map_of_mem hg, hlow, hhigh.trans_le ?_⟩
  exact Nat.add_le_add_left (le_wholeSize g.size) g.raw

/-- **A step on Exec's memory is a step.** -/
theorem ExecStep.step (h : ExecStep s s') : Step s s' := by
  cases h with
  | call _ h => exact h.step
  | free hp => exact .free hp
  | write m h => exact .write m fun i hi => h i (holds_whole hi)

theorem ExecStep.run (h : Relation.ReflTransGen ExecStep s s') : Relation.ReflTransGen Step s s' :=
  Relation.ReflTransGen.mono (fun _ _ => ExecStep.step) _ _ h

/-! ## What is out -/

/-- The whole blocks do not meet. -/
def Grant.Clear (g g' : Grant) : Prop :=
  Apart g.raw (wholeSize g.size) g'.raw (wholeSize g'.size)

instance : Std.Symm Grant.Clear := ⟨fun _ _ => Apart.symm⟩

/-- **Whole blocks** in the address space that are apart. -/
structure Blocks (held : List Grant) : Prop where
  multiple : ∀ g ∈ held, 8 ∣ g.raw
  below : ∀ g ∈ held, g.raw + wholeSize g.size ≤ 2 ^ 32
  apart : held.Pairwise Grant.Clear

namespace Blocks

theorem nil : Blocks [] :=
  ⟨fun _ h => absurd h List.not_mem_nil, fun _ h => absurd h List.not_mem_nil, .nil⟩

/-- **A new block.** -/
theorem cons (h : Blocks held) (h8 : 8 ∣ g.raw)
    (hfresh : Fresh (held.map Grant.whole) g.raw (wholeSize g.size)) : Blocks (g :: held) :=
  ⟨List.forall_mem_cons.mpr ⟨h8, h.multiple⟩, List.forall_mem_cons.mpr ⟨hfresh.2.1, h.below⟩,
    List.pairwise_cons.mpr ⟨fun g' hg' => (hfresh.2.2 g'.whole (List.mem_map_of_mem hg')).symm,
      h.apart⟩⟩

theorem of_sublist (h : Blocks held) (hsub : held'.Sublist held) : Blocks held' :=
  ⟨fun g hg => h.multiple g (hsub.subset hg), fun g hg => h.below g (hsub.subset hg),
    h.apart.sublist hsub⟩

/-- What a pool takes on. -/
theorem take (h : Blocks w.held) (hP : P.OnExec) (p : Pool) (n : ℕ) :
    Blocks (P.take p n w).2.held := by
  rw [Pools.take]
  cases hask : P.ask p n w with
  | none => exact h
  | some raw => exact h.cons (hP.multiple p n w raw hask) (hP.fresh p n w raw hask)

theorem poolAlloc (h : Blocks w.held) (hP : P.OnExec) (n : ℕ) :
    Blocks (P.poolAlloc n w).2.held := by
  have htake := h.take hP .metaPool (u32 (n + 4))
  rw [Pools.poolAlloc]
  rcases hw : P.take .metaPool (u32 (n + 4)) w with ⟨_ | raw, w'⟩ <;>
  · rw [hw] at htake
    exact htake

theorem dmaAlloc (h : Blocks w.held) (hP : P.OnExec) (a n : ℕ) :
    Blocks (P.dmaAlloc a n w).2.held := by
  have htake := h.take hP .dmaPool (dmaTotal (dmaAlign a) n)
  rw [Pools.dmaAlloc]
  rcases hw : P.take .dmaPool (dmaTotal (dmaAlign a) n) w with ⟨_ | raw, w'⟩ <;>
  · rw [hw] at htake
    exact htake

/-- What a pool takes back. -/
theorem poolFree (h : Blocks w.held) (hfree : P.poolFree p w = some w') : Blocks w'.held := by
  rw [Pools.poolFree, Pools.give] at hfree
  split at hfree
  · exact Option.some.inj hfree ▸ h
  · obtain ⟨-, heq⟩ := Option.ite_none_right_eq_some.mp hfree
    exact Option.some.inj heq ▸ h.of_sublist List.erase_sublist

theorem grow (h : Blocks w.held) (hP : P.OnExec) (hcall : slabGrow P c w = some (r, c', w')) :
    Blocks w'.held := by
  have hnode := h.poolAlloc hP 8
  rw [slabGrow] at hcall
  rcases hw₁ : P.poolAlloc 8 w with ⟨_ | node, w₁⟩ <;> rw [hw₁] at hnode
  · simp only [hw₁, Option.some.injEq, Prod.mk.injEq] at hcall
    obtain ⟨-, -, rfl⟩ := hcall
    exact hnode
  have hdata : Blocks (dataAlloc P c.toGeometry w₁).2.held := by
    rw [dataAlloc]
    split
    · exact Blocks.dmaAlloc hnode hP _ _
    · exact Blocks.poolAlloc hnode hP _
  rw [dataAlloc] at hdata
  simp only [hw₁] at hcall
  split at hcall
  case h_1 w₂ hw₂ =>
    obtain ⟨w₃, hfree, heq⟩ := Option.map_eq_some_iff.mp hcall
    cases heq
    rw [hw₂] at hdata
    exact Blocks.poolFree hdata hfree
  case h_2 data w₂ hw₂ =>
    cases hcall
    rw [hw₂] at hdata
    exact hdata

/-- **A call keeps them.** -/
theorem calls (h : Blocks s.world.held) (hP : P.OnExec) (hcall : Calls P s r c w) :
    Blocks w.held := by
  have halloc {r : Option ℕ} {c : Cache} {w : World}
      (hcall : slabAlloc P s.cache s.world = some (r, c, w)) : Blocks w.held := by
    rw [slabAlloc] at hcall
    split at hcall
    · cases hcall
      exact h
    · exact h.grow hP hcall
  rcases hcall with hcall | hcall | hcall
  · exact halloc hcall
  · rw [slabZalloc] at hcall
    obtain ⟨⟨r', c', w'⟩, hx, heq⟩ := Option.map_eq_some_iff.mp hcall
    have hheld := halloc hx
    cases r' <;> cases heq <;> exact hheld
  · exact h.grow hP hcall

/-- **A step keeps them.** -/
theorem step (h : Blocks s.world.held) (hstep : ExecStep s s') : Blocks s'.world.held := by
  cases hstep with
  | call hP hcall => exact h.calls hP hcall
  | free _ => exact h
  | write _ _ => exact h

/-- **A run keeps them.** -/
theorem run (h : Blocks s.world.held) (hrun : Relation.ReflTransGen ExecStep s s') :
    Blocks s'.world.held := by
  induction hrun with
  | refl => exact h
  | tail _ hstep ih => exact ih.step hstep

end Blocks

/-! ## The data of objects of no size -/

theorem Agree.mono (h : Agree held m m') (hsub : held' ⊆ held) : Agree held' m m' :=
  fun i ⟨g, hg, hi⟩ => h i ⟨g, hsub hg, hi⟩

theorem Agree.trans (h : Agree held m m') (h' : Agree held m' m'') : Agree held m m'' :=
  fun i hi => (h' i hi).trans (h i hi)

/-- **A new block**, whole and apart from these. -/
structure Grant.New (held : List Grant) (g : Grant) : Prop where
  multiple : 8 ∣ g.raw
  fresh : Fresh (held.map Grant.whole) g.raw (wholeSize g.size)

/-- What is written in it leaves the others as they are. -/
theorem Grant.New.agree (h : g.New held) {v : ℕ} (ha : g.raw ≤ a)
    (ha' : a + 4 ≤ g.raw + wholeSize g.size) (m : Block) :
    Agree (held.map Grant.whole) m (m.setLong a v) := agree_setLong h.fresh ha ha'

/-- **A pool on Exec's memory answers** with nothing, or with a new block. -/
theorem Pools.OnExec.take_cases (hP : P.OnExec) (p : Pool) (n : ℕ) (w : World) :
    ∃ m, Agree (w.held.map Grant.whole) w.mem m ∧ (P.take p n w = (none, ⟨m, w.held⟩) ∨
      ∃ raw, Grant.New w.held ⟨p, raw, n⟩ ∧
        P.take p n w = (some raw, ⟨m, ⟨p, raw, n⟩ :: w.held⟩)) := by
  refine ⟨P.asked p n w, hP.asked_agree p n w, ?_⟩
  rw [Pools.take]
  cases hask : P.ask p n w with
  | none => exact .inl rfl
  | some raw =>
    exact .inr ⟨raw, ⟨hP.multiple p n w raw hask, hP.fresh p n w raw hask⟩, rfl⟩

/-- `pool_alloc` enters the size of a new block. -/
theorem Pools.OnExec.poolAlloc_cases (hP : P.OnExec) {size : ℕ} (h : size + 4 < 2 ^ 32)
    (w : World) : ∃ m, Agree (w.held.map Grant.whole) w.mem m ∧
      (P.poolAlloc size w = (none, ⟨m, w.held⟩) ∨ ∃ raw,
        Grant.New w.held ⟨.metaPool, raw, size + 4⟩ ∧ m.long raw = size + 4 ∧
        P.poolAlloc size w = (some (raw + 4), ⟨m, ⟨.metaPool, raw, size + 4⟩ :: w.held⟩)) := by
  rw [Pools.poolAlloc, u32_of_lt h]
  obtain ⟨m, hm, htake | ⟨raw, hnew, htake⟩⟩ := hP.take_cases .metaPool (size + 4) w
  · exact ⟨m, hm, .inl (by simp only [htake])⟩
  · have hin : raw + 4 ≤ raw + wholeSize (size + 4) :=
      Nat.add_le_add_left ((Nat.le_add_left 4 size).trans (le_wholeSize _)) raw
    exact ⟨m.setLong raw (size + 4), hm.trans (hnew.agree le_rfl hin m),
      .inr ⟨raw, hnew, Block.long_setLong m raw h, by simp only [htake]⟩⟩

/-- **The place of a slab's slots** in its data's block, with room for a link. -/
structure Seat (k : Geometry) (g : Grant) (p : ℕ) : Prop where
  place : p = k.place g.raw
  low : g.raw + 4 ≤ p
  high : p + 4 ≤ g.raw + wholeSize g.size
  aligned : if k.dmaPool then k.objAlign ∣ p else p % 8 = 4

/-- **The geometry of objects of no size.** -/
structure Geometry.Sizeless (k : Geometry) : Prop where
  align : ∃ i, k.objAlign = 2 ^ i
  size : k.objSize = 0
  dma : k.dmaPool = true → DMA_ALIGN_MIN ≤ k.objAlign ∧ k.objAlign + 7 < 2 ^ 32

variable {k : Geometry}

/-- What a DMA slab of such objects asks for is one line to align and the books. -/
theorem Geometry.Sizeless.total (hk : k.Sizeless) (hd : k.dmaPool = true) :
    dmaTotal k.objAlign 0 = k.objAlign + 7 := by
  obtain ⟨hmin, hlt⟩ := hk.dma hd
  have hsize : dmaSize k.objAlign 0 = 0 := by
    rw [dmaSize, if_pos hmin]
    exact align_mask_of_dvd hk.align (by omega) (dvd_zero _)
  rw [DMA_ALIGN_MIN] at hmin
  rw [dmaTotal, hsize, u32_of_lt (by omega)]
  omega

/-- A block for a DMA slab has its seat. -/
theorem Geometry.Sizeless.seat_dma (hk : k.Sizeless) (hd : k.dmaPool = true) {raw : ℕ}
    (hnew : Grant.New held ⟨.dmaPool, raw, k.objAlign + 7⟩) :
    Seat k ⟨.dmaPool, raw, k.objAlign + 7⟩ (dmaAligned k.objAlign raw) ∧
      raw + 8 ≤ dmaAligned k.objAlign raw := by
  obtain ⟨hmin, -⟩ := hk.dma hd
  obtain ⟨j, hj⟩ := hnew.multiple
  obtain ⟨t, ht⟩ : 2 ^ 6 ∣ k.objAlign := by
    obtain ⟨i, hi⟩ := hk.align
    rw [DMA_ALIGN_MIN, hi] at hmin
    rw [hi]
    exact Nat.pow_dvd_pow 2 ((Nat.pow_le_pow_iff_right (n := 6) Nat.one_lt_two).mp hmin)
  have hend : raw + wholeSize (k.objAlign + 7) ≤ 2 ^ 32 := hnew.fresh.2.1
  rw [DMA_ALIGN_MIN] at hmin
  have hj : raw = 8 * j := hj
  have hwhole : wholeSize (k.objAlign + 7) = k.objAlign + 8 := by
    rw [wholeSize]
    omega
  obtain ⟨hdvd, hlow, hhigh⟩ :=
    aligned_of_fit hk.align (by omega : raw + 4 + 4 + (k.objAlign - 1) < 2 ^ 32)
  obtain ⟨q, hq⟩ : 8 ∣ dmaAligned k.objAlign raw := by
    refine Dvd.dvd.trans ⟨8 * t, ?_⟩ hdvd
    omega
  refine ⟨⟨?_, ?_, ?_, ?_⟩, hlow⟩
  · rw [Geometry.place, hd, if_pos rfl]
  · change raw + 4 ≤ _
    omega
  · change _ ≤ raw + wholeSize (k.objAlign + 7)
    rw [hwhole]
    omega
  · rw [hd, if_pos rfl]
    exact hdvd

/-- **The data of a slab of such objects**: nothing, or a new block with its seat. -/
theorem dataAlloc_sizeless (hk : k.Sizeless) (hP : P.OnExec) (w : World) :
    ∃ m, Agree (w.held.map Grant.whole) w.mem m ∧
      (dataAlloc P k w = (none, ⟨m, w.held⟩) ∨ ∃ g p, Grant.New w.held g ∧ Seat k g p ∧
        dataAlloc P k w = (some p, ⟨m, g :: w.held⟩)) := by
  have hspan : u32 (k.objSize * k.slabCapacity) = 0 := by rw [hk.size, Nat.zero_mul]; rfl
  rw [dataAlloc, hspan]
  cases hd : k.dmaPool with
  | false =>
    rw [if_neg Bool.false_ne_true]
    obtain ⟨m, hm, hnone | ⟨raw, hnew, -, hsome⟩⟩ :=
      hP.poolAlloc_cases (by decide : 0 + 4 < 2 ^ 32) w
    · exact ⟨m, hm, .inl hnone⟩
    · have hmod : raw % 8 = 0 := Nat.mod_eq_zero_of_dvd hnew.multiple
      have hend : raw + 4 + 4 ≤ raw + wholeSize 4 := le_rfl
      refine ⟨m, hm, .inr ⟨_, raw + 4, hnew, ⟨?_, le_rfl, hend, ?_⟩, hsome⟩⟩
      · rw [Geometry.place, hd]
        rfl
      · rw [hd, if_neg Bool.false_ne_true]
        omega
  | true =>
    obtain ⟨hmin, -⟩ := hk.dma hd
    rw [DMA_ALIGN_MIN] at hmin
    have halign : dmaAlign k.objAlign = k.objAlign := if_neg (by omega)
    rw [if_pos rfl, Pools.dmaAlloc, halign, hk.total hd]
    obtain ⟨m, hm, htake | ⟨raw, hnew, htake⟩⟩ := hP.take_cases .dmaPool (k.objAlign + 7) w
    · exact ⟨m, hm, .inl (by simp only [htake])⟩
    · obtain ⟨hseat, hlow⟩ := hk.seat_dma hd hnew
      have hhigh := hseat.high
      have hle := le_wholeSize (k.objAlign + 7)
      refine ⟨(m.setLong (dmaAligned k.objAlign raw - 4) raw).setLong raw (k.objAlign + 7),
        (hm.trans (hnew.agree ?_ ?_ m)).trans (hnew.agree le_rfl ?_ _),
        .inr ⟨_, _, hnew, hseat, by simp only [htake]⟩⟩
      · change raw ≤ _
        omega
      · omega
      · change raw + 4 ≤ raw + wholeSize (k.objAlign + 7)
        omega

/-- The loop of `slab_grow` over slots of no size links up one place, to the list there was. -/
theorem thread_sizeless {last : ℕ} (hlast : last < 2 ^ 32) (i slot : ℕ) (m : Block) :
    (thread 0 last i slot m).long slot = last ∧
      ∀ j, j < slot ∨ slot + 4 ≤ j → thread 0 last i slot m j = m j := by
  induction i generalizing m with
  | zero => exact ⟨Block.long_setLong m slot hlast, fun j hj => Block.setLong_of_off hj⟩
  | succ i ih =>
    obtain ⟨hlong, hoff⟩ := ih (m.setLong slot slot)
    exact ⟨hlong, fun j hj => (hoff j hj).trans (Block.setLong_of_off hj)⟩

/-- **`slab_grow` of such a cache**: it leaves the list and what is out as they are, and returns the
seat of a new block, or nothing. -/
theorem grow_sizeless (hk : c.Sizeless) (hP : P.OnExec) (hlist : c.freeList < 2 ^ 32)
    (hcall : slabGrow P c w = some (r, c', w')) :
    Agree (w.held.map Grant.whole) w.mem w'.mem ∧ c'.toGeometry = c.toGeometry ∧
      c'.freeList = c.freeList ∧ ((r = none ∧ w'.held = w.held) ∨ ∃ data g node, r = some data ∧
        w'.held = g :: node :: w.held ∧ Grant.New w.held g ∧ Seat c.toGeometry g data) := by
  rw [slabGrow] at hcall
  obtain ⟨m₁, hm₁, hnode | ⟨raw, hnew, hsize, hnode⟩⟩ :=
    hP.poolAlloc_cases (by decide : 8 + 4 < 2 ^ 32) w
  · simp only [hnode] at hcall
    cases hcall
    exact ⟨hm₁, rfl, rfl, .inl ⟨rfl, rfl⟩⟩
  have hwhole : wholeSize (8 + 4) = 16 := rfl
  have hsub : w.held.map Grant.whole ⊆
      (⟨.metaPool, raw, 8 + 4⟩ :: w.held).map Grant.whole := List.subset_cons_self _ _
  obtain ⟨m₂, hm₂, hdata | ⟨g, data, hg, hseat, hdata⟩⟩ := dataAlloc_sizeless hk hP
    ⟨m₁, ⟨.metaPool, raw, 8 + 4⟩ :: w.held⟩ <;> rw [dataAlloc] at hdata
  · -- the node goes back
    have hlong : m₂.long raw = 8 + 4 := by
      refine (Block.long_congr fun i hi hi' => hm₂ i ⟨_, List.mem_cons_self, hi, ?_⟩).trans hsize
      have hi : i < raw + 4 := hi'
      change i < raw + wholeSize (8 + 4)
      omega
    have hfree : P.poolFree (raw + 4) ⟨m₂, ⟨.metaPool, raw, 8 + 4⟩ :: w.held⟩ =
        some ⟨P.given ⟨.metaPool, raw, 8 + 4⟩ ⟨m₂, ⟨.metaPool, raw, 8 + 4⟩ :: w.held⟩,
          w.held⟩ := by
      rw [Pools.poolFree, if_neg (Nat.succ_ne_zero _), Nat.add_sub_cancel, hlong,
        give_eq P List.mem_cons_self, List.erase_cons_head]
    simp only [hnode, hdata, hfree, Option.map_some] at hcall
    cases hcall
    have hgiven := hP.given_agree ⟨.metaPool, raw, 8 + 4⟩
      ⟨m₂, ⟨.metaPool, raw, 8 + 4⟩ :: w.held⟩
    rw [List.erase_cons_head] at hgiven
    exact ⟨(hm₁.trans (hm₂.mono hsub)).trans hgiven, rfl, rfl, .inl ⟨rfl, rfl⟩⟩
  · simp only [hnode, hdata] at hcall
    cases hcall
    have hnewg : Grant.New w.held g := ⟨hg.multiple, hg.fresh.1, hg.fresh.2.1,
      fun g' hg' => hg.fresh.2.2 g' (hsub hg')⟩
    have hlow := hseat.low
    obtain ⟨hlong, hoff⟩ := thread_sizeless hlist (c.slabCapacity - 1) data
      ((m₂.setLong (raw + 4 + 4) data).setLong (raw + 4) c.slabs)
    have hthread : Agree (w.held.map Grant.whole)
        ((m₂.setLong (raw + 4 + 4) data).setLong (raw + 4) c.slabs)
        (thread 0 c.freeList (c.slabCapacity - 1) data
          ((m₂.setLong (raw + 4 + 4) data).setLong (raw + 4) c.slabs)) := by
      rintro i ⟨g', hg', hi, hi'⟩
      have hhigh := hseat.high
      exact hoff i (by rcases hnewg.fresh.2.2 g' hg' with h | h <;> omega)
    have hfresh : Fresh (w.held.map Grant.whole) raw (wholeSize (8 + 4)) := hnew.fresh
    have hnode₁ : Agree (w.held.map Grant.whole) m₂ (m₂.setLong (raw + 4 + 4) data) :=
      agree_setLong hfresh (by omega) (by omega)
    have hnode₂ : Agree (w.held.map Grant.whole) (m₂.setLong (raw + 4 + 4) data)
        ((m₂.setLong (raw + 4 + 4) data).setLong (raw + 4) c.slabs) :=
      agree_setLong hfresh (by omega) (by omega)
    rw [hk.size]
    exact ⟨(((hm₁.trans (hm₂.mono hsub)).trans hnode₁).trans hnode₂).trans hthread, rfl, hlong,
      .inr ⟨data, g, _, rfl, rfl, hnewg, hseat⟩⟩

/-! ## Runs of such a cache -/

/-- **The free list is a chain of seats**, and so are the objects that are out. -/
structure Strung (k : Geometry) (s : State) (fs : List ℕ) : Prop where
  geometry : s.cache.toGeometry = k
  blocks : Blocks s.world.held
  head : s.cache.freeList = fs.headD 0
  free : s.world.mem.Kept (links fs 0)
  nodup : (fs ++ s.live).Nodup
  seats : ∀ p ∈ fs ++ s.live, ∃ g ∈ s.world.held, Seat k g p

namespace Strung

variable {fs : List ℕ} {q : ℕ}

/-- A seat is an address, and not NULL. -/
theorem address (h : Strung k s fs) (hp : p ∈ fs ++ s.live) : p ≠ 0 ∧ p < 2 ^ 32 := by
  obtain ⟨g, hg, hseat⟩ := h.seats p hp
  have hbelow := h.blocks.below g hg
  have hlow := hseat.low
  have hhigh := hseat.high
  omega

theorem freeList_lt (h : Strung k s fs) : s.cache.freeList < 2 ^ 32 := by
  rw [h.head]
  cases fs with
  | nil => decide
  | cons p fs => exact (h.address (List.mem_append_left _ List.mem_cons_self)).2

/-- Different seats are in different blocks. -/
theorem apart (h : Strung k s fs) (hp : p ∈ fs ++ s.live) (hq : q ∈ fs ++ s.live) (hne : p ≠ q) :
    Apart p 4 q 4 := by
  obtain ⟨g, hg, hseat⟩ := h.seats p hp
  obtain ⟨g', hg', hseat'⟩ := h.seats q hq
  have hgg : g ≠ g' := fun heq => hne (by rw [hseat.place, hseat'.place, heq])
  have hlow := hseat.low
  have hlow' := hseat'.low
  exact (h.blocks.apart.forall hg hg' hgg).mono (by omega) hseat.high (by omega) hseat'.high

/-- What leaves the blocks that are out as they are leaves the chain as it is. -/
theorem kept (h : Strung k s fs) {m : Block}
    (hm : Agree (s.world.held.map Grant.whole) s.world.mem m) : m.Kept (links fs 0) :=
  h.free.congr fun e he i hi hi' => by
    obtain ⟨g, hg, hseat⟩ := h.seats e.1 (List.mem_append_left _ (mem_of_mem_links he))
    have hlow := hseat.low
    have hhigh := hseat.high
    exact hm i ⟨g.whole, List.mem_map_of_mem hg, by change g.raw ≤ i; omega,
      by change i < g.raw + wholeSize g.size; omega⟩

/-- **The first free object is handed out.** -/
theorem pop (h : Strung k s (p :: fs)) :
    Strung k ⟨{ s.cache with freeList := s.world.mem.long p }, s.world, p :: s.live⟩ fs := by
  obtain ⟨hlink, hfree⟩ := Block.kept_cons.mp h.free
  have hperm : (fs ++ p :: s.live).Perm (p :: fs ++ s.live) := List.perm_middle
  exact ⟨h.geometry, h.blocks, hlink, hfree, hperm.nodup_iff.mpr h.nodup,
    fun q hq => h.seats q (hperm.subset hq)⟩

/-- **An object is freed.** -/
theorem push (h : Strung k s fs) (hp : p ∈ s.live) :
    Strung k ⟨(slabFree p s.cache s.world).1, (slabFree p s.cache s.world).2, s.live.erase p⟩
      (p :: fs) := by
  have hoff : (links fs 0).Off p 4 := fun e he =>
    h.apart (List.mem_append_left _ (mem_of_mem_links he)) (List.mem_append_right _ hp)
      ((List.nodup_append.mp h.nodup).2.2 e.1 (mem_of_mem_links he) p hp)
  obtain ⟨hlink, hfree⟩ := Block.kept_cons.mp (h.free.enter hoff h.freeList_lt)
  have hperm : (p :: fs ++ s.live.erase p).Perm (fs ++ s.live) :=
    List.perm_middle.symm.trans ((List.perm_cons_erase hp).symm.append_left fs)
  exact ⟨h.geometry, h.blocks, rfl, Block.kept_cons.mpr ⟨hlink.trans h.head, hfree⟩,
    hperm.nodup_iff.mpr h.nodup, fun q hq => h.seats q (hperm.subset hq)⟩

/-- **A slab is added**, or is not. -/
theorem grow (h : Strung k s fs) (hk : k.Sizeless) (hP : P.OnExec)
    (hcall : slabGrow P s.cache s.world = some (r, c, w)) :
    Strung k ⟨c, w, r.toList ++ s.live⟩ fs := by
  have hblocks := h.blocks.grow hP hcall
  obtain ⟨hagree, hgeometry, hlist, hcase⟩ :=
    grow_sizeless (h.geometry.symm ▸ hk) hP h.freeList_lt hcall
  have hhead : c.freeList = fs.headD 0 := hlist.trans h.head
  rcases hcase with ⟨rfl, hheld⟩ | ⟨data, g, node, rfl, hheld, hnew, hseat⟩
  · exact ⟨hgeometry.trans h.geometry, hblocks, hhead, h.kept hagree, h.nodup,
      fun p hp => hheld.symm ▸ h.seats p hp⟩
  · have hperm : (fs ++ data :: s.live).Perm (data :: (fs ++ s.live)) := List.perm_middle
    have hout : data ∉ fs ++ s.live := fun hin => by
      obtain ⟨g', hg', hseat'⟩ := h.seats data hin
      have hlow := hseat.low
      have hhigh := hseat.high
      have hlow' := hseat'.low
      have hhigh' := hseat'.high
      rcases hnew.fresh.2.2 g'.whole (List.mem_map_of_mem hg') with happart | happart
      · change g'.raw + wholeSize g'.size ≤ g.raw at happart
        omega
      · change g.raw + wholeSize g.size ≤ g'.raw at happart
        omega
    refine ⟨hgeometry.trans h.geometry, hblocks, hhead, h.kept hagree,
      hperm.nodup_iff.mpr (List.nodup_cons.mpr ⟨hout, h.nodup⟩), fun p hp => ?_⟩
    rcases List.mem_cons.mp (hperm.subset hp) with rfl | hp
    · exact ⟨g, hheld ▸ List.mem_cons_self, h.geometry ▸ hseat⟩
    · obtain ⟨g', hg', hseat'⟩ := h.seats p hp
      exact ⟨g', hheld ▸ List.mem_cons_of_mem _ (List.mem_cons_of_mem _ hg'), hseat'⟩

/-- **A call.** -/
theorem calls (h : Strung k s fs) (hk : k.Sizeless) (hP : P.OnExec) (hcall : Calls P s r c w) :
    ∃ fs', Strung k ⟨c, w, r.toList ++ s.live⟩ fs' := by
  have halloc {r : Option ℕ} {c : Cache} {w : World}
      (hcall : slabAlloc P s.cache s.world = some (r, c, w)) :
      ∃ fs', Strung k ⟨c, w, r.toList ++ s.live⟩ fs' := by
    rw [slabAlloc] at hcall
    split at hcall
    case isFalse => exact ⟨fs, h.grow hk hP hcall⟩
    case isTrue hne =>
      cases hcall
      cases fs with
      | nil => exact absurd h.head hne
      | cons p fs =>
        have hhead : s.cache.freeList = p := h.head
        rw [hhead]
        exact ⟨fs, h.pop⟩
  rcases hcall with hcall | hcall | hcall
  · exact halloc hcall
  · rw [slabZalloc] at hcall
    obtain ⟨⟨r', c', w'⟩, hx, heq⟩ := Option.map_eq_some_iff.mp hcall
    obtain ⟨fs', hstrung⟩ := halloc hx
    cases r' with
    | none =>
      cases heq
      exact ⟨fs', hstrung⟩
    | some p =>
      cases heq
      have hsize : c.objSize = 0 := by
        have hgeometry : c.toGeometry = k := hstrung.geometry
        rw [hgeometry, hk.size]
      have hzero : zero p c.objSize w'.mem = w'.mem := funext fun i => if_neg (by omega)
      rw [hzero]
      exact ⟨fs', hstrung⟩
  · exact ⟨fs, h.grow hk hP hcall⟩

/-- **A write** is to no byte of such an object. -/
theorem write (h : Strung k s fs) (hk : k.Sizeless) {m : Block}
    (hm : ∀ i, Holds (s.world.held.map Grant.whole) i → ¬s.Client i → m i = s.world.mem i) :
    Strung k ⟨s.cache, { s.world with mem := m }, s.live⟩ fs := by
  have hclient (i : ℕ) : ¬s.Client i := by
    rintro ⟨p, -, hlow, hhigh⟩
    rw [h.geometry, hk.size] at hhigh
    omega
  exact { h with free := h.kept fun i hi => hm i hi (hclient i) }

/-- **One step.** -/
theorem step (h : Strung k s fs) (hk : k.Sizeless) (hstep : ExecStep s s') :
    ∃ fs', Strung k s' fs' := by
  cases hstep with
  | call hP hcall => exact h.calls hk hP hcall
  | free hp => exact ⟨_, h.push hp⟩
  | write m hm => exact ⟨fs, h.write hk hm⟩

/-- **A run.** -/
theorem run (h : Strung k s fs) (hk : k.Sizeless) (hrun : Relation.ReflTransGen ExecStep s s') :
    ∃ fs', Strung k s' fs' := by
  induction hrun with
  | refl => exact ⟨fs, h⟩
  | tail _ hstep ih =>
    obtain ⟨fs', ih⟩ := ih
    exact ih.step hk hstep

end Strung

end Slab
