import Emu68Common.Dma.Lists

/-!
# Dma/Calls — a block out of a pool

What each call of an allocation does to a pool in order, and what it leaves alone: a block goes out
of a puddle (`Took`), or an arena goes to a new puddle at the head of the list (`Grew`), or neither
(`Unmoved`).  Memory that is in use is as it was in every case.

    dma_pool_region_alloc   Took   |   Grew, then Took   |   Unmoved   |   Grew, for nothing
-/

namespace Dma

open Machinery

/-! ## What a call does -/

/-- A byte no region's header has free. -/
def Used (ctx : DmaMemCtx) (w : World) (i : ℕ) : Prop :=
  ∀ r ∈ ctx.regions, (w.headers r.header).Spared i

/-- **A block goes out of a puddle**, and memory in use is as it was. -/
structure Took (w w' : World) (q : ℕ) (p : DmaPuddle) (e : Extent) : Prop where
  pud : w.puds q = some p
  fresh : p.mh.Fresh e
  eq : w' = (w.setPud q (some { p with mh := p.mh.take e })).setMem w'.mem
  mem : ∀ i, p.mh.Spared i → w'.mem i = w.mem i

/-- A world with a new puddle at the head of a pool's list, its arena out of its header. -/
def World.grown (w : World) (a : ℕ) (P : DmaPool) (q : ℕ) (p : DmaPuddle) (m : Block) : World :=
  (((w.setHeader p.src ((w.headers p.src).take p.extent)).setPud q (some p)).setPool a
    (some { P with puddles := q })).setMem m

/-- **A pool grows** by a puddle with an arena of its own. -/
structure Grew (ctx : DmaMemCtx) (w w' : World) (a q : ℕ) (p : DmaPuddle) : Prop where
  ne_zero : q ≠ 0
  unused : w.used q = false
  region : ∃ r ∈ ctx.regions, r.header = p.src
  fresh : (w.headers p.src).Fresh p.extent
  mh : p.mh = ⟨p.arena, p.arena + p.arenaSize, p.arenaSize, []⟩
  pool : ∃ P, w.pools a = some P ∧ p.next = P.puddles ∧ w' = w.grown a P q p w'.mem
  mem : ∀ i, Used ctx w i → w'.mem i = w.mem i

/-- **Nothing moves**: structures and headers are as they were, and memory in use. -/
structure Unmoved (ctx : DmaMemCtx) (w w' : World) : Prop where
  eq : w' = w.setMem w'.mem
  mem : ∀ i, Used ctx w i → w'.mem i = w.mem i

theorem Unmoved.refl (ctx : DmaMemCtx) (w : World) : Unmoved ctx w w := ⟨rfl, fun _ _ => rfl⟩

variable {E : Exec} {ctx : DmaMemCtx} {lists : ℕ → List ℕ} {w w' : World}
  {a q need n size : ℕ} {p : DmaPuddle} {P : DmaPool} {e : Extent} {l l' : List ℕ}

/-! ## Out of a puddle -/

/-- **A puddle's header is asked**: a block, or nothing. -/
theorem carve_cases (E : Exec) (need : ℕ) (hq : w.puds q = some p) :
    (E.find p.mh need = none ∧ carve E q need w = some (none, w)) ∨
    ∃ ptr w', E.find p.mh need = some ptr ∧ carve E q need w = some (some ptr, w') ∧
      Took w w' q p ⟨ptr, need⟩ := by
  rw [carve, hq, Option.map_some, Exec.allocate]
  cases hfind : E.find p.mh need with
  | none => exact Or.inl ⟨rfl, rfl⟩
  | some ptr =>
    exact Or.inr ⟨ptr, _, rfl, rfl, hq, E.find_fresh _ _ _ hfind, rfl, E.asked_spared _ _ _⟩

theorem DmaPuddle.Sound.take (h : p.Sound) (hf : p.mh.Fresh e) :
    DmaPuddle.Sound { p with mh := p.mh.take e } :=
  ⟨h.lower, h.upper, h.pos, h.sound.take hf, h.balanced.take hf⟩

/-- **The pools stay in order** when a block goes out. -/
theorem Took.stocked (ht : Took w w' q p e) (h : Stocked ctx lists w) : Stocked ctx lists w' := by
  have hs := (h.arenas.sound q p ht.pud).take ht.fresh
  have hw : Stocked ctx lists (w.setPud q (some { p with mh := p.mh.take e })) := by
    have hnext : (w.setPud q (some { p with mh := p.mh.take e })).next = w.next :=
      World.next_setPud_of_eq ht.pud rfl
    exact ⟨h.arenas.setPud ht.pud rfl rfl hs, hnext.symm ▸ h.lists⟩
  rw [ht.eq]
  exact hw.setMem _

/-- What is out of a puddle keeps its bytes. -/
theorem Took.mem_out (ht : Took w w' q p e) (h : Stocked ctx lists w) {i : ℕ} (hi : w.Out i) :
    w'.mem i = w.mem i :=
  ht.mem i (h.arenas.spared_pud hi ht.pud)

/-- **The walk** finds the first puddle with room, or comes to the end. -/
theorem firstFit_cases (h : Stocked ctx lists w) (hP : w.pools a = some P) (hl : lists a = l ++ l')
    {res : Option ℕ} (hcall : firstFit E need n (l'.headD 0) w = some (res, w')) :
    (res = none ∧ w' = w) ∨
    ∃ q ∈ l', ∃ p ptr, res = some ptr ∧ Took w w' q p ⟨ptr, need⟩ := by
  induction l' generalizing l n with
  | nil =>
    cases n with
    | zero => cases hcall
    | succ n =>
      rw [firstFit, List.headD_nil, if_pos rfl] at hcall
      obtain ⟨rfl, rfl⟩ := Prod.mk.inj (Option.some.inj hcall)
      exact Or.inl ⟨rfl, rfl⟩
  | cons q l' ih =>
    cases n with
    | zero => cases hcall
    | succ n =>
      have hq : q ∈ lists a := hl ▸ List.mem_append_right l List.mem_cons_self
      obtain ⟨p, hp⟩ := h.exists_pud hq
      rw [firstFit, List.headD_cons, if_neg (h.arenas.ne_zero hp)] at hcall
      rcases carve_cases E need hp with ⟨-, hcarve⟩ | ⟨ptr, w₁, -, hcarve, htook⟩
      · rw [hcarve, Option.bind_some] at hcall
        dsimp only at hcall
        rw [World.next_of_eq hp, Option.bind_some, h.next_eq hP hl hp] at hcall
        rcases ih (l := l ++ [q]) (by rw [hl, List.append_assoc]; rfl) hcall with hnone | hsome
        · exact Or.inl hnone
        · obtain ⟨q', hq', hrest⟩ := hsome
          exact Or.inr ⟨q', List.mem_cons_of_mem q hq', hrest⟩
      · rw [hcarve, Option.bind_some] at hcall
        obtain ⟨rfl, rfl⟩ := Prod.mk.inj (Option.some.inj hcall)
        exact Or.inr ⟨q, List.mem_cons_self, p, ptr, rfl, htook⟩

/-- The walk ends with the list. -/
theorem firstFit_isSome (E : Exec) (need : ℕ) (h : Stocked ctx lists w) (hP : w.pools a = some P)
    (hl : lists a = l ++ l') (hn : l'.length < n) :
    (firstFit E need n (l'.headD 0) w).isSome = true := by
  induction l' generalizing l n with
  | nil =>
    cases n with
    | zero => exact absurd hn (Nat.not_lt_zero _)
    | succ n =>
      rw [firstFit, List.headD_nil, if_pos rfl]
      rfl
  | cons q l' ih =>
    cases n with
    | zero => exact absurd hn (Nat.not_lt_zero _)
    | succ n =>
      have hq : q ∈ lists a := hl ▸ List.mem_append_right l List.mem_cons_self
      obtain ⟨p, hp⟩ := h.exists_pud hq
      rw [firstFit, List.headD_cons, if_neg (h.arenas.ne_zero hp)]
      rcases carve_cases E need hp with ⟨-, hcarve⟩ | ⟨ptr, w₁, -, hcarve, -⟩
      · rw [hcarve, Option.bind_some]
        dsimp only
        rw [World.next_of_eq hp, Option.bind_some, h.next_eq hP hl hp]
        exact ih (l := l ++ [q]) (by rw [hl, List.append_assoc]; rfl) (Nat.lt_of_succ_lt_succ hn)
      · rw [hcarve]
        rfl

/-! ## Out of a region -/

/-- **The regions are asked in turn**: an arena of the first with room, or nothing. -/
theorem grab_cases (E : Exec) (n : ℕ) (rs : List DmaMemRegion) (w : World) :
    ((∀ r ∈ rs, E.find (w.headers r.header) n = none) ∧ grab E n rs w = none) ∨
    ∃ r ∈ rs, ∃ arena m, E.find (w.headers r.header) n = some arena ∧
      grab E n rs w = some (r.header, arena,
        (w.setHeader r.header ((w.headers r.header).take ⟨arena, n⟩)).setMem m) ∧
      ∀ i, (w.headers r.header).Spared i → m i = w.mem i := by
  induction rs with
  | nil => exact Or.inl ⟨fun r hr => absurd hr List.not_mem_nil, rfl⟩
  | cons r rs ih =>
    rw [grab, Exec.allocate]
    cases hfind : E.find (w.headers r.header) n with
    | none =>
      rcases ih with ⟨hnone, hgrab⟩ | ⟨r', hr', hrest⟩
      · exact Or.inl ⟨List.forall_mem_cons.mpr ⟨hfind, hnone⟩, hgrab⟩
      · exact Or.inr ⟨r', List.mem_cons_of_mem r hr', hrest⟩
    | some arena =>
      exact Or.inr ⟨r, List.mem_cons_self, arena, _, hfind, rfl, E.asked_spared _ _ _⟩

/-- **No room to grow**: no region has an arena of this size, or there is no memory for a puddle. -/
def NoRoom (E : Exec) (ctx : DmaMemCtx) (w : World) (arenaSize : ℕ) : Prop :=
  (∀ r ∈ ctx.regions, E.find (w.headers r.header) arenaSize = none) ∨
    E.allocMem 48 w.used = none

/-- The size of a new arena. -/
def arenaFor (P : DmaPool) (need : ℕ) : ℕ :=
  alignUp (if P.puddleSize < need then need else P.puddleSize) MEM_BLOCKSIZE

theorem arenaFor_spec (hP : P.puddleSize = DMA_POOL_PUDDLE_SIZE) (hd : MEM_BLOCKSIZE ∣ need)
    (hneed : need < 2 ^ 32) : MEM_BLOCKSIZE ∣ arenaFor P need ∧ need ≤ arenaFor P need ∧
      DMA_POOL_PUDDLE_SIZE ≤ arenaFor P need := by
  have hpow : ∃ k, MEM_BLOCKSIZE = 2 ^ k := ⟨3, rfl⟩
  obtain ⟨c, hc⟩ := hd
  rw [MEM_BLOCKSIZE] at hc
  rw [arenaFor, hP]
  split
  · obtain ⟨hdvd, hle, -⟩ := align_mask_spec hpow
      (by rw [MEM_BLOCKSIZE]; omega : need + (MEM_BLOCKSIZE - 1) < 2 ^ 32)
    exact ⟨hdvd, hle, by rw [alignUp]; omega⟩
  · obtain ⟨hdvd, hle, -⟩ := align_mask_spec hpow
      (by decide : DMA_POOL_PUDDLE_SIZE + (MEM_BLOCKSIZE - 1) < 2 ^ 32)
    exact ⟨hdvd, (not_lt.mp ‹_›).trans hle, hle⟩

theorem setHeader_self (w : World) (h : ℕ) : w.setHeader h (w.headers h) = w := by
  rw [World.setHeader, Function.update_eq_self]

theorem setHeader_setHeader (w : World) (h : ℕ) (mh mh' : MemHeader) :
    (w.setHeader h mh).setHeader h mh' = w.setHeader h mh' := by
  rw [World.setHeader, World.setHeader, World.setHeader, Function.update_idem]

/-- **What was grabbed and goes straight back** leaves the headers as they were. -/
theorem release_grabbed {r : DmaMemRegion} {arena n : ℕ} {m : Block}
    (hf : (w.headers r.header).Fresh ⟨arena, n⟩)
    (hm : ∀ i, (w.headers r.header).Spared i → m i = w.mem i) :
    ∃ m', release E r.header arena n
        ((w.setHeader r.header ((w.headers r.header).take ⟨arena, n⟩)).setMem m)
        = some (w.setMem m') ∧ ∀ i, (w.headers r.header).Spared i → m' i = w.mem i := by
  have hself : ((w.setHeader r.header ((w.headers r.header).take ⟨arena, n⟩)).setMem m).headers
      r.header = (w.headers r.header).take ⟨arena, n⟩ := World.headers_setHeader_self _
  have hback : ((w.setHeader r.header ((w.headers r.header).take ⟨arena, n⟩)).setMem m).setHeader
      r.header (w.headers r.header) = w.setMem m := by
    change ((w.setHeader r.header _).setHeader r.header _).setMem m = _
    rw [setHeader_setHeader, setHeader_self]
  refine ⟨E.given (w.headers r.header) m, ?_, fun i hi => (E.given_spared _ _ i hi).trans (hm i hi)⟩
  rw [release, hself, E.deallocate_eq List.mem_cons_self, MemHeader.give_take hf, Option.map_some]
  dsimp only
  rw [hback]
  rfl

/-- **`dma_pool_grow`** either grows the pool, or leaves everything as it was. -/
theorem grow_cases (E : Exec) (h : Stocked ctx lists w) (hP : w.pools a = some P)
    (hd : MEM_BLOCKSIZE ∣ need) (hneed : need < 2 ^ 32) :
    (NoRoom E ctx w (arenaFor P need) ∧
      ∃ w', dmaPoolGrow E ctx a need w = some (none, w') ∧ Unmoved ctx w w') ∨
    (¬NoRoom E ctx w (arenaFor P need) ∧
      ∃ q p w', dmaPoolGrow E ctx a need w = some (some q, w') ∧ Grew ctx w w' a q p ∧
        p.arenaSize = arenaFor P need) := by
  obtain ⟨hdvd, -, hsize⟩ := arenaFor_spec (h.lists.size a P hP) hd hneed
  have harena : alignUp (if P.puddleSize < need then need else P.puddleSize) MEM_BLOCKSIZE
      = arenaFor P need := rfl
  rcases grab_cases E (arenaFor P need) ctx.regions w with
    ⟨hnone, hgrab⟩ | ⟨r, hr, arena, m, hfind, hgrab, hm⟩
  · refine Or.inl ⟨Or.inl hnone, w, ?_, Unmoved.refl ctx w⟩
    rw [dmaPoolGrow, hP, Option.bind_some]
    dsimp only
    rw [harena, hgrab]
  have hfresh := E.find_fresh _ _ _ hfind
  have hsame : ((w.setHeader r.header ((w.headers r.header).take
      ⟨arena, arenaFor P need⟩)).setMem m).used = w.used := rfl
  cases hplace : E.allocMem 48 w.used with
  | none =>
    obtain ⟨m', hrelease, hm'⟩ := release_grabbed (E := E) hfresh hm
    refine Or.inl ⟨Or.inr hplace, w.setMem m', ?_, rfl, fun i hi => hm' i (hi r hr)⟩
    rw [dmaPoolGrow, hP, Option.bind_some]
    dsimp only
    rw [harena, hgrab]
    dsimp only
    rw [hsame, hplace]
    dsimp only
    rw [hrelease]
    rfl
  | some q =>
    obtain ⟨hq0, hused⟩ := E.place_unused 48 w.used q hplace
    obtain ⟨-, hupper, hend⟩ := h.arenas.filled r hr
    have hu32 : u32 (arena + arenaFor P need) = arena + arenaFor P need := by
      refine u32_of_lt ?_
      have := hfresh.upper
      rw [DMA_MEM_2GB] at hend
      dsimp only at this
      omega
    have hcall : dmaPoolGrow E ctx a need w = some (some q, w.grown a P q
        ⟨P.puddles, r.header, arena, arenaFor P need,
          ⟨arena, arena + arenaFor P need, arenaFor P need, []⟩⟩
        ((m.setLong arena 0).setLong (arena + 4) (arenaFor P need))) := by
      rw [dmaPoolGrow, hP, Option.bind_some]
      dsimp only
      rw [harena, hgrab]
      dsimp only
      rw [hsame, hplace]
      dsimp only
      rw [hu32]
      rfl
    refine Or.inr ⟨?_, q, _, _, hcall, ⟨hq0, hused, ⟨r, hr, rfl⟩, hfresh, rfl, ⟨P, hP, rfl, rfl⟩,
      fun i hi => ?_⟩, rfl⟩
    · rintro (hnone | hnone)
      · exact Option.some_ne_none _ (hfind.symm.trans (hnone r hr))
      · exact Option.some_ne_none _ (hplace.symm.trans hnone)
    · -- the arena's first chunk is written in the arena, which is not in use
      have hoff : i < arena ∨ arena + 8 ≤ i := by
        rw [DMA_POOL_PUDDLE_SIZE] at hsize
        by_contra hin
        refine hfresh.not_has (hi r hr) ⟨?_, ?_⟩ <;> dsimp only <;> omega
      change ((m.setLong arena 0).setLong (arena + 4) (arenaFor P need)) i = w.mem i
      rw [Block.setLong_of_off (by omega), Block.setLong_of_off (by omega)]
      exact hm i (hi r hr)

theorem World.puds_of_unused (h : w.used q = false) : w.puds q = none := by
  have hnone := (Bool.or_eq_false_iff.mp h).1
  exact Option.not_isSome_iff_eq_none.mp (Bool.eq_false_iff.mp hnone)

theorem World.pools_of_unused (h : w.used q = false) : w.pools q = none := by
  have hnone := (Bool.or_eq_false_iff.mp h).2
  exact Option.not_isSome_iff_eq_none.mp (Bool.eq_false_iff.mp hnone)

/-- A new puddle is in order. -/
theorem Grew.sound (hg : Grew ctx w w' a q p) : p.Sound := by
  have hmh := hg.mh
  refine ⟨by rw [hmh], by rw [hmh], hg.fresh.pos, ⟨fun e he => ?_, ?_⟩, ?_⟩
  · rw [hmh] at he
    exact absurd he List.not_mem_nil
  · rw [hmh]
    exact List.Pairwise.nil
  · rw [MemHeader.Balanced, hmh]
    rfl

/-- Its header has the whole arena to give. -/
theorem Grew.whole (hg : Grew ctx w w' a q p) : p.mh.Whole := by
  rw [hg.mh]
  exact ⟨hg.fresh.ne_zero, hg.fresh.dvd, rfl, rfl⟩

theorem Grew.pud (hg : Grew ctx w w' a q p) : w'.puds q = some p := by
  obtain ⟨P, -, -, heq⟩ := hg.pool
  rw [heq]
  exact Function.update_self q (some p) w.puds

/-- **The pools stay in order** when one grows. -/
theorem Grew.stocked (hg : Grew ctx w w' a q p) (h : Stocked ctx lists w) :
    Stocked ctx (Function.update lists a (q :: lists a)) w' := by
  obtain ⟨P, hP, hnext, heq⟩ := hg.pool
  obtain ⟨r, hr, hsrc⟩ := hg.region
  have hnone := World.puds_of_unused hg.unused
  rw [heq]
  refine ⟨?_, ?_⟩
  · have hadd := h.arenas.add hr hnone hg.ne_zero hsrc.symm (hsrc ▸ hg.fresh) hg.sound
    rw [hsrc] at hadd
    exact { hadd with }
  · have hlinks : (w.grown a P q p w'.mem).next = Function.update w.next q (some P.puddles) := by
      rw [← hnext]
      exact World.next_setPud (some p)
    have hq : w.next q = none := by
      rw [World.next, hnone]
      rfl
    rw [hlinks]
    exact h.lists.push hP hq

/-- What is out of a puddle keeps its bytes. -/
theorem Grew.mem_out (hg : Grew ctx w w' a q p) (h : Stocked ctx lists w) {i : ℕ} (hi : w.Out i) :
    w'.mem i = w.mem i :=
  hg.mem i fun _ hr => h.arenas.spared_header hi hr

/-! ## Out of a pool -/

/-- **What an allocation comes to**: nothing moves; a block goes out of a puddle of the list, or of
a new one; or the pool grows for a block of no bytes. -/
inductive Allocated (E : Exec) (ctx : DmaMemCtx) (lists : ℕ → List ℕ) (w w' : World)
    (a need : ℕ) : Option ℕ → Prop
  | unmoved (hroom : need ≠ 0 ∨ NoRoom E ctx w DMA_POOL_PUDDLE_SIZE) (h : Unmoved ctx w w') :
    Allocated E ctx lists w w' a need none
  | wasted {q : ℕ} {p : DmaPuddle} (h0 : need = 0) (hroom : ¬NoRoom E ctx w DMA_POOL_PUDDLE_SIZE)
    (h : Grew ctx w w' a q p) : Allocated E ctx lists w w' a need none
  | took {q ptr : ℕ} {p : DmaPuddle} (hq : q ∈ lists a) (h : Took w w' q p ⟨ptr, need⟩) :
    Allocated E ctx lists w w' a need (some ptr)
  | grew {q ptr : ℕ} {p : DmaPuddle} {w₁ : World} (h₁ : Grew ctx w w₁ a q p)
    (h₂ : Took w₁ w' q p ⟨ptr, need⟩) : Allocated E ctx lists w w' a need (some ptr)

theorem block_size_spec (size : ℕ) :
    MEM_BLOCKSIZE ∣ alignUp size MEM_BLOCKSIZE ∧ alignUp size MEM_BLOCKSIZE < 2 ^ 32 := by
  have h8 : MEM_BLOCKSIZE - 1 = 2 ^ 3 - 1 := rfl
  have hpow : MEM_BLOCKSIZE = 2 ^ 3 := rfl
  rw [alignUp, h8, align_mask_u32 (by decide), hpow]
  have hlt : u32 (size + (2 ^ 3 - 1)) < 2 ^ 32 := Nat.mod_lt _ (Nat.two_pow_pos 32)
  exact ⟨Nat.dvd_mul_left _ _, (Nat.div_mul_le_self _ _).trans_lt hlt⟩

/-- **`dma_pool_region_alloc`.** -/
theorem region_alloc_cases (h : Stocked ctx lists w) {res : Option ℕ}
    (hcall : dmaPoolRegionAlloc E ctx n a size w = some (res, w')) :
    Allocated E ctx lists w w' a (alignUp size MEM_BLOCKSIZE) res := by
  obtain ⟨hd, hlt⟩ := block_size_spec size
  rw [dmaPoolRegionAlloc] at hcall
  obtain ⟨P, hP, hwalk⟩ := Option.bind_eq_some_iff.mp hcall
  obtain ⟨⟨res₁, w₁⟩, hfit, hrest⟩ := Option.bind_eq_some_iff.mp hwalk
  have hhead := (h.lists.path a P hP).head_eq
  rw [hhead] at hfit
  rcases firstFit_cases (l := []) h hP rfl hfit with ⟨rfl, rfl⟩ | ⟨q, hq, p, ptr, rfl, htook⟩
  · obtain ⟨⟨res₂, w₂⟩, hgrow, hretry⟩ := Option.bind_eq_some_iff.mp hrest
    have hstandard : alignUp size MEM_BLOCKSIZE = 0 →
        arenaFor P (alignUp size MEM_BLOCKSIZE) = DMA_POOL_PUDDLE_SIZE := by
      intro h0
      rw [h0, arenaFor, h.lists.size a P hP]
      decide
    rcases grow_cases E h hP hd hlt with ⟨hroom, w₃, hw₃, hun⟩ | ⟨hroom, q, p, w₃, hw₃,
      hgrew, hsize⟩
    · obtain ⟨rfl, rfl⟩ := Prod.mk.inj (Option.some.inj (hw₃.symm.trans hgrow))
      obtain ⟨rfl, rfl⟩ := Prod.mk.inj (Option.some.inj hretry)
      refine .unmoved ?_ hun
      by_cases h0 : alignUp size MEM_BLOCKSIZE = 0
      · exact Or.inr (hstandard h0 ▸ hroom)
      · exact Or.inl h0
    · obtain ⟨rfl, rfl⟩ := Prod.mk.inj (Option.some.inj (hw₃.symm.trans hgrow))
      rcases carve_cases E (alignUp size MEM_BLOCKSIZE) hgrew.pud with
        ⟨hfind, hcarve⟩ | ⟨ptr, w₄, -, hcarve, htook⟩
      · obtain ⟨rfl, rfl⟩ := Prod.mk.inj (Option.some.inj (hcarve.symm.trans hretry))
        by_cases h0 : alignUp size MEM_BLOCKSIZE = 0
        · exact .wasted h0 (hstandard h0 ▸ hroom) hgrew
        · -- a new arena has room for what it was made for
          have hfree : alignUp size MEM_BLOCKSIZE ≤ p.mh.mhFree := by
            rw [hgrew.mh]
            dsimp only
            rw [hsize]
            exact (arenaFor_spec (h.lists.size a P hP) hd hlt).2.1
          have hsome := E.find_whole p.mh _ hgrew.whole (Nat.pos_of_ne_zero h0) hd hfree
          rw [hfind] at hsome
          cases hsome
      · obtain ⟨rfl, rfl⟩ := Prod.mk.inj (Option.some.inj (hcarve.symm.trans hretry))
        exact .grew hgrew htook
  · obtain ⟨rfl, rfl⟩ := Prod.mk.inj (Option.some.inj hrest)
    exact .took hq htook

/-- **An allocation ends**, with a block or without. -/
theorem region_alloc_isSome (E : Exec) (h : Stocked ctx lists w) (hP : w.pools a = some P)
    (hn : (lists a).length < n) : (dmaPoolRegionAlloc E ctx n a size w).isSome = true := by
  obtain ⟨hd, hlt⟩ := block_size_spec size
  have hwalk := firstFit_isSome (l := []) E (alignUp size MEM_BLOCKSIZE) h hP rfl hn
  obtain ⟨⟨res, w₁⟩, hfit⟩ := Option.isSome_iff_exists.mp hwalk
  rw [dmaPoolRegionAlloc, hP, Option.bind_some, (h.lists.path a P hP).head_eq, hfit,
    Option.bind_some]
  rcases firstFit_cases (l := []) h hP rfl hfit with ⟨rfl, rfl⟩ | ⟨q, -, p, ptr, rfl, -⟩
  · dsimp only
    rcases grow_cases E h hP hd hlt with ⟨-, w₂, hgrow, -⟩ | ⟨-, q, p, w₂, hgrow, hgrew, -⟩
    · rw [hgrow]
      rfl
    · rw [hgrow, Option.bind_some]
      dsimp only
      rw [carve, hgrew.pud]
      rfl
  · rfl

end Dma
