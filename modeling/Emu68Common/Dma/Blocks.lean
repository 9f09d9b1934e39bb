import Emu68Common.Dma.Returns

/-!
# Dma/Blocks — the blocks that are out of the pools

Which blocks are out of which puddle of which pool (`Out`), and what each call makes of that: an
allocation adds one, a free takes one away, a shrink none, and a delete those of its pool.  Whatever
is out before and after a call has its bytes as they were.
-/

namespace Dma

open Machinery

/-- **A block is out** of a puddle of a pool. -/
def Holds (lists : ℕ → List ℕ) (w : World) (a q : ℕ) (e : Extent) : Prop :=
  q ∈ lists a ∧ ∃ p, w.puds q = some p ∧ e ∈ p.mh.out

variable {E : Exec} {ctx : DmaMemCtx} {lists : ℕ → List ℕ} {w w' : World}
  {a b q r n size raw : ℕ} {p : DmaPuddle} {P : DmaPool} {e f : Extent} {l gone : List ℕ}

/-! ## What is out -/

theorem Holds.out (h : Holds lists w a q e) {i : ℕ} (hi : e.Has i) : w.Out i := by
  obtain ⟨-, p, hp, he⟩ := h
  exact ⟨q, p, hp, e, he, hi⟩

/-- A block that is out lies in a region. -/
theorem Holds.inside (h : Holds lists w a q e) (hs : Stocked ctx lists w) :
    0 < e.size ∧ ∃ r ∈ ctx.regions, r.start ≤ e.addr ∧ e.addr + e.size ≤ r.end_ := by
  obtain ⟨-, p, hp, he⟩ := h
  obtain ⟨hpos, hlow, hhigh⟩ := (hs.arenas.sound q p hp).within he
  obtain ⟨r, hr, -, hstart, hend⟩ := hs.arenas.inside hp
  exact ⟨hpos, r, hr, hstart.trans hlow, hhigh.trans hend⟩

/-- **Blocks that are out do not meet.** -/
theorem Holds.apart (h : Holds lists w a q e) (h' : Holds lists w b r f) (hs : Stocked ctx lists w)
    (hne : e ≠ f) : e.Apart f := by
  obtain ⟨-, p, hp, he⟩ := h
  obtain ⟨-, p', hp', hf⟩ := h'
  have hp₁ := hs.arenas.sound q p hp
  by_cases hqr : q = r
  · subst hqr
    obtain rfl := Option.some.inj (hp'.symm.trans hp)
    exact hp₁.sound.apart_of_ne he hf hne
  · obtain ⟨-, hlow, hhigh⟩ := hp₁.within he
    obtain ⟨-, hlow', hhigh'⟩ := (hs.arenas.sound r p' hp').within hf
    rcases hs.arenas.apart q r p p' hp hp' hqr with hout | hout
    · exact Or.inl (hhigh.trans (hout.trans hlow'))
    · exact Or.inr (hhigh'.trans (hout.trans hlow))

/-- **A block is out of one puddle only.** -/
theorem Holds.unique (h : Holds lists w a q e) (h' : Holds lists w b r e)
    (hs : Stocked ctx lists w) : a = b ∧ q = r := by
  obtain ⟨hq, p, hp, he⟩ := h
  obtain ⟨hr, p', hp', he'⟩ := h'
  have hqr : q = r := by
    by_contra hqr
    obtain ⟨hpos, hlow, hhigh⟩ := (hs.arenas.sound q p hp).within he
    obtain ⟨-, hlow', hhigh'⟩ := (hs.arenas.sound r p' hp').within he'
    rcases hs.arenas.apart q r p p' hp hp' hqr with hout | hout <;>
      dsimp only [DmaPuddle.extent] at hout <;> omega
  subst hqr
  exact ⟨hs.lists.once a b q hq hr, rfl⟩

/-! ## What the calls make of it -/

/-- **A block more.** -/
theorem Took.holds (ht : Took w w' q p e) (hs : Stocked ctx lists w) (hq : q ∈ lists a) :
    Holds lists w' b r f ↔ Holds lists w b r f ∨ b = a ∧ r = q ∧ f = e := by
  have hself : w'.puds q = some { p with mh := p.mh.take e } := by
    rw [ht.eq]
    exact Function.update_self q _ w.puds
  have hother : ∀ r, r ≠ q → w'.puds r = w.puds r := by
    intro r hr
    rw [ht.eq]
    exact World.puds_setPud_of_ne hr
  constructor
  · rintro ⟨hr, p', hp', hf⟩
    by_cases hrq : r = q
    · subst hrq
      obtain rfl := Option.some.inj (hself.symm.trans hp')
      rcases List.mem_cons.mp hf with rfl | hf
      · exact Or.inr ⟨hs.lists.once b a r hr hq, rfl, rfl⟩
      · exact Or.inl ⟨hr, p, ht.pud, hf⟩
    · exact Or.inl ⟨hr, p', (hother r hrq).symm.trans hp', hf⟩
  · rintro (⟨hr, p', hp', hf⟩ | ⟨rfl, rfl, rfl⟩)
    · by_cases hrq : r = q
      · subst hrq
        obtain rfl := Option.some.inj (ht.pud.symm.trans hp')
        exact ⟨hr, _, hself, List.mem_cons_of_mem e hf⟩
      · exact ⟨hr, p', (hother r hrq).trans hp', hf⟩
    · exact ⟨hq, _, hself, List.mem_cons_self⟩

/-- A new puddle has nothing out. -/
theorem Grew.holds (hg : Grew ctx w w' a q p) (hs : Stocked ctx lists w) :
    Holds (Function.update lists a (q :: lists a)) w' b r f ↔ Holds lists w b r f := by
  have hnone := World.puds_of_unused hg.unused
  have hother : ∀ r, r ≠ q → w'.puds r = w.puds r := by
    intro r hr
    obtain ⟨P, -, -, heq⟩ := hg.pool
    rw [heq]
    exact World.puds_setPud_of_ne hr
  have hne : ∀ b, q ∉ lists b := by
    intro b hb
    obtain ⟨p, hp⟩ := hs.exists_pud hb
    rw [hnone] at hp
    cases hp
  have hlists : r ≠ q → (r ∈ Function.update lists a (q :: lists a) b ↔ r ∈ lists b) := by
    intro hr
    by_cases hba : b = a
    · rw [hba, Function.update_self, List.mem_cons]
      exact or_iff_right hr
    · rw [Function.update_of_ne hba]
  constructor
  · rintro ⟨hr, p', hp', hf⟩
    by_cases hrq : r = q
    · subst hrq
      obtain rfl := Option.some.inj (hg.pud.symm.trans hp')
      rw [hg.mh] at hf
      exact absurd hf List.not_mem_nil
    · exact ⟨(hlists hrq).mp hr, p', (hother r hrq).symm.trans hp', hf⟩
  · rintro ⟨hr, p', hp', hf⟩
    have hrq : r ≠ q := fun hrq => hne b (hrq ▸ hr)
    exact ⟨(hlists hrq).mpr hr, p', (hother r hrq).trans hp', hf⟩

/-- **A block less.** -/
theorem Stocked.holds_returned (hs : Stocked ctx lists w) (E : Exec) (hp : w.puds q = some p)
    (he : e ∈ p.mh.out) :
    Holds lists (w.returned E q p e) b r f ↔ Holds lists w b r f ∧ f ≠ e := by
  have hself : (w.returned E q p e).puds q = some { p with mh := p.mh.give e } :=
    World.puds_returned
  have hother : ∀ r, r ≠ q → (w.returned E q p e).puds r = w.puds r :=
    fun r hr => World.puds_setPud_of_ne hr
  have hnodup := (hs.arenas.sound q p hp).sound.nodup
  constructor
  · rintro ⟨hr, p', hp', hf⟩
    by_cases hrq : r = q
    · subst hrq
      obtain rfl := Option.some.inj (hself.symm.trans hp')
      obtain ⟨hne, hf⟩ := hnodup.mem_erase_iff.mp hf
      exact ⟨⟨hr, p, hp, hf⟩, hne⟩
    · rw [hother r hrq] at hp'
      refine ⟨⟨hr, p', hp', hf⟩, ?_⟩
      rintro rfl
      obtain ⟨a, hq⟩ := hs.exists_list hp
      exact hrq (Holds.unique ⟨hr, p', hp', hf⟩ ⟨hq, p, hp, he⟩ hs).2
  · rintro ⟨⟨hr, p', hp', hf⟩, hne⟩
    by_cases hrq : r = q
    · subst hrq
      obtain rfl := Option.some.inj (hp.symm.trans hp')
      exact ⟨hr, _, hself, hnodup.mem_erase_iff.mpr ⟨hne, hf⟩⟩
    · exact ⟨hr, p', (hother r hrq).trans hp', hf⟩

/-- The blocks of the puddles that stay. -/
theorem Culled.holds (hc : Culled ctx lists w w' a l gone)
    (hl : ∀ q, q ∈ l ↔ q ∈ lists a ∧ q ∉ gone) (hgone : ∀ q ∈ gone, q ∈ lists a)
    (hs : Stocked ctx lists w) :
    Holds (Function.update lists a l) w' b r f ↔ Holds lists w b r f ∧ r ∉ gone := by
  have hlists : r ∉ gone → (r ∈ Function.update lists a l b ↔ r ∈ lists b) := by
    intro hr
    by_cases hba : b = a
    · rw [hba, Function.update_self, hl]
      exact and_iff_left hr
    · rw [Function.update_of_ne hba]
  have hstays : ∀ q, q ∉ gone → ∀ f, (∃ p, w'.puds q = some p ∧ f ∈ p.mh.out)
      ↔ ∃ p, w.puds q = some p ∧ f ∈ p.mh.out := by
    intro q hq f
    have hpud : (w'.puds q).map DmaPuddle.core = (w.puds q).map DmaPuddle.core :=
      (hc.puds q).trans (if_neg hq)
    have hcore : ∀ v : World, (∃ p, v.puds q = some p ∧ f ∈ p.mh.out)
        ↔ ∃ p, (v.puds q).map DmaPuddle.core = some p ∧ f ∈ p.mh.out := by
      intro v
      constructor
      · rintro ⟨p, hp, hf⟩
        exact ⟨p.core, by rw [hp, Option.map_some], hf⟩
      · rintro ⟨p, hp, hf⟩
        obtain ⟨p', hp', rfl⟩ := Option.map_eq_some_iff.mp hp
        exact ⟨p', hp', hf⟩
    rw [hcore w', hcore w, hpud]
  constructor
  · rintro ⟨hr, hout⟩
    have hnot : r ∉ gone := by
      intro hmem
      by_cases hba : b = a
      · rw [hba, Function.update_self, hl] at hr
        exact hr.2 hmem
      · rw [Function.update_of_ne hba] at hr
        exact hba (hs.lists.once b a r hr (hgone r hmem))
    exact ⟨⟨(hlists hnot).mp hr, (hstays r hnot f).mp hout⟩, hnot⟩
  · rintro ⟨⟨hr, hout⟩, hnot⟩
    exact ⟨(hlists hnot).mpr hr, (hstays r hnot f).mpr hout⟩

/-- **Idle is large, with nothing out.** -/
theorem idle_iff (hs : Stocked ctx lists w) (hp : w.puds q = some p) :
    w.idle size q = true ↔ size < p.arenaSize ∧ p.mh.out = [] := by
  have hp' := hs.arenas.sound q p hp
  rw [idle_of_eq hp, decide_eq_true_iff, DmaPuddle.Idle, ← hp'.balanced.out_eq_nil hp'.sound,
    hp'.lower, hp'.upper]
  exact and_congr_right fun _ => (Nat.add_left_cancel_iff).symm

/-- **A shrink leaves every block out.** -/
theorem Culled.holds_shrink (hs : Stocked ctx lists w)
    (hc : Culled ctx lists w w' a ((lists a).filter fun q => !w.idle size q)
      ((lists a).filter (w.idle size))) :
    Holds (Function.update lists a ((lists a).filter fun q => !w.idle size q)) w' b r f
      ↔ Holds lists w b r f := by
  have hl : ∀ q, q ∈ (lists a).filter (fun q => !w.idle size q)
      ↔ q ∈ lists a ∧ q ∉ (lists a).filter (w.idle size) := by
    intro q
    rw [List.mem_filter, List.mem_filter, not_and, Bool.not_eq_true']
    exact and_congr_right
      fun hq => ⟨fun hidle _ htrue => Bool.false_ne_true (hidle.symm.trans htrue),
      fun hnot => Bool.eq_false_iff.mpr (hnot hq)⟩
  rw [hc.holds hl (fun _ hq => List.mem_of_mem_filter hq) hs]
  refine and_iff_left_of_imp fun hholds hmem => ?_
  obtain ⟨-, p, hp, hf⟩ := hholds
  obtain ⟨-, hidle⟩ := List.mem_filter.mp hmem
  rw [((idle_iff hs hp).mp hidle).2] at hf
  exact absurd hf List.not_mem_nil

/-- A delete leaves the blocks of the other pools. -/
theorem Culled.holds_delete (hs : Stocked ctx lists w) (hc : Culled ctx lists w w' a [] (lists a)) :
    Holds (Function.update lists a []) w' b r f ↔ Holds lists w b r f ∧ b ≠ a := by
  rw [hc.holds (fun q => iff_of_false List.not_mem_nil fun h => h.2 h.1) (fun _ hq => hq) hs]
  refine and_congr_right fun hholds => not_congr ⟨fun hmem => ?_, fun hba => hba ▸ hholds.1⟩
  exact hs.lists.once b a r hholds.1 hmem

/-! ## Allocations -/

theorem Grew.pools_of_ne (hg : Grew ctx w w' a q p) (hb : b ≠ a) : w'.pools b = w.pools b := by
  obtain ⟨P, -, -, heq⟩ := hg.pool
  rw [heq]
  exact Function.update_of_ne hb _ _

/-- **A pool that grows** has no more blocks out. -/
theorem Grew.spec (hg : Grew ctx w w' a q p) (hs : Stocked ctx lists w) : ∃ lists',
    Stocked ctx lists' w' ∧ (∀ b r f, Holds lists' w' b r f ↔ Holds lists w b r f) ∧
      (∀ i, w.Out i → w'.mem i = w.mem i) ∧ (w.pools 0 = none → w'.pools 0 = none) := by
  refine ⟨_, hg.stocked hs, fun b r f => hg.holds hs, fun i hi => hg.mem_out hs hi, fun h0 => ?_⟩
  rw [hg.pools_of_ne, h0]
  rintro rfl
  obtain ⟨P, hP, -, -⟩ := hg.pool
  exact Option.some_ne_none P (hP.symm.trans h0)

/-- **A block that goes out** was in no block that is. -/
theorem Took.spec (ht : Took w w' q p e) (hs : Stocked ctx lists w) : ∃ a,
    Stocked ctx lists w' ∧
      (∀ b r f, Holds lists w' b r f ↔ Holds lists w b r f ∨ b = a ∧ r = q ∧ f = e) ∧
      (∀ b r, ¬Holds lists w b r e) ∧ (∀ i, w.Out i → w'.mem i = w.mem i) ∧
      w'.pools = w.pools := by
  obtain ⟨a, hq⟩ := hs.exists_list ht.pud
  have hholds : ∀ b r f, Holds lists w' b r f ↔ Holds lists w b r f ∨ b = a ∧ r = q ∧ f = e :=
    fun b r f => ht.holds hs hq
  refine ⟨a, ht.stocked hs, hholds, fun b r hold => ?_, fun i hi => ht.mem_out hs hi, ?_⟩
  · have hnew := (hholds a q e).mpr (Or.inr ⟨rfl, rfl, rfl⟩)
    obtain ⟨rfl, rfl⟩ := ((hholds b r e).mpr (Or.inl hold)).unique hnew (ht.stocked hs)
    obtain ⟨-, p', hp', he⟩ := hold
    obtain rfl := Option.some.inj (ht.pud.symm.trans hp')
    exact (ht.fresh.apart e he).ne ht.fresh.pos rfl
  · rw [ht.eq]
    rfl

/-- **`dma_pool_region_alloc`, with a block**: one more is out, of the pool that was asked. -/
theorem region_alloc_some (hs : Stocked ctx lists w)
    (hcall : dmaPoolRegionAlloc E ctx n a size w = some (some raw, w')) : ∃ lists' q,
    Stocked ctx lists' w' ∧
      (∀ b r f, Holds lists' w' b r f ↔ Holds lists w b r f ∨
        b = a ∧ r = q ∧ f = ⟨raw, alignUp size MEM_BLOCKSIZE⟩) ∧
      (∀ b r, ¬Holds lists w b r ⟨raw, alignUp size MEM_BLOCKSIZE⟩) ∧ raw ≠ 0 ∧
      (∀ i, w.Out i → w'.mem i = w.mem i) ∧ (w.pools 0 = none → w'.pools 0 = none) := by
  cases region_alloc_cases hs hcall with
  | took hq ht =>
    obtain ⟨b, hs', hholds, hnew, hm, hpools⟩ := ht.spec hs
    obtain rfl : a = b := by
      obtain ⟨hq', -⟩ := (hholds b _ _).mpr (Or.inr ⟨rfl, rfl, rfl⟩)
      exact hs.lists.once a b _ hq hq'
    exact ⟨lists, _, hs', hholds, hnew, ht.fresh.ne_zero, hm, fun h0 => hpools ▸ h0⟩
  | grew hg ht =>
    rename_i q p w₁
    have hs₁ := hg.stocked hs
    obtain ⟨b, hs', hholds, hnew, hm, hpools⟩ := ht.spec hs₁
    have hsame : ∀ b r f, Holds (Function.update lists a (q :: lists a)) w₁ b r f
        ↔ Holds lists w b r f := fun b r f => hg.holds hs
    have hq : q ∈ Function.update lists a (q :: lists a) a := by
      rw [Function.update_self]
      exact List.mem_cons_self
    obtain rfl : a = b := by
      obtain ⟨hq', -⟩ := (hholds b q _).mpr (Or.inr ⟨rfl, rfl, rfl⟩)
      exact hs₁.lists.once a b q hq hq'
    refine ⟨_, q, hs', fun b r f => (hholds b r f).trans (or_congr_left (hsame b r f)),
      fun b r hold => hnew b r ((hsame b r _).mpr hold), ht.fresh.ne_zero, fun i hi => ?_,
        fun h0 => ?_⟩
    · obtain ⟨r, p', hp', f, hf, hhas⟩ := hi
      obtain ⟨c, hr⟩ := hs.exists_list hp'
      have hold : Holds lists w c r f := ⟨hr, p', hp', hf⟩
      exact (hm i (((hsame c r f).mpr hold).out hhas)).trans (hg.mem_out hs (hold.out hhas))
    · obtain ⟨-, -, -, -, hnull⟩ := hg.spec hs
      exact hpools ▸ hnull h0

/-- **`dma_pool_region_alloc`, without a block**: what is out is as it was. -/
theorem region_alloc_none (hs : Stocked ctx lists w)
    (hcall : dmaPoolRegionAlloc E ctx n a size w = some (none, w')) : ∃ lists',
    Stocked ctx lists' w' ∧ (∀ b r f, Holds lists' w' b r f ↔ Holds lists w b r f) ∧
      (∀ i, w.Out i → w'.mem i = w.mem i) ∧ (w.pools 0 = none → w'.pools 0 = none) := by
  cases region_alloc_cases hs hcall with
  | wasted _ _ hg => exact hg.spec hs
  | unmoved _ hun =>
    have hw := hs.setMem w'.mem
    rw [← hun.eq] at hw
    refine ⟨lists, hw, fun b r f => ?_, fun i hi => hun.mem i fun r hr => ?_, fun h0 => ?_⟩
    · rw [hun.eq]
      rfl
    · exact hs.arenas.spared_header hi hr
    · rw [hun.eq]
      exact h0

end Dma
