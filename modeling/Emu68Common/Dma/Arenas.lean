import Emu68Common.Dma.Pool
import Emu68Common.Machinery.Path

/-!
# Dma/Arenas — the arenas of the pools

The blocks out of the regions' headers are the arenas of the puddles, each once (`Arenas`), and the
puddles are on the pools' lists, each on one (`Listed`).  So a block out of a puddle lies in a
region, off every other, and Exec writes none of them (`Arenas.spared_header`, `…_pud`).  A puddle
enters by its list's head, and leaves by the link that leads to it.
-/

namespace Dma

open Machinery

/-! ## Lookups -/

namespace World

variable {w : World} {q q' h h' : ℕ} {p p' : DmaPuddle}

theorem puds_setPud_self (o : Option DmaPuddle) : (w.setPud q o).puds q = o := by
  change Function.update w.puds q o q = o
  rw [Function.update_self]

theorem puds_setPud_of_ne {o : Option DmaPuddle} (hne : q' ≠ q) :
    (w.setPud q o).puds q' = w.puds q' := by
  change Function.update w.puds q o q' = w.puds q'
  rw [Function.update_of_ne hne]

theorem headers_setHeader_self (mh : MemHeader) : (w.setHeader h mh).headers h = mh := by
  change Function.update w.headers h mh h = mh
  rw [Function.update_self]

theorem headers_setHeader_of_ne {mh : MemHeader} (hne : h' ≠ h) :
    (w.setHeader h mh).headers h' = w.headers h' := by
  change Function.update w.headers h mh h' = w.headers h'
  rw [Function.update_of_ne hne]

theorem next_of_eq (hq : w.puds q = some p) : w.next q = some p.next := by rw [next, hq]; rfl

theorem next_setPud (o : Option DmaPuddle) :
    (w.setPud q o).next = Function.update w.next q (o.map DmaPuddle.next) := by
  ext1 r
  by_cases hr : r = q
  · rw [hr, next, puds_setPud_self, Function.update_self]
  · rw [next, puds_setPud_of_ne hr, Function.update_of_ne hr, next]

/-- Only the link matters to the lists. -/
theorem next_setPud_of_eq (hq : w.puds q = some p) (hnext : p'.next = p.next) :
    (w.setPud q (some p')).next = w.next := by
  rw [next_setPud, Option.map_some, hnext, ← next_of_eq hq, Function.update_eq_self]

/-- Whether a byte is in a block out of a puddle. -/
def Out (w : World) (i : ℕ) : Prop := ∃ q p, w.puds q = some p ∧ ∃ e ∈ p.mh.out, e.Has i

end World

/-! ## The arenas -/

/-- A puddle's arena. -/
def DmaPuddle.extent (p : DmaPuddle) : Extent := ⟨p.arena, p.arenaSize⟩

/-- **A puddle in order**: its header stands for its arena. -/
structure DmaPuddle.Sound (p : DmaPuddle) : Prop where
  lower : p.mh.mhLower = p.arena
  upper : p.mh.mhUpper = p.arena + p.arenaSize
  pos : 0 < p.arenaSize
  sound : p.mh.Sound
  balanced : p.mh.Balanced

/-- A block out of a puddle is in its arena. -/
theorem DmaPuddle.Sound.within {p : DmaPuddle} {e : Extent} (h : p.Sound) (he : e ∈ p.mh.out) :
    0 < e.size ∧ p.arena ≤ e.addr ∧ e.addr + e.size ≤ p.arena + p.arenaSize := by
  obtain ⟨hpos, hlow, hhigh⟩ := h.sound.within e he
  exact ⟨hpos, h.lower ▸ hlow, h.upper ▸ hhigh⟩

/-- Regions that do not meet. -/
def DmaMemCtx.Disjoint (ctx : DmaMemCtx) : Prop :=
  ctx.regions.Pairwise fun r s => r.end_ ≤ s.start ∨ s.end_ ≤ r.start

/-- **The arenas in order**: the blocks out of the headers are the puddles' arenas. -/
structure Arenas (ctx : DmaMemCtx) (w : World) : Prop where
  filled : ctx.Filled w.headers
  disjoint : ctx.Disjoint
  null : w.puds 0 = none
  sound : ∀ q p, w.puds q = some p → p.Sound
  source : ∀ q p, w.puds q = some p → ∃ r ∈ ctx.regions, r.header = p.src
  headers : ∀ h, (w.headers h).Sound
  out : ∀ h e, e ∈ (w.headers h).out ↔ ∃ q p, w.puds q = some p ∧ p.src = h ∧ p.extent = e
  apart : ∀ q q' p p', w.puds q = some p → w.puds q' = some p' → q ≠ q' →
    p.extent.Apart p'.extent

namespace Arenas

variable {ctx : DmaMemCtx} {w : World} {q n i : ℕ} {p p' : DmaPuddle} {r : DmaMemRegion}
  {e : Extent} {m : Block}

theorem ne_zero (h : Arenas ctx w) (hq : w.puds q = some p) : q ≠ 0 := by
  rintro rfl
  exact Option.some_ne_none p (hq.symm.trans h.null)

/-- An arena is out of its header. -/
theorem extent_mem (h : Arenas ctx w) (hq : w.puds q = some p) :
    p.extent ∈ (w.headers p.src).out :=
  (h.out p.src p.extent).mpr ⟨q, p, hq, rfl, rfl⟩

/-- An arena is in one region … -/
theorem inside (h : Arenas ctx w) (hq : w.puds q = some p) : ∃ r ∈ ctx.regions,
    r.header = p.src ∧ r.start ≤ p.arena ∧ p.arena + p.arenaSize ≤ r.end_ := by
  obtain ⟨r, hr, hheader⟩ := h.source q p hq
  obtain ⟨hstart, hend, -⟩ := h.filled r hr
  obtain ⟨-, hlow, hhigh⟩ := (h.headers p.src).within _ (h.extent_mem hq)
  rw [hheader] at hstart hend
  exact ⟨r, hr, hheader, hstart ▸ hlow, hend ▸ hhigh⟩

/-- … and outside the others. -/
theorem outside (h : Arenas ctx w) (hr : r ∈ ctx.regions) (hq : w.puds q = some p)
    (hsrc : p.src ≠ r.header) : p.arena + p.arenaSize ≤ (w.headers r.header).mhLower ∨
      (w.headers r.header).mhUpper ≤ p.arena := by
  obtain ⟨s, hs, hheader, hlow, hhigh⟩ := h.inside hq
  have hne : s ≠ r := fun hsr => hsrc (hheader.symm.trans (congrArg _ hsr))
  have : Std.Symm fun r s : DmaMemRegion => r.end_ ≤ s.start ∨ s.end_ ≤ r.start :=
    ⟨fun _ _ => Or.symm⟩
  have hdis := h.disjoint.forall hs hr hne
  obtain ⟨hstart, hend, -⟩ := h.filled r hr
  rcases hdis with hdis | hdis
  · exact Or.inl (hhigh.trans (hdis.trans hstart.le))
  · exact Or.inr (hend.ge.trans (hdis.trans hlow))

/-- **Arenas are apart from what a region's header hands out.** -/
theorem apart_of_fresh (h : Arenas ctx w) (hr : r ∈ ctx.regions)
    (hf : (w.headers r.header).Fresh e) (hq : w.puds q = some p) : e.Apart p.extent := by
  by_cases hsrc : p.src = r.header
  · exact hf.apart _ (hsrc ▸ h.extent_mem hq)
  · rcases h.outside hr hq hsrc with hout | hout
    · exact Or.inr (hout.trans hf.lower)
    · exact Or.inl (hf.upper.trans hout)

/-- **A block that is out is not written** when Exec works on a region's header … -/
theorem spared_header (h : Arenas ctx w) (hi : w.Out i) (hr : r ∈ ctx.regions) :
    (w.headers r.header).Spared i := by
  obtain ⟨q, p, hq, e, he, hhas⟩ := hi
  obtain ⟨-, hlow, hhigh⟩ := (h.sound q p hq).within he
  have harena : p.extent.Has i := ⟨hlow.trans hhas.1, lt_of_lt_of_le hhas.2 hhigh⟩
  by_cases hsrc : p.src = r.header
  · exact Or.inr (Or.inr ⟨p.extent, hsrc ▸ h.extent_mem hq, harena⟩)
  · rcases h.outside hr hq hsrc with hout | hout
    · exact Or.inl (lt_of_lt_of_le harena.2 hout)
    · exact Or.inr (Or.inl (hout.trans harena.1))

/-- … nor when it works on a puddle's. -/
theorem spared_pud (h : Arenas ctx w) (hi : w.Out i) (hq : w.puds q = some p) :
    p.mh.Spared i := by
  obtain ⟨q', p', hq', e, he, hhas⟩ := hi
  by_cases hqq : q' = q
  · subst hqq
    obtain rfl := Option.some.inj (hq'.symm.trans hq)
    exact Or.inr (Or.inr ⟨e, he, hhas⟩)
  · obtain ⟨-, hlow, hhigh⟩ := (h.sound q' p' hq').within he
    have hp := h.sound q p hq
    rcases h.apart q' q p' p hq' hq hqq with hout | hout
    · exact Or.inl (hp.lower ▸ lt_of_lt_of_le hhas.2 (hhigh.trans hout))
    · exact Or.inr (Or.inl (hp.upper ▸ hout.trans (hlow.trans hhas.1)))

/-! ### Puddles changed, added and removed -/

/-- **A puddle changed**, but not its arena. -/
theorem setPud (h : Arenas ctx w) (hq : w.puds q = some p) (hsrc : p'.src = p.src)
    (hext : p'.extent = p.extent) (hs : p'.Sound) : Arenas ctx (w.setPud q (some p')) := by
  have hback : ∀ q₁ p₁, (w.setPud q (some p')).puds q₁ = some p₁ →
      p₁.Sound ∧ ∃ p₀, w.puds q₁ = some p₀ ∧ p₀.src = p₁.src ∧ p₀.extent = p₁.extent := by
    intro q₁ p₁ hq₁
    by_cases hqq : q₁ = q
    · subst hqq
      rw [World.puds_setPud_self] at hq₁
      obtain rfl := Option.some.inj hq₁
      exact ⟨hs, p, hq, hsrc.symm, hext.symm⟩
    · rw [World.puds_setPud_of_ne hqq] at hq₁
      exact ⟨h.sound q₁ p₁ hq₁, p₁, hq₁, rfl, rfl⟩
  have hforth : ∀ q₁ p₀, w.puds q₁ = some p₀ →
      ∃ p₁, (w.setPud q (some p')).puds q₁ = some p₁ ∧ p₁.src = p₀.src ∧ p₁.extent = p₀.extent := by
    intro q₁ p₀ hq₁
    by_cases hqq : q₁ = q
    · subst hqq
      obtain rfl := Option.some.inj (hq.symm.trans hq₁)
      exact ⟨p', World.puds_setPud_self _, hsrc, hext⟩
    · exact ⟨p₀, (World.puds_setPud_of_ne hqq).trans hq₁, rfl, rfl⟩
  refine ⟨h.filled, h.disjoint, ?null, ?sound, ?source, h.headers, ?out, ?apart⟩
  case null => exact (World.puds_setPud_of_ne (h.ne_zero hq).symm).trans h.null
  case sound => exact fun q₁ p₁ hq₁ => (hback q₁ p₁ hq₁).1
  case source =>
    intro q₁ p₁ hq₁
    obtain ⟨-, p₀, hq₀, hsrc, -⟩ := hback q₁ p₁ hq₁
    exact hsrc ▸ h.source q₁ p₀ hq₀
  case out =>
    intro hd e
    refine (h.out hd e).trans ⟨?_, ?_⟩
    · rintro ⟨q₁, p₀, hq₀, rfl, rfl⟩
      obtain ⟨p₁, hq₁, hsrc, hext⟩ := hforth q₁ p₀ hq₀
      exact ⟨q₁, p₁, hq₁, hsrc, hext⟩
    · rintro ⟨q₁, p₁, hq₁, rfl, rfl⟩
      obtain ⟨-, p₀, hq₀, hsrc, hext⟩ := hback q₁ p₁ hq₁
      exact ⟨q₁, p₀, hq₀, hsrc, hext⟩
  case apart =>
    intro q₁ q₂ p₁ p₂ hq₁ hq₂ hne
    obtain ⟨-, p₁', hq₁', -, hext₁⟩ := hback q₁ p₁ hq₁
    obtain ⟨-, p₂', hq₂', -, hext₂⟩ := hback q₂ p₂ hq₂
    exact hext₁ ▸ hext₂ ▸ h.apart q₁ q₂ p₁' p₂' hq₁' hq₂' hne

/-- The regions keep their bounds. -/
theorem filled_setHeader (h : ctx.Filled w.headers) {hd : ℕ} {mh : MemHeader}
    (hlow : mh.mhLower = (w.headers hd).mhLower) (hup : mh.mhUpper = (w.headers hd).mhUpper) :
    ctx.Filled (w.setHeader hd mh).headers := by
  intro r hr
  obtain ⟨hstart, hend, hle⟩ := h r hr
  by_cases hrd : r.header = hd
  · rw [hrd] at hstart hend ⊢
    rw [World.headers_setHeader_self]
    exact ⟨hstart.trans hlow.symm, hend.trans hup.symm, hle⟩
  · rw [World.headers_setHeader_of_ne hrd]
    exact ⟨hstart, hend, hle⟩

/-- **An arena is taken** for a new puddle. -/
theorem add (h : Arenas ctx w) (hr : r ∈ ctx.regions) (hq : w.puds q = none) (h0 : q ≠ 0)
    (hsrc : p.src = r.header) (hf : (w.headers r.header).Fresh p.extent) (hs : p.Sound) :
    Arenas ctx ((w.setHeader r.header ((w.headers r.header).take p.extent)).setPud q (some p)) := by
  have hcases : ∀ q₁ p₁, ((w.setHeader r.header ((w.headers r.header).take p.extent)).setPud q
      (some p)).puds q₁ = some p₁ → q₁ = q ∧ p₁ = p ∨ q₁ ≠ q ∧ w.puds q₁ = some p₁ := by
    intro q₁ p₁ hq₁
    by_cases hqq : q₁ = q
    · subst hqq
      rw [World.puds_setPud_self] at hq₁
      exact Or.inl ⟨rfl, (Option.some.inj hq₁).symm⟩
    · rw [World.puds_setPud_of_ne hqq] at hq₁
      exact Or.inr ⟨hqq, hq₁⟩
  have hold : ∀ q₁ p₁, w.puds q₁ = some p₁ → ((w.setHeader r.header
      ((w.headers r.header).take p.extent)).setPud q (some p)).puds q₁ = some p₁ := by
    intro q₁ p₁ hq₁
    refine (World.puds_setPud_of_ne ?_).trans hq₁
    rintro rfl
    exact Option.some_ne_none p₁ (hq₁.symm.trans hq)
  refine ⟨filled_setHeader h.filled rfl rfl, h.disjoint, ?null, ?sound, ?source, ?headers, ?out,
    ?apart⟩
  case null => exact (World.puds_setPud_of_ne h0.symm).trans h.null
  case sound =>
    intro q₁ p₁ hq₁
    rcases hcases q₁ p₁ hq₁ with ⟨-, rfl⟩ | ⟨-, hq₁⟩
    · exact hs
    · exact h.sound q₁ p₁ hq₁
  case source =>
    intro q₁ p₁ hq₁
    rcases hcases q₁ p₁ hq₁ with ⟨-, rfl⟩ | ⟨-, hq₁⟩
    · exact ⟨r, hr, hsrc.symm⟩
    · exact h.source q₁ p₁ hq₁
  case headers =>
    intro hd
    by_cases hhd : hd = r.header
    · subst hhd
      exact (World.headers_setHeader_self _).symm ▸ (h.headers _).take hf
    · exact (World.headers_setHeader_of_ne hhd).symm ▸ h.headers hd
  case out =>
    intro hd e
    have hmem : e ∈ ((w.setHeader r.header ((w.headers r.header).take p.extent)).headers hd).out ↔
        hd = r.header ∧ p.extent = e ∨ e ∈ (w.headers hd).out := by
      by_cases hhd : hd = r.header
      · subst hhd
        rw [World.headers_setHeader_self]
        exact List.mem_cons.trans ⟨Or.imp_left fun he => ⟨rfl, he.symm⟩,
          Or.imp_left fun he => he.2.symm⟩
      · rw [World.headers_setHeader_of_ne hhd]
        exact ⟨Or.inr, fun he => he.resolve_left fun he => hhd he.1⟩
    refine hmem.trans ⟨?_, ?_⟩
    · rintro (⟨rfl, rfl⟩ | he)
      · exact ⟨q, p, World.puds_setPud_self _, hsrc, rfl⟩
      · obtain ⟨q₁, p₁, hq₁, hhd, hext⟩ := (h.out hd e).mp he
        exact ⟨q₁, p₁, hold q₁ p₁ hq₁, hhd, hext⟩
    · rintro ⟨q₁, p₁, hq₁, hhd, hext⟩
      rcases hcases q₁ p₁ hq₁ with ⟨-, rfl⟩ | ⟨-, hq₁⟩
      · exact Or.inl ⟨hhd.symm.trans hsrc, hext⟩
      · exact Or.inr ((h.out hd e).mpr ⟨q₁, p₁, hq₁, hhd, hext⟩)
  case apart =>
    intro q₁ q₂ p₁ p₂ hq₁ hq₂ hne
    rcases hcases q₁ p₁ hq₁ with ⟨rfl, rfl⟩ | ⟨-, hw₁⟩
    · rcases hcases q₂ p₂ hq₂ with ⟨rfl, -⟩ | ⟨-, hw₂⟩
      · exact absurd rfl hne
      · exact h.apart_of_fresh hr hf hw₂
    · rcases hcases q₂ p₂ hq₂ with ⟨-, rfl⟩ | ⟨-, hw₂⟩
      · exact (h.apart_of_fresh hr hf hw₁).symm
      · exact h.apart q₁ q₂ p₁ p₂ hw₁ hw₂ hne

/-- **An arena is given back**, and its puddle is gone. -/
theorem remove (h : Arenas ctx w) (hq : w.puds q = some p) :
    Arenas ctx ((w.setHeader p.src ((w.headers p.src).give p.extent)).setPud q none) := by
  have hcases : ∀ q₁ p₁, ((w.setHeader p.src ((w.headers p.src).give p.extent)).setPud q
      none).puds q₁ = some p₁ → q₁ ≠ q ∧ w.puds q₁ = some p₁ := by
    intro q₁ p₁ hq₁
    by_cases hqq : q₁ = q
    · subst hqq
      rw [World.puds_setPud_self] at hq₁
      exact absurd hq₁.symm (Option.some_ne_none p₁)
    · rw [World.puds_setPud_of_ne hqq] at hq₁
      exact ⟨hqq, hq₁⟩
  refine ⟨filled_setHeader h.filled rfl rfl, h.disjoint, ?null, ?sound, ?source, ?headers, ?out,
    ?apart⟩
  case null => exact (World.puds_setPud_of_ne (h.ne_zero hq).symm).trans h.null
  case sound => exact fun q₁ p₁ hq₁ => h.sound q₁ p₁ (hcases q₁ p₁ hq₁).2
  case source => exact fun q₁ p₁ hq₁ => h.source q₁ p₁ (hcases q₁ p₁ hq₁).2
  case headers =>
    intro hd
    by_cases hhd : hd = p.src
    · subst hhd
      exact (World.headers_setHeader_self _).symm ▸ (h.headers _).give _
    · exact (World.headers_setHeader_of_ne hhd).symm ▸ h.headers hd
  case out =>
    intro hd e
    have hmem : e ∈ ((w.setHeader p.src ((w.headers p.src).give p.extent)).headers hd).out ↔
        e ∈ (w.headers hd).out ∧ (hd = p.src → e ≠ p.extent) := by
      by_cases hhd : hd = p.src
      · subst hhd
        rw [World.headers_setHeader_self]
        exact ((h.headers _).nodup.mem_erase_iff).trans ⟨fun he => ⟨he.2, fun _ => he.1⟩,
          fun he => ⟨he.2 rfl, he.1⟩⟩
      · rw [World.headers_setHeader_of_ne hhd]
        exact ⟨fun he => ⟨he, fun hhd' => absurd hhd' hhd⟩, fun he => he.1⟩
    refine hmem.trans ⟨?_, ?_⟩
    · rintro ⟨he, hne⟩
      obtain ⟨q₁, p₁, hq₁, hhd, hext⟩ := (h.out hd e).mp he
      refine ⟨q₁, p₁, (World.puds_setPud_of_ne ?_).trans hq₁, hhd, hext⟩
      rintro rfl
      obtain rfl := Option.some.inj (hq₁.symm.trans hq)
      exact hne hhd.symm hext.symm
    · rintro ⟨q₁, p₁, hq₁, hhd, rfl⟩
      obtain ⟨hqq, hq₁⟩ := hcases q₁ p₁ hq₁
      refine ⟨(h.out hd _).mpr ⟨q₁, p₁, hq₁, hhd, rfl⟩, fun _ => ?_⟩
      exact (h.apart q₁ q p₁ p hq₁ hq hqq).ne (h.sound q₁ p₁ hq₁).pos
  case apart =>
    intro q₁ q₂ p₁ p₂ hq₁ hq₂ hne
    exact h.apart q₁ q₂ p₁ p₂ (hcases q₁ p₁ hq₁).2 (hcases q₂ p₂ hq₂).2 hne

end Arenas

end Dma
