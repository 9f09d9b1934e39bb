import Emu68Common.Dma.Arenas

/-!
# Dma/Lists — the lists of the pools

A pool's puddles are linked (`Listed`), each on one list only.  A new puddle goes to the head of its
list; one that goes leaves by the link before it, the pool's own or the puddle's before (`linkOf`),
and the other lists do not notice.
-/

namespace Dma

open Machinery

/-- In a list without repeats, one in the middle is not among the others. -/
theorem middle_ne {q : ℕ} {l l' : List ℕ} (h : (l ++ q :: l').Nodup) : ∀ r ∈ l ++ l', r ≠ q := by
  rintro r hr rfl
  exact (List.nodup_cons.mp (List.perm_middle.nodup_iff.mp h)).1 hr

/-- **The pools' lists**: every linked puddle is on one of them, once. -/
structure Listed (lists : ℕ → List ℕ) (next : ℕ → Option ℕ) (pools : ℕ → Option DmaPool) :
    Prop where
  size : ∀ a P, pools a = some P → P.puddleSize = DMA_POOL_PUDDLE_SIZE
  path : ∀ a P, pools a = some P → Path next P.puddles 0 (lists a)
  bare : ∀ a, pools a = none → lists a = []
  nodup : ∀ a, (lists a).Nodup
  once : ∀ a b q, q ∈ lists a → q ∈ lists b → a = b
  listed : ∀ q, (next q).isSome → ∃ a, q ∈ lists a

namespace Listed

variable {lists : ℕ → List ℕ} {next next' : ℕ → Option ℕ} {pools pools' : ℕ → Option DmaPool}
  {a c n q : ℕ} {P : DmaPool} {l l' : List ℕ}

/-- A pool with puddles is there. -/
theorem exists_pool (h : Listed lists next pools) (hq : q ∈ lists a) : ∃ P, pools a = some P := by
  cases hP : pools a with
  | none => exact absurd (h.bare a hP ▸ hq) List.not_mem_nil
  | some P => exact ⟨P, rfl⟩

/-- A puddle on a list is linked. -/
theorem isSome_of_mem (h : Listed lists next pools) (hq : q ∈ lists a) : (next q).isSome := by
  obtain ⟨P, hP⟩ := h.exists_pool hq
  exact (h.path a P hP).isSome_of_mem hq

/-- **One list changes**; the others are as they were. -/
theorem update (h : Listed lists next pools) (hsize : P.puddleSize = DMA_POOL_PUDDLE_SIZE)
    (hP : pools' a = some P) (hpools : ∀ b, b ≠ a → pools' b = pools b)
    (hpath : Path next' P.puddles 0 l)
    (hnodup : l.Nodup) (hoff : ∀ b, b ≠ a → ∀ r ∈ lists b, next' r = next r ∧ r ∉ l)
    (hlisted : ∀ r, (next' r).isSome → r ∈ l ∨ ∃ b, b ≠ a ∧ r ∈ lists b) :
    Listed (Function.update lists a l) next' pools' := by
  have hself : Function.update lists a l a = l := Function.update_self a l lists
  have hother : ∀ b, b ≠ a → Function.update lists a l b = lists b :=
    fun b hb => Function.update_of_ne hb l lists
  refine ⟨fun b Q hQ => ?size, fun b Q hQ => ?path, fun b hb => ?bare, fun b => ?nodup,
    fun b c r hb hc => ?once, fun r hr => ?listed⟩
  case size =>
    by_cases hba : b = a
    · subst hba
      obtain rfl := Option.some.inj (hP.symm.trans hQ)
      exact hsize
    · exact h.size b Q ((hpools b hba).symm.trans hQ)
  case path =>
    by_cases hba : b = a
    · subst hba
      obtain rfl := Option.some.inj (hP.symm.trans hQ)
      exact hself.symm ▸ hpath
    · rw [hother b hba]
      exact (h.path b Q ((hpools b hba).symm.trans hQ)).congr fun r hr => (hoff b hba r hr).1
  case bare =>
    by_cases hba : b = a
    · subst hba
      exact absurd (hb.symm.trans hP) (Option.some_ne_none P).symm
    · exact (hother b hba).trans (h.bare b ((hpools b hba).symm.trans hb))
  case nodup =>
    by_cases hba : b = a
    · subst hba
      exact hself.symm ▸ hnodup
    · exact (hother b hba).symm ▸ h.nodup b
  case once =>
    by_cases hba : b = a
    · by_cases hca : c = a
      · exact hba.trans hca.symm
      · subst hba
        rw [hself] at hb
        rw [hother c hca] at hc
        exact absurd hb (hoff c hca r hc).2
    · rw [hother b hba] at hb
      by_cases hca : c = a
      · subst hca
        rw [hself] at hc
        exact absurd hc (hoff b hba r hb).2
      · rw [hother c hca] at hc
        exact h.once b c r hb hc
  case listed =>
    rcases hlisted r hr with hr | ⟨b, hba, hr⟩
    · exact ⟨a, hself.symm ▸ hr⟩
    · exact ⟨b, (hother b hba).symm ▸ hr⟩

/-- **A puddle goes to the head** of a list. -/
theorem push (h : Listed lists next pools) (hP : pools a = some P) (hq : next q = none) :
    Listed (Function.update lists a (q :: lists a)) (Function.update next q (some P.puddles))
      (Function.update pools a (some { P with puddles := q })) := by
  have hnew : ∀ b, q ∉ lists b := by
    intro b hb
    have := h.isSome_of_mem hb
    rw [hq] at this
    exact Bool.false_ne_true this
  have hoff : ∀ r, r ≠ q → Function.update next q (some P.puddles) r = next r :=
    fun r hr => Function.update_of_ne hr _ _
  have hold : ∀ b, ∀ r ∈ lists b, r ≠ q := fun b r hr hrq => hnew b (hrq ▸ hr)
  refine h.update (P := { P with puddles := q }) (h.size a P hP) (Function.update_self a _ _)
    (fun b hb => Function.update_of_ne hb _ _)
    (.cons (Function.update_self q _ _) ((h.path a P hP).congr fun r hr => hoff r (hold a r hr)))
    (List.nodup_cons.mpr ⟨hnew a, h.nodup a⟩) ?_ ?_
  · intro b hba r hr
    refine ⟨hoff r (hold b r hr), fun hmem => ?_⟩
    rcases List.mem_cons.mp hmem with hrq | hmem
    · exact hold b r hr hrq
    · exact hba (h.once b a r hr hmem)
  · intro r hr
    by_cases hrq : r = q
    · exact Or.inl (hrq ▸ List.mem_cons_self)
    · rw [hoff r hrq] at hr
      obtain ⟨b, hb⟩ := h.listed r hr
      by_cases hba : b = a
      · exact Or.inl (List.mem_cons_of_mem q (hba ▸ hb))
      · exact Or.inr ⟨b, hba, hb⟩

/-- **A puddle is taken out** of a list. -/
theorem drop (h : Listed lists next pools) (hl : lists a = l ++ q :: l')
    (hsize : P.puddleSize = DMA_POOL_PUDDLE_SIZE) (hP : pools' a = some P)
    (hpools : ∀ b, b ≠ a → pools' b = pools b) (hq : next' q = none)
    (hoff : ∀ r, r ∉ lists a → next' r = next r) (hpath : Path next' P.puddles 0 (l ++ l')) :
    Listed (Function.update lists a (l ++ l')) next' pools' := by
  have hperm : (lists a).Perm (q :: (l ++ l')) := hl ▸ List.perm_middle
  have hsub : ∀ r ∈ l ++ l', r ∈ lists a :=
    fun r hr => hperm.symm.subset (List.mem_cons_of_mem q hr)
  refine h.update hsize hP hpools hpath (hperm.nodup_iff.mp (h.nodup a)).of_cons ?_ ?_
  · intro b hba r hr
    have hnot : r ∉ lists a := fun hmem => hba (h.once b a r hr hmem)
    exact ⟨hoff r hnot, fun hmem => hnot (hsub r hmem)⟩
  · intro r hr
    by_cases hmem : r ∈ lists a
    · rcases List.mem_cons.mp (hperm.subset hmem) with rfl | hmem
      · rw [hq] at hr
        exact absurd hr Bool.false_ne_true
      · exact Or.inl hmem
    · rw [hoff r hmem] at hr
      obtain ⟨b, hb⟩ := h.listed r hr
      exact Or.inr ⟨b, fun hba => hmem (hba ▸ hb), hb⟩

/-- **The first one is taken out**: the pool links to the next. -/
theorem drop_head (h : Listed lists next pools) (hP : pools a = some P) (hl : lists a = q :: l')
    (hq : next q = some n) : Listed (Function.update lists a l') (Function.update next q none)
      (Function.update pools a (some { P with puddles := n })) := by
  have hpath := h.path a P hP
  have hnodup := h.nodup a
  rw [hl] at hpath hnodup
  obtain ⟨hhead, b, hb, hpath⟩ := hpath.tail
  rw [← hhead, hq] at hb
  obtain rfl := Option.some.inj hb
  refine h.drop (l := []) (P := { P with puddles := n }) hl (h.size a P hP)
    (Function.update_self a _ _) (fun b hb => Function.update_of_ne hb _ _)
    (Function.update_self q _ _) (fun r hr => Function.update_of_ne ?_ _ _)
    (hpath.congr fun r hr => Function.update_of_ne ?_ _ _)
  · rintro rfl
    exact hr (hl ▸ List.mem_cons_self)
  · rintro rfl
    exact (List.nodup_cons.mp hnodup).1 hr

/-- **A later one is taken out**: the one before it links to the next. -/
theorem drop_next (h : Listed lists next pools) (hP : pools a = some P)
    (hl : lists a = l ++ c :: q :: l') (hq : next q = some n) :
    Listed (Function.update lists a (l ++ c :: l'))
      (Function.update (Function.update next c (some n)) q none) pools := by
  have hsplit : lists a = (l ++ [c]) ++ q :: l' := hl.trans (List.append_cons l c _)
  have hpath := h.path a P hP
  have hnodup := h.nodup a
  rw [hl] at hpath hnodup
  have hoff := middle_ne hnodup
  have hcq : c ≠ q := (hoff q (List.mem_append_right l List.mem_cons_self)).symm
  have hc : c ∈ lists a := hl ▸ List.mem_append_right l List.mem_cons_self
  have hqa : q ∈ lists a := hsplit ▸ List.mem_append_right _ List.mem_cons_self
  have hrest : ∀ r ∈ l ++ l',
    Function.update (Function.update next c (some n)) q none r = next r := by
    intro r hr
    have hrc : r ≠ c := hoff r (by
      rcases List.mem_append.mp hr with hr | hr
      · exact List.mem_append_left _ hr
      · exact List.mem_append_right _ (List.mem_cons_of_mem q hr))
    have hrq : r ≠ q := middle_ne (hl.trans (List.append_cons l c _) ▸ h.nodup a) r (by
      rcases List.mem_append.mp hr with hr | hr
      · exact List.mem_append_left _ (List.mem_append_left _ hr)
      · exact List.mem_append_right _ hr)
    rw [Function.update_of_ne hrq, Function.update_of_ne hrc]
  rw [List.append_cons]
  refine h.drop hsplit (h.size a P hP) hP (fun _ _ => rfl) (Function.update_self q _ _)
    (fun r hr => ?_) ?_
  · have hrq : r ≠ q := fun hrq => hr (hrq ▸ hqa)
    have hrc : r ≠ c := fun hrc => hr (hrc ▸ hc)
    rw [Function.update_of_ne hrq, Function.update_of_ne hrc]
  · rw [List.append_assoc]
    refine hpath.relink ?_ hrest
    rw [Function.update_of_ne hcq, Function.update_self, hq]

/-- A pool without puddles comes or goes. -/
theorem setPool (h : Listed lists next pools) (hl : lists a = []) {o : Option DmaPool}
    (ho : ∀ P, o = some P → P.puddleSize = DMA_POOL_PUDDLE_SIZE ∧ P.puddles = 0) :
    Listed lists next (Function.update pools a o) := by
  refine ⟨fun b Q hQ => ?size, fun b Q hQ => ?path, fun b hb => ?bare, h.nodup, h.once, h.listed⟩
  case size =>
    by_cases hba : b = a
    · subst hba
      rw [Function.update_self] at hQ
      exact (ho Q hQ).1
    · rw [Function.update_of_ne hba] at hQ
      exact h.size b Q hQ
  case path =>
    by_cases hba : b = a
    · subst hba
      rw [Function.update_self] at hQ
      rw [(ho Q hQ).2, hl]
      exact .nil 0
    · rw [Function.update_of_ne hba] at hQ
      exact h.path b Q hQ
  case bare =>
    by_cases hba : b = a
    · exact hba ▸ hl
    · rw [Function.update_of_ne hba] at hb
      exact h.bare b hb

end Listed

/-! ## The pools in order -/

/-- **The pools in order**: their arenas, and their lists. -/
structure Stocked (ctx : DmaMemCtx) (lists : ℕ → List ℕ) (w : World) : Prop where
  arenas : Arenas ctx w
  lists : Listed lists w.next w.pools

/-- What a puddle is besides its link. -/
def DmaPuddle.core (p : DmaPuddle) : DmaPuddle := { p with next := 0 }

/-- The link that leads past these puddles of a pool. -/
def linkOf (pool : ℕ) (l : List ℕ) : Link := (l.getLast?.map Link.next).getD (.puddles pool)

theorem linkOf_concat (pool c : ℕ) (l : List ℕ) : linkOf pool (l ++ [c]) = .next c := by
  rw [linkOf, List.getLast?_concat]
  rfl

namespace Stocked

variable {ctx : DmaMemCtx} {lists : ℕ → List ℕ} {w : World} {a q n i : ℕ} {p p' : DmaPuddle}
  {P : DmaPool} {l l' : List ℕ}

theorem setMem (h : Stocked ctx lists w) (m : Block) : Stocked ctx lists (w.setMem m) :=
  ⟨{ h.arenas with }, h.lists⟩

/-- **Before anything is allocated**: no puddles, and nothing out of the headers. -/
theorem start (hf : ctx.Filled w.headers) (hd : ctx.Disjoint) (hpuds : ∀ q, w.puds q = none)
    (hout : ∀ h, (w.headers h).out = [])
    (hpools : ∀ a P, w.pools a = some P → P.puddleSize = DMA_POOL_PUDDLE_SIZE ∧ P.puddles = 0) :
    Stocked ctx (fun _ => []) w := by
  have hnone : ∀ {q p}, w.puds q ≠ some p := fun {q p} hq => by
    rw [hpuds q] at hq
    cases hq
  refine ⟨⟨hf, hd, hpuds 0, fun _ _ hq => absurd hq hnone, fun _ _ hq => absurd hq hnone,
    fun h => ⟨fun e he => ?_, ?_⟩, fun h e => ?_, fun _ _ _ _ hq => absurd hq hnone⟩,
    ⟨fun a P hP => (hpools a P hP).1, fun a P hP => ?_, fun _ _ => rfl, fun _ => List.nodup_nil,
      fun _ _ _ hq => absurd hq List.not_mem_nil, fun q hq => ?_⟩⟩
  · rw [hout h] at he
    exact absurd he List.not_mem_nil
  · rw [hout h]
    exact List.Pairwise.nil
  · rw [hout h]
    exact iff_of_false List.not_mem_nil fun ⟨_, _, hq, _⟩ => hnone hq
  · rw [(hpools a P hP).2]
    exact .nil 0
  · rw [World.next, hpuds q] at hq
    cases hq

/-- A puddle on a list is there. -/
theorem exists_pud (h : Stocked ctx lists w) (hq : q ∈ lists a) : ∃ p, w.puds q = some p := by
  obtain ⟨next, hnext⟩ := Option.isSome_iff_exists.mp (h.lists.isSome_of_mem hq)
  obtain ⟨p, hp, -⟩ := Option.map_eq_some_iff.mp hnext
  exact ⟨p, hp⟩

theorem exists_list (h : Stocked ctx lists w) (hq : w.puds q = some p) : ∃ a, q ∈ lists a :=
  h.lists.listed q (by rw [World.next_of_eq hq]; rfl)

/-- **Where a link leads.** -/
theorem get_linkOf (h : Stocked ctx lists w) (hP : w.pools a = some P) (hl : lists a = l ++ l') :
    (linkOf a l).get w = some (l'.headD 0) := by
  have hpath := h.lists.path a P hP
  rcases l.eq_nil_or_concat with rfl | ⟨l, c, rfl⟩
  · rw [hl] at hpath
    change (w.pools a).map DmaPool.puddles = _
    rw [hP, Option.map_some, hpath.head_eq]
    rfl
  · rw [hl, List.concat_eq_append, List.append_assoc] at hpath
    rw [List.concat_eq_append, linkOf_concat]
    exact hpath.next_of_append

/-- A puddle on a list links to the next of it. -/
theorem next_eq (h : Stocked ctx lists w) (hP : w.pools a = some P) (hl : lists a = l ++ q :: l')
    (hq : w.puds q = some p) : p.next = l'.headD 0 := by
  have hpath := h.lists.path a P hP
  rw [hl] at hpath
  exact Option.some.inj ((World.next_of_eq hq).symm.trans hpath.next_of_append)

/-- **A puddle is unlinked**, its arena given back and its structure freed: the list is without it,
and the other puddles are as they were but for a link. -/
theorem unlink (h : Stocked ctx lists w) (hP : w.pools a = some P) (hl : lists a = l ++ q :: l')
    (hq : w.puds q = some p) (m : Block) :
    ∃ w₁, (linkOf a l).set p.next w = w₁ ∧ w₁.mem = w.mem ∧ w₁.headers = w.headers ∧
      w₁.puds q = some p ∧
      Stocked ctx (Function.update lists a (l ++ l'))
        (((w₁.setHeader p.src ((w.headers p.src).give p.extent)).setMem m).setPud q none) ∧
      (∀ r, (w₁.puds r).map DmaPuddle.core = (w.puds r).map DmaPuddle.core) ∧
      (∀ b, b ≠ a → w₁.pools b = w.pools b) ∧
      ∃ P', w₁.pools a = some P' ∧ P'.puddleSize = P.puddleSize := by
  have hnext := World.next_of_eq hq
  rcases l.eq_nil_or_concat with rfl | ⟨l, c, rfl⟩
  · -- it is the first
    refine ⟨w.setPool a (some { P with puddles := p.next }), ?_, rfl, rfl, hq, ⟨?_, ?_⟩,
      fun _ => rfl, fun b hb => Function.update_of_ne hb _ _, _, Function.update_self a _ _, rfl⟩
    · change w.setPool a ((w.pools a).map fun P => { P with puddles := p.next }) = _
      rw [hP]
      rfl
    · have hw : Arenas ctx (w.setPool a (some { P with puddles := p.next })) := { h.arenas with }
      exact { hw.remove hq with }
    · rw [World.next_setPud none]
      exact h.lists.drop_head hP hl hnext
  · -- there is one before it
    rw [List.concat_eq_append, List.append_assoc] at hl
    have hc : c ∈ lists a := hl ▸ List.mem_append_right l List.mem_cons_self
    have hcq : q ≠ c := by
      refine middle_ne (hl ▸ h.lists.nodup a) q ?_
      exact List.mem_append_right l List.mem_cons_self
    obtain ⟨pc, hpc⟩ := h.exists_pud hc
    have hq₁ : (w.setPud c (some { pc with next := p.next })).puds q = some p :=
      (World.puds_setPud_of_ne hcq).trans hq
    refine ⟨w.setPud c (some { pc with next := p.next }), ?_, rfl, rfl, hq₁, ⟨?_, ?_⟩, fun r => ?_,
      fun _ _ => rfl, P, hP, rfl⟩
    · rw [List.concat_eq_append, linkOf_concat]
      change w.setPud c ((w.puds c).map fun p' => { p' with next := p.next }) = _
      rw [hpc]
      rfl
    · have hs := h.arenas.sound c pc hpc
      have hw : Arenas ctx (w.setPud c (some { pc with next := p.next })) :=
        h.arenas.setPud hpc rfl rfl ⟨hs.lower, hs.upper, hs.pos, hs.sound, hs.balanced⟩
      exact { hw.remove hq₁ with }
    · have hset : (w.setPud c (some { pc with next := p.next })).next =
          Function.update w.next c (some p.next) := World.next_setPud _
      have hlist := h.lists.drop_next hP hl hnext
      rw [List.append_cons, ← hset] at hlist
      rw [List.concat_eq_append, World.next_setPud none]
      exact hlist
    · by_cases hrc : r = c
      · rw [hrc, World.puds_setPud_self, hpc]
        rfl
      · rw [World.puds_setPud_of_ne hrc]

end Stocked

end Dma
