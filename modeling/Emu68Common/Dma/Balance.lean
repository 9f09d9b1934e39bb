import Emu68Common.Dma.Lines

/-!
# Dma/Balance — the pools neither leak nor free twice

What is out of the regions' headers is the arenas of the puddles on the pools' lists, and what is
out of a puddle's header is the blocks of its buffers (`Conserved`).  A free, a shrink and a delete
give back what that says, and nothing else.
-/

namespace Dma

open Machinery

/-- **Nothing is lost**, and nothing is given back that is not out. -/
structure Conserved (lists : ℕ → List ℕ) (s : State) : Prop where
  /-- The lists are the pools'. -/
  path : ∀ a P, s.world.pools a = some P → Path s.world.next P.puddles 0 (lists a)
  nodup : ∀ a, (lists a).Nodup
  puddle : ∀ a, ∀ q ∈ lists a, (s.world.pools a).isSome ∧ (s.world.puds q).isSome
  /-- The blocks out of the headers are the arenas on the lists, each with its own header. -/
  arenas : ∀ h e, e ∈ (s.world.headers h).out ↔
    ∃ a, ∃ q ∈ lists a, ∃ p, s.world.puds q = some p ∧ p.src = h ∧ p.extent = e
  once : ∀ h, (s.world.headers h).out.Nodup
  /-- What is free in a puddle, and what its buffers have, is its arena. -/
  balance : ∀ q p, s.world.puds q = some p →
    p.mh.mhFree + ((s.bufs.filter fun b => b.pud = q).map fun b => b.block.size).sum = p.arenaSize
  /-- A free gives back the block that went out, to the puddle it went out of. -/
  free : ∀ b ∈ s.bufs, b.stage = .live → ∃ p, b.pud ∈ lists b.pool ∧ s.world.puds b.pud = some p ∧
    b.block ∈ p.mh.out ∧ ∀ E n, (lists b.pool).length < n →
      dmaFree E n b.pool b.ptr s.world = some (s.world.returned E b.pud p b.block)
  /-- A shrink gives back the large puddles without buffers, and no others. -/
  shrink : ∀ a P, s.world.pools a = some P → ∀ E n, (lists a).length < n → ∃ w,
    dmaPoolShrink E n a s.world = some w ∧
    (∀ q p, s.world.puds q = some p → (w.puds q = none ↔
      q ∈ lists a ∧ P.puddleSize < p.arenaSize ∧ ∀ b ∈ s.bufs, b.pud ≠ q)) ∧
    w.headers = gives (s.world.arenas ((lists a).filter fun q => w.puds q = none)) s.world.headers ∧
    ∀ q, w.puds q ≠ none → w.pud q = s.world.pud q
  /-- A delete gives back all the arenas of the pool, each once, and frees the puddles. -/
  delete : ∀ a P, s.world.pools a = some P → ∀ E n, (lists a).length < n → ∃ w,
    dmaPoolDelete E n a s.world = some w ∧
    w.headers = gives (s.world.arenas (lists a)) s.world.headers ∧
    (∀ q, w.pud q = if q ∈ lists a then none else s.world.pud q) ∧ w.pools a = none

variable {ctx : DmaMemCtx} {lists : ℕ → List ℕ} {s s' : State} {b : Buf} {a q : ℕ}
  {p : DmaPuddle} {P : DmaPool}

namespace Ordered

/-- The blocks out of a puddle are its buffers'. -/
theorem mem_out (h : Ordered ctx lists s) (hp : s.world.puds q = some p) {e : Extent} :
    e ∈ p.mh.out ↔ ∃ b ∈ s.bufs, b.pud = q ∧ b.block = e := by
  obtain ⟨a, hq⟩ := h.stocked.exists_list hp
  constructor
  · intro he
    obtain ⟨b, hb, -, hpud, hblock⟩ := (h.owners a q e).mp ⟨hq, p, hp, he⟩
    exact ⟨b, hb, hpud, hblock⟩
  · rintro ⟨b, hb, rfl, rfl⟩
    obtain ⟨-, p', hp', he⟩ := h.holds hb
    obtain rfl := Option.some.inj (hp'.symm.trans hp)
    exact he

/-- **The blocks of a puddle's buffers** are what is out of it, each once. -/
theorem blocks_perm (h : Ordered ctx lists s) (hp : s.world.puds q = some p) :
    ((s.bufs.filter fun b => b.pud = q).map Buf.block).Perm p.mh.out := by
  have hnodup : ((s.bufs.filter fun b => b.pud = q).map Buf.block).Nodup :=
    h.nodup.sublist (List.filter_sublist.map _)
  refine (List.perm_ext_iff_of_nodup hnodup (h.stocked.arenas.sound q p hp).sound.nodup).mpr ?_
  intro e
  rw [h.mem_out hp, List.mem_map]
  constructor
  · rintro ⟨b, hb, hblock⟩
    obtain ⟨hb, hpud⟩ := List.mem_filter.mp hb
    exact ⟨b, hb, of_decide_eq_true hpud, hblock⟩
  · rintro ⟨b, hb, hpud, hblock⟩
    exact ⟨b, List.mem_filter.mpr ⟨hb, decide_eq_true hpud⟩, hblock⟩

theorem balance (h : Ordered ctx lists s) (hp : s.world.puds q = some p) :
    p.mh.mhFree + ((s.bufs.filter fun b => b.pud = q).map fun b => b.block.size).sum
      = p.arenaSize := by
  have hs := h.stocked.arenas.sound q p hp
  have hsum := ((h.blocks_perm hp).map Extent.size).sum_eq
  rw [List.map_map] at hsum
  have hbalanced := hs.balanced
  rw [MemHeader.Balanced, hs.lower, hs.upper, ← hsum] at hbalanced
  exact Nat.add_left_cancel hbalanced

/-- **A free finds its way back.** -/
theorem dmaFree_eq (h : Ordered ctx lists s) (hb : b ∈ s.bufs) (hstage : b.stage = .live)
    (hp : s.world.puds b.pud = some p) (E : Exec) {n : ℕ} (hn : (lists b.pool).length < n) :
    dmaFree E n b.pool b.ptr s.world = some (s.world.returned E b.pud p b.block) := by
  have hbook : b.book = [(before b.ptr, b.raw), (b.raw, b.total)] := by rw [Buf.book, hstage]
  obtain ⟨hback, hsize⟩ := h.book_of_live hb hbook
  have hroom := (h.placed hb).room
  obtain ⟨hq, p', hp', he⟩ := h.holds hb
  obtain rfl := Option.some.inj (hp'.symm.trans hp)
  obtain ⟨heq, hsome⟩ := region_free_eq (E := E) (n := n) h.stocked hq hp (h.ne_zero b hb) he
  obtain ⟨w, hw⟩ := Option.isSome_iff_exists.mp (hsome hn)
  rw [dmaFree, if_neg (by omega)]
  dsimp only
  rw [hback, hsize, hw, heq w hw]
  rfl

/-- A pool is not at address 0. -/
theorem pool_ne_zero (h : Ordered ctx lists s) (hP : s.world.pools a = some P) : a ≠ 0 := by
  rintro rfl
  exact Option.some_ne_none P (hP.symm.trans h.null)

/-- A puddle is idle when it is large, and no buffer has a block of it. -/
theorem idle_iff_unowned (h : Ordered ctx lists s) (hp : s.world.puds q = some p) (size : ℕ) :
    s.world.idle size q = true ↔ size < p.arenaSize ∧ ∀ b ∈ s.bufs, b.pud ≠ q := by
  rw [idle_iff h.stocked hp]
  refine and_congr_right fun _ => ⟨fun hout b hb hpud => ?_, fun hnone => ?_⟩
  · have he := (h.mem_out hp).mpr ⟨b, hb, hpud, rfl⟩
    rw [hout] at he
    exact absurd he List.not_mem_nil
  · refine List.eq_nil_iff_forall_not_mem.mpr fun e he => ?_
    obtain ⟨b, hb, hpud, -⟩ := (h.mem_out hp).mp he
    exact hnone b hb hpud

/-- **In order, nothing is lost.** -/
theorem conserved (h : Ordered ctx lists s) : Conserved lists s where
  path := h.stocked.lists.path
  nodup := h.stocked.lists.nodup
  puddle a q hq := by
    obtain ⟨P, hP⟩ := h.stocked.lists.exists_pool hq
    obtain ⟨p, hp⟩ := h.stocked.exists_pud hq
    exact ⟨hP ▸ rfl, hp ▸ rfl⟩
  arenas hd e := by
    refine (h.stocked.arenas.out hd e).trans ⟨?_, ?_⟩
    · rintro ⟨q, p, hp, hsrc, hext⟩
      obtain ⟨a, hq⟩ := h.stocked.exists_list hp
      exact ⟨a, q, hq, p, hp, hsrc, hext⟩
    · rintro ⟨a, q, -, p, hp, hsrc, hext⟩
      exact ⟨q, p, hp, hsrc, hext⟩
  once hd := (h.stocked.arenas.headers hd).nodup
  balance q p hp := h.balance hp
  free b hb hstage := by
    obtain ⟨hq, p, hp, he⟩ := h.holds hb
    exact ⟨p, hq, hp, he, fun E n hn => h.dmaFree_eq hb hstage hp E hn⟩
  shrink a P hP E n hn := by
    obtain ⟨heq, hsome⟩ := shrink_spec (n := n) E h.stocked (h.pool_ne_zero hP) hP
    obtain ⟨w, hw⟩ := Option.isSome_iff_exists.mp (hsome hn)
    have hculled := heq w hw
    have hgone : ∀ q p, s.world.puds q = some p → (w.puds q = none ↔
        q ∈ lists a ∧ s.world.idle P.puddleSize q = true) := by
      intro q p hp
      have hpud := hculled.puds q
      rw [← List.mem_filter, ← Option.map_eq_none_iff (f := DmaPuddle.core)]
      change w.pud q = none ↔ _
      rw [hpud, World.pud_of_eq hp]
      split
      · rename_i hmem
        exact iff_of_true rfl hmem
      · rename_i hmem
        exact iff_of_false (Option.some_ne_none _) hmem
    refine ⟨w, hw, fun q p hp => ?_, ?_, fun q hq => ?_⟩
    · rw [hgone q p hp, h.idle_iff_unowned hp]
    · rw [hculled.headers]
      congr 2
      refine List.filter_congr fun q hq => ?_
      obtain ⟨p, hp⟩ := h.stocked.exists_pud hq
      have hiff := hgone q p hp
      by_cases hidle : s.world.idle P.puddleSize q = true
      · rw [hidle, decide_eq_true (hiff.mpr ⟨hq, hidle⟩)]
      · rw [Bool.eq_false_iff.mpr hidle, decide_eq_false fun hnone => hidle (hiff.mp hnone).2]
    · have hpud := hculled.puds q
      split at hpud
      · exact absurd (Option.map_eq_none_iff.mp hpud) hq
      · exact hpud
  delete a P hP E n hn := by
    obtain ⟨heq, hsome⟩ := delete_spec (n := n) E h.stocked (h.pool_ne_zero hP) hP
    obtain ⟨w, hw⟩ := Option.isSome_iff_exists.mp (hsome hn)
    obtain ⟨hpool, -, hculled⟩ := heq w hw
    exact ⟨w, hw, hculled.headers, hculled.puds, hpool⟩

end Ordered

/-- **The pools neither leak nor free twice**: in every run, whatever fails and wherever it does,
over a context that `dma_mem_init` filled with regions that do not meet. -/
theorem pools_conserved {Key : Type} {DeviceTreeBase : Option (Resource Key)}
    {MemList : List (ℕ × ℕ)} {fuel : ℕ}
    (hinit : dmaMemInit DeviceTreeBase MemList s.world.headers fuel = some ctx)
    (hd : ctx.Disjoint) (hs : Start s) (hrun : Runs ctx s s') : ∃ lists, Conserved lists s' := by
  obtain ⟨lists, h⟩ := ordered_of_runs hs (init_spec hinit) hd hrun
  exact ⟨lists, h.conserved⟩

/-- Two buffers, of which one is freed again, and a shrink that leaves the other its puddle. -/
theorem pools_conserved_oneGiB : ∃ w w₁ w₂ b c n m lists,
    Runs oneGiBCtx ⟨oneGiBWorld, []⟩ ⟨w, [c, b]⟩ ∧
    dmaFree lowestExec n b.pool b.ptr w = some w₁ ∧
    dmaPoolShrink lowestExec m c.pool w₁ = some w₂ ∧
    Runs oneGiBCtx ⟨oneGiBWorld, []⟩ ⟨w₂, [c]⟩ ∧ Conserved lists ⟨w₂, [c]⟩ ∧
    (w₂.puds c.pud).isSome := by
  have hd : oneGiBCtx.Disjoint := List.pairwise_singleton _ _
  obtain ⟨w, b, c, hrun, ⟨-, -, hbptr, hblive⟩, ⟨-, -, hcptr, hclive⟩⟩ := oneGiB_runs
  have hb : b ∈ [c, b] := List.mem_cons_of_mem c List.mem_cons_self
  have hcb : c ≠ b := by
    rintro rfl
    exact absurd (hcptr.symm.trans hbptr) (by decide)
  have herase : [c, b].erase b = [c] := by
    rw [List.erase_cons_tail (by simpa using hcb), List.erase_cons_head]
  -- the free
  obtain ⟨lists, h⟩ := pools_conserved oneGiB_init hd start_oneGiB hrun
  obtain ⟨_, -, -, -, hany⟩ := h.free b hb hblive
  have hfree := hany lowestExec _ (Nat.lt_succ_self _)
  obtain ⟨_, hordered⟩ := ordered_of_runs start_oneGiB (init_spec oneGiB_init) hd hrun
  have hrun₁ := hrun.trans (free_runs hordered hb hblive hfree)
  rw [herase] at hrun₁
  -- the shrink
  obtain ⟨lists₁, h₁⟩ := pools_conserved oneGiB_init hd start_oneGiB hrun₁
  obtain ⟨p, hpud, hp, -, -⟩ := h₁.free c List.mem_cons_self hclive
  obtain ⟨P, hP⟩ := Option.isSome_iff_exists.mp (h₁.puddle _ _ hpud).1
  obtain ⟨w₂, hshrink, hgone, -, -⟩ := h₁.shrink _ P hP lowestExec _ (Nat.lt_succ_self _)
  have hrun₂ := hrun₁.tail (.shrink hshrink)
  obtain ⟨lists₂, h₂⟩ := pools_conserved oneGiB_init hd start_oneGiB hrun₂
  refine ⟨w, _, w₂, b, c, _, _, lists₂, hrun, hfree, hshrink, hrun₂, h₂, ?_⟩
  refine Option.isSome_iff_ne_none.mpr fun hnone => ?_
  obtain ⟨-, -, hidle⟩ := (hgone _ p hp).mp hnone
  exact hidle c List.mem_cons_self rfl

end Dma
