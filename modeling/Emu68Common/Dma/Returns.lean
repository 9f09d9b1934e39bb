import Emu68Common.Dma.Calls

/-!
# Dma/Returns — a block back into its pool, and arenas back into their regions

A block goes back to the puddle whose arena it is in, which is the one it came from
(`World.returned`).  Puddles leave their list with their arenas given back (`Culled`): those that
are large and have nothing out by `dma_pool_shrink`, all of them by `dma_pool_delete`.

    dma_pool_region_free   the puddle's header has the block again
    dma_pool_shrink        Culled, of the idle ones
    dma_pool_delete        Culled, of all; then the pool is gone
-/

namespace Dma

open Machinery

variable {E : Exec} {ctx : DmaMemCtx} {lists : ℕ → List ℕ} {w w' w₁ w₂ w₃ : World}
  {a q r n size raw : ℕ} {p : DmaPuddle} {P : DmaPool} {e : Extent}
  {l l' l₂ l₃ gone gone' : List ℕ}

/-! ## Back into a puddle -/

/-- **A block goes back** to its puddle. -/
def World.returned (E : Exec) (q : ℕ) (p : DmaPuddle) (e : Extent) (w : World) : World :=
  (w.setPud q (some { p with mh := p.mh.give e })).setMem (E.given (p.mh.give e) w.mem)

theorem DmaPuddle.Sound.give (h : p.Sound) (he : e ∈ p.mh.out) :
    DmaPuddle.Sound { p with mh := p.mh.give e } :=
  ⟨h.lower, h.upper, h.pos, h.sound.give e, h.balanced.give he⟩

/-- **The pools stay in order** when a block goes back. -/
theorem Stocked.returned (h : Stocked ctx lists w) (E : Exec) (hp : w.puds q = some p)
    (he : e ∈ p.mh.out) : Stocked ctx lists (w.returned E q p e) := by
  have hs := (h.arenas.sound q p hp).give he
  have hnext : (w.setPud q (some { p with mh := p.mh.give e })).next = w.next :=
    World.next_setPud_of_eq hp rfl
  have hw : Stocked ctx lists (w.setPud q (some { p with mh := p.mh.give e })) :=
    ⟨h.arenas.setPud hp rfl rfl hs, hnext.symm ▸ h.lists⟩
  exact hw.setMem _

theorem World.puds_returned : (w.returned E q p e).puds q = some { p with mh := p.mh.give e } :=
  World.puds_setPud_self _

/-- What is still out of a puddle keeps its bytes. -/
theorem Stocked.mem_returned (h : Stocked ctx lists w) (hp : w.puds q = some p)
    (he : e ∈ p.mh.out) {i : ℕ} (hi : (w.returned E q p e).Out i) :
    (w.returned E q p e).mem i = w.mem i :=
  E.given_spared _ _ i ((h.returned E hp he).arenas.spared_pud hi World.puds_returned)

/-- A block out of one puddle does not start in another's arena. -/
theorem Arenas.not_in (h : Arenas ctx w) (hp : w.puds q = some p) (he : e ∈ p.mh.out)
    {p' : DmaPuddle} (hr : w.puds r = some p') (hne : q ≠ r) :
    ¬(p'.mh.mhLower ≤ e.addr ∧ e.addr < p'.mh.mhUpper) := by
  obtain ⟨hpos, hlow, hhigh⟩ := (h.sound q p hp).within he
  have hs := h.sound r p' hr
  have hapart := h.apart q r p p' hp hr hne
  rw [hs.lower, hs.upper]
  rcases hapart with hapart | hapart <;> dsimp only [DmaPuddle.extent] at hapart <;> omega

/-- With no turn left, a loop does not end. -/
theorem no_turns {α : Type*} {x : Option α} {Q : α → Prop} {k : ℕ} (hx : x = none) :
    (∀ w, x = some w → Q w) ∧ (k < 0 → x.isSome) := by
  subst hx
  exact ⟨fun w hcall => absurd hcall.symm (Option.some_ne_none w),
    fun hk => absurd hk (Nat.not_lt_zero k)⟩

/-- **The walk** finds the puddle a block came from. -/
theorem freeIn_eq (h : Stocked ctx lists w) (hP : w.pools a = some P) (hl : lists a = l ++ l')
    (hq : q ∈ l') (hp : w.puds q = some p) (he : e ∈ p.mh.out) :
    (∀ w', freeIn E e.addr e.size n (l'.headD 0) w = some w' → w' = w.returned E q p e) ∧
      (l'.length < n → (freeIn E e.addr e.size n (l'.headD 0) w).isSome) := by
  induction l' generalizing l n with
  | nil => exact absurd hq List.not_mem_nil
  | cons r l' ih =>
    cases n with
    | zero => exact no_turns rfl
    | succ n =>
      obtain ⟨p', hr⟩ := h.exists_pud (a := a) (hl ▸ List.mem_append_right l List.mem_cons_self)
      rw [freeIn, List.headD_cons, if_neg (h.arenas.ne_zero hr), hr, Option.bind_some]
      by_cases hrq : q = r
      · -- it is this one
        subst hrq
        obtain rfl := Option.some.inj (hr.symm.trans hp)
        have hs := h.arenas.sound q p' hp
        obtain ⟨hpos, hlow, hhigh⟩ := hs.within he
        have hin : p'.mh.mhLower ≤ e.addr ∧ e.addr < p'.mh.mhUpper := by
          rw [hs.lower, hs.upper]
          omega
        rw [if_pos hin, E.deallocate_eq he, Option.map_some]
        exact ⟨fun w' hcall => (Option.some.inj hcall).symm, fun _ => rfl⟩
      · have hmem : q ∈ l' := (List.mem_cons.mp hq).resolve_left hrq
        rw [if_neg (h.arenas.not_in hp he hr hrq), h.next_eq hP hl hr]
        obtain ⟨heq, hsome⟩ := ih (l := l ++ [r]) (n := n) (by rw [hl, List.append_assoc]; rfl) hmem
        exact ⟨heq, fun hn => hsome (Nat.lt_of_succ_lt_succ hn)⟩

/-- **`dma_pool_region_free`**, of a block that is out: the puddle it came from has it again. -/
theorem region_free_eq (h : Stocked ctx lists w) (hq : q ∈ lists a) (hp : w.puds q = some p)
    (h0 : raw ≠ 0) (he : ⟨raw, alignUp size MEM_BLOCKSIZE⟩ ∈ p.mh.out) :
    (∀ w', dmaPoolRegionFree E n a raw size w = some w' →
        w' = w.returned E q p ⟨raw, alignUp size MEM_BLOCKSIZE⟩) ∧
      ((lists a).length < n → (dmaPoolRegionFree E n a raw size w).isSome) := by
  obtain ⟨P, hP⟩ := h.lists.exists_pool hq
  have hhead := (h.lists.path a P hP).head_eq
  rw [dmaPoolRegionFree, if_neg h0, hP, Option.bind_some, hhead]
  exact freeIn_eq (l := []) h hP rfl hq hp he

/-! ## Back into the regions -/

/-- A puddle besides its link. -/
def World.pud (w : World) (q : ℕ) : Option DmaPuddle := (w.puds q).map DmaPuddle.core

/-- Whether a puddle is large and has nothing out. -/
def World.idle (w : World) (puddleSize q : ℕ) : Bool :=
  (w.pud q).any fun p => p.Idle puddleSize

/-- The arenas of some puddles, and the headers they came from. -/
def World.arenas (w : World) (l : List ℕ) : List (ℕ × Extent) :=
  l.filterMap fun q => (w.pud q).map fun p => (p.src, p.extent)

/-- **Arenas given back**, one after another. -/
def gives (l : List (ℕ × Extent)) (headers : ℕ → MemHeader) : ℕ → MemHeader :=
  l.foldl (fun hs e => Function.update hs e.1 ((hs e.1).give e.2)) headers

theorem World.pud_of_eq (hp : w.puds q = some p) : w.pud q = some p.core := by
  rw [pud, hp, Option.map_some]

theorem World.arenas_congr (h : ∀ q ∈ l, w'.pud q = w.pud q) : w'.arenas l = w.arenas l :=
  List.filterMap_congr fun q hq => by rw [h q hq]

/-- **Puddles leave a pool's list**: their arenas go back, their structures are freed, and what is
still out of the others is as it was. -/
structure Culled (ctx : DmaMemCtx) (lists : ℕ → List ℕ) (w w' : World) (a : ℕ)
    (l gone : List ℕ) : Prop where
  stocked : Stocked ctx (Function.update lists a l) w'
  headers : w'.headers = gives (w.arenas gone) w.headers
  puds : ∀ q, w'.pud q = if q ∈ gone then none else w.pud q
  pools : ∀ b, b ≠ a → w'.pools b = w.pools b
  size : (w'.pools a).map DmaPool.puddleSize = (w.pools a).map DmaPool.puddleSize
  mem : ∀ i, w'.Out i → w'.mem i = w.mem i

namespace Culled

theorem refl (h : Stocked ctx lists w) : Culled ctx lists w w a (lists a) [] where
  stocked := by rwa [Function.update_eq_self]
  headers := rfl
  puds _ := (if_neg List.not_mem_nil).symm
  pools _ _ := rfl
  size := rfl
  mem _ _ := rfl

/-- What is out afterwards was out before. -/
theorem out (h : Culled ctx lists w w' a l gone) {i : ℕ} (hi : w'.Out i) : w.Out i := by
  obtain ⟨q, p, hp, e, he, hhas⟩ := hi
  have hpud := h.puds q
  rw [World.pud_of_eq hp] at hpud
  obtain ⟨-, hold⟩ := Option.ite_none_left_eq_some.mp hpud.symm
  obtain ⟨p', hp', hcore⟩ := Option.map_eq_some_iff.mp hold
  have hmh : p'.core.mh = p.core.mh := congrArg DmaPuddle.mh hcore
  have he' : e ∈ p'.core.mh.out := hmh.symm ▸ he
  exact ⟨q, p', hp', e, he', hhas⟩

theorem trans (h₁ : Culled ctx lists w w₂ a l₂ gone)
    (h₂ : Culled ctx (Function.update lists a l₂) w₂ w₃ a l₃ gone')
    (hdis : ∀ q ∈ gone', q ∉ gone) : Culled ctx lists w w₃ a l₃ (gone ++ gone') where
  stocked := by
    have hs := h₂.stocked
    rwa [Function.update_idem] at hs
  headers := by
    have hsame : w₂.arenas gone' = w.arenas gone' :=
      World.arenas_congr fun q hq => (h₁.puds q).trans (if_neg (hdis q hq))
    rw [h₂.headers, h₁.headers, hsame, World.arenas, World.arenas, World.arenas,
      List.filterMap_append, gives, gives, gives, List.foldl_append]
  puds q := by
    rw [h₂.puds q, h₁.puds q]
    by_cases hq' : q ∈ gone'
    · rw [if_pos hq', if_pos (List.mem_append_right gone hq')]
    · by_cases hq : q ∈ gone
      · rw [if_neg hq', if_pos hq, if_pos (List.mem_append_left gone' hq)]
      · rw [if_neg hq', if_neg hq, if_neg fun hmem => (List.mem_append.mp hmem).elim hq hq']
  pools b hb := (h₂.pools b hb).trans (h₁.pools b hb)
  size := h₂.size.trans h₁.size
  mem i hi := (h₂.mem i hi).trans (h₁.mem i (h₂.out hi))

end Culled

/-- **A puddle's arena given back**, and its structure freed. -/
def World.discarded (E : Exec) (q : ℕ) (p : DmaPuddle) (w : World) : World :=
  ((w.setHeader p.src ((w.headers p.src).give p.extent)).setMem
    (E.given ((w.headers p.src).give p.extent) w.mem)).setPud q none

theorem release_eq (he : p.extent ∈ (w.headers p.src).out) :
    release E p.src p.arena p.arenaSize w
      = some ((w.setHeader p.src ((w.headers p.src).give p.extent)).setMem
        (E.given ((w.headers p.src).give p.extent) w.mem)) := by
  have hout : (⟨p.arena, p.arenaSize⟩ : Extent) ∈ (w.headers p.src).out := he
  rw [release, E.deallocate_eq hout]
  rfl

/-- **A puddle is linked past and discarded**; the link stays where it leads on from. -/
theorem Stocked.discard (h : Stocked ctx lists w) (E : Exec) (hP : w.pools a = some P)
    (hl : lists a = l ++ q :: l') (hp : w.puds q = some p) : ∃ w₁,
    (linkOf a l).set p.next w = w₁ ∧
      (release E p.src p.arena p.arenaSize w₁).bind (freePuddle q) = some (w₁.discarded E q p) ∧
      Culled ctx lists w (w₁.discarded E q p) a (l ++ l') [q] := by
  obtain ⟨w₁, hlink, hmem, hheaders, hp₁, hstocked, hcore, hpools, P', hP', hsize⟩ :=
    h.unlink hP hl hp (E.given ((w.headers p.src).give p.extent) w.mem)
  have hextent : p.extent ∈ (w₁.headers p.src).out := by
    rw [hheaders]
    exact h.arenas.extent_mem hp
  have hdiscarded : w₁.discarded E q p = ((w₁.setHeader p.src
      ((w.headers p.src).give p.extent)).setMem
        (E.given ((w.headers p.src).give p.extent) w.mem)).setPud q none := by
    rw [World.discarded, hheaders, hmem]
  refine ⟨w₁, hlink, ?_, ⟨hdiscarded ▸ hstocked, ?headers, fun r => ?puds, hpools, ?size, ?mem⟩⟩
  · rw [release_eq hextent, Option.bind_some, freePuddle]
    change (w₁.puds q).map _ = _
    rw [hp₁]
    rfl
  case headers =>
    rw [hdiscarded, World.arenas, List.filterMap_cons, World.pud_of_eq hp]
    change Function.update w₁.headers p.src _ = _
    rw [hheaders]
    rfl
  case puds =>
    by_cases hrq : r = q
    · rw [if_pos (hrq ▸ List.mem_singleton_self q), hrq, World.pud, World.discarded,
        World.puds_setPud_self]
      rfl
    · rw [if_neg fun hmem => hrq (List.mem_singleton.mp hmem), World.pud, World.discarded,
        World.puds_setPud_of_ne hrq]
      exact hcore r
  case size =>
    change (w₁.pools a).map _ = _
    rw [hP', hP, Option.map_some, Option.map_some, hsize]
  case mem =>
    intro i hi
    obtain ⟨r, hr, hheader, -⟩ := h.arenas.inside hp
    have hspared := (hdiscarded ▸ hstocked).arenas.spared_header hi hr
    have hself : (w₁.discarded E q p).headers r.header = (w.headers p.src).give p.extent := by
      rw [hdiscarded, hheader]
      exact World.headers_setHeader_self _
    rw [hself] at hspared
    rw [hdiscarded]
    exact E.given_spared _ _ i hspared

/-! ### Shrinking -/

theorem idle_of_eq (hp : w.puds q = some p) (size : ℕ) :
    w.idle size q = decide (p.Idle size) := by
  rw [World.idle, World.pud_of_eq hp]
  rfl

theorem World.idle_congr (h : w'.pud q = w.pud q) : w'.idle size q = w.idle size q := by
  rw [idle, idle, h]

/-- **The loop of `dma_pool_shrink`**: of the rest of the list, the idle puddles go. -/
theorem shrinkFrom_spec (E : Exec) (h : Stocked ctx lists w) (hP : w.pools a = some P)
    (hl : lists a = l ++ l') :
    (∀ w', shrinkFrom E a n (linkOf a l) w = some w' → Culled ctx lists w w' a
        (l ++ l'.filter fun q => !w.idle P.puddleSize q) (l'.filter (w.idle P.puddleSize))) ∧
      (l'.length < n → (shrinkFrom E a n (linkOf a l) w).isSome) := by
  induction l' generalizing lists w l n P with
  | nil =>
    cases n with
    | zero =>
      exact no_turns rfl
    | succ n =>
      rw [shrinkFrom, h.get_linkOf hP hl, Option.bind_some, List.headD_nil, if_pos rfl]
      refine ⟨fun w' hcall => ?_, fun _ => rfl⟩
      obtain rfl := Option.some.inj hcall
      have hrefl := Culled.refl (a := a) h
      rwa [hl] at hrefl
  | cons q l' ih =>
    cases n with
    | zero =>
      exact no_turns rfl
    | succ n =>
      obtain ⟨p, hp⟩ := h.exists_pud (a := a) (hl ▸ List.mem_append_right l List.mem_cons_self)
      have hnot : ∀ r ∈ l', r ≠ q := fun r hr =>
        middle_ne (hl ▸ h.lists.nodup a) r (List.mem_append_right l hr)
      rw [shrinkFrom, h.get_linkOf hP hl, Option.bind_some, List.headD_cons,
        if_neg (h.arenas.ne_zero hp), hP, Option.bind_some, hp, Option.bind_some]
      by_cases hidle : p.Idle P.puddleSize
      · -- it goes, and its link is looked at again
        have hgoes : w.idle P.puddleSize q = true := (idle_of_eq hp _).trans (decide_eq_true hidle)
        obtain ⟨w₁, hlink, hrelease, hculled⟩ := h.discard E hP hl hp
        obtain ⟨P₂, hP₂, hsize⟩ := Option.map_eq_some_iff.mp
          (hculled.size.trans (congrArg (Option.map DmaPool.puddleSize) hP))
        have hrest := ih (n := n) hculled.stocked hP₂ (Function.update_self a (l ++ l') lists)
        have hsame : ∀ r ∈ l', (w₁.discarded E q p).idle P.puddleSize r = w.idle P.puddleSize r :=
          fun r hr => World.idle_congr ((hculled.puds r).trans
            (if_neg fun hmem => hnot r hr (List.mem_singleton.mp hmem)))
        have hkept : (l'.filter fun r => !(w₁.discarded E q p).idle P.puddleSize r)
            = l'.filter fun r => !w.idle P.puddleSize r :=
          List.filter_congr fun r hr => by rw [hsame r hr]
        rw [hsize, List.filter_congr hsame, hkept] at hrest
        rw [if_pos hidle, hlink, ← Option.bind_assoc, hrelease, Option.bind_some,
          List.filter_cons_of_neg (by rw [hgoes]; exact Bool.false_ne_true),
          List.filter_cons_of_pos hgoes]
        refine ⟨fun w' hcall => hculled.trans (hrest.1 w' hcall) fun r hr hmem => ?_,
          fun hn => hrest.2 (Nat.lt_of_succ_lt_succ hn)⟩
        exact hnot r (List.mem_of_mem_filter hr) (List.mem_singleton.mp hmem)
      · have hstays : w.idle P.puddleSize q = false :=
          (idle_of_eq hp _).trans (decide_eq_false hidle)
        have hrest := ih (n := n) h hP (l := l ++ [q]) (by rw [hl, List.append_assoc]; rfl)
        rw [linkOf_concat] at hrest
        rw [if_neg hidle, List.filter_cons_of_pos (by rw [hstays]; rfl),
          List.filter_cons_of_neg (by rw [hstays]; exact Bool.false_ne_true)]
        refine ⟨fun w' hcall => ?_, fun hn => hrest.2 (Nat.lt_of_succ_lt_succ hn)⟩
        have hculled := hrest.1 w' hcall
        rwa [List.append_assoc] at hculled

/-- **`dma_pool_shrink`**: the large puddles with nothing out go, and no others. -/
theorem shrink_spec (E : Exec) (h : Stocked ctx lists w) (h0 : a ≠ 0) (hP : w.pools a = some P) :
    (∀ w', dmaPoolShrink E n a w = some w' → Culled ctx lists w w' a
        ((lists a).filter fun q => !w.idle P.puddleSize q)
        ((lists a).filter (w.idle P.puddleSize))) ∧
      ((lists a).length < n → (dmaPoolShrink E n a w).isSome) := by
  rw [dmaPoolShrink, if_neg h0]
  exact shrinkFrom_spec (l := []) E h hP rfl

/-! ### Deleting -/

theorem setPool_setPool (w : World) (a : ℕ) (o o' : Option DmaPool) :
    (w.setPool a o).setPool a o' = w.setPool a o' := by
  rw [World.setPool, World.setPool, World.setPool, Function.update_idem]

theorem setPool_self (hP : w.pools a = some P) : w.setPool a (some P) = w := by
  rw [World.setPool, ← hP, Function.update_eq_self]

/-- The loop of `dma_pool_delete` does not look at the pool. -/
theorem deleteFrom_setPool (E : Exec) (o : Option DmaPool) :
    deleteFrom E n q (w.setPool a o) = (deleteFrom E n q w).map fun w => w.setPool a o := by
  have hrelease : ∀ src arena size w, release E src arena size (w.setPool a o)
      = (release E src arena size w).map fun w => w.setPool a o := by
    intro src arena size w
    rw [release, release, Option.map_map]
    rfl
  induction n generalizing q w with
  | zero => rfl
  | succ n ih =>
    rw [deleteFrom, deleteFrom]
    split
    · rfl
    · change (w.puds q).bind _ = _
      cases w.puds q with
      | none => rfl
      | some p =>
        rw [Option.bind_some, Option.bind_some, hrelease]
        cases release E p.src p.arena p.arenaSize w with
        | none => rfl
        | some w =>
          rw [Option.map_some, Option.bind_some, Option.bind_some, freePuddle, freePuddle]
          change ((w.puds q).map _).bind _ = _
          cases w.puds q with
          | none => rfl
          | some _ =>
            rw [Option.map_some, Option.map_some, Option.bind_some, Option.bind_some, ← ih]
            rfl

/-- **The loop of `dma_pool_delete`**: every puddle goes.  The pool's own link is stale meanwhile,
and led on here from puddle to puddle. -/
theorem deleteFrom_spec (E : Exec) (h : Stocked ctx lists w) (hP : w.pools a = some P)
    (hl : lists a = l) :
    (∀ w', deleteFrom E n (l.headD 0) w = some w' →
        Culled ctx lists w (w'.setPool a (some { P with puddles := 0 })) a [] l) ∧
      (l.length < n → (deleteFrom E n (l.headD 0) w).isSome) := by
  induction l generalizing lists w n P with
  | nil =>
    cases n with
    | zero =>
      exact no_turns rfl
    | succ n =>
      rw [deleteFrom, List.headD_nil, if_pos rfl]
      refine ⟨fun w' hcall => ?_, fun _ => rfl⟩
      obtain rfl := Option.some.inj hcall
      have hpath := h.lists.path a P hP
      rw [hl] at hpath
      have hempty : ({ P with puddles := 0 } : DmaPool) = P := by
        rw [← hpath.eq_of_nil]
      have hrefl := Culled.refl (a := a) h
      rw [hl] at hrefl
      rwa [hempty, setPool_self hP]
  | cons q l ih =>
    cases n with
    | zero =>
      exact no_turns rfl
    | succ n =>
      obtain ⟨p, hp⟩ := h.exists_pud (a := a) (hl ▸ List.mem_cons_self)
      have hnext := h.next_eq (l := []) hP hl hp
      have hnodup := hl ▸ h.lists.nodup a
      obtain ⟨w₁, hlink, -, hculled⟩ := h.discard (l := []) E hP hl hp
      have hw₁ : w₁ = w.setPool a (some { P with puddles := p.next }) := by
        rw [← hlink]
        change w.setPool a ((w.pools a).map _) = _
        rw [hP]
        rfl
      have hrelease : (release E p.src p.arena p.arenaSize w).bind (freePuddle q)
          = some (w.discarded E q p) := by
        rw [release_eq (h.arenas.extent_mem hp), Option.bind_some, freePuddle]
        change (w.puds q).map _ = _
        rw [hp]
        rfl
      have hdiscarded : w₁.discarded E q p
          = (w.discarded E q p).setPool a (some { P with puddles := p.next }) := by
        rw [hw₁]
        rfl
      have hP₁ : (w₁.discarded E q p).pools a = some { P with puddles := p.next } := by
        rw [hdiscarded]
        exact Function.update_self a _ _
      have hrest := ih (n := n) hculled.stocked hP₁ (Function.update_self a l lists)
      rw [hdiscarded, deleteFrom_setPool, ← hnext] at hrest
      rw [deleteFrom, List.headD_cons, if_neg (h.arenas.ne_zero hp), hp, Option.bind_some,
        ← Option.bind_assoc, hrelease, Option.bind_some]
      refine ⟨fun w' hcall => ?_, fun hn => ?_⟩
      · rw [← hdiscarded] at hrest
        have hcut := hrest.1 _ (congrArg (Option.map _) hcall)
        rw [setPool_setPool] at hcut
        refine hculled.trans hcut fun r hr hmem => ?_
        rw [List.mem_singleton.mp hmem] at hr
        exact (List.nodup_cons.mp hnodup).1 hr
      · have hsome := hrest.2 (Nat.lt_of_succ_lt_succ hn)
        rwa [Option.isSome_map] at hsome

/-- **`dma_pool_delete`**: all the puddles go, and the pool. -/
theorem delete_spec (E : Exec) (h : Stocked ctx lists w) (h0 : a ≠ 0) (hP : w.pools a = some P) :
    (∀ w', dmaPoolDelete E n a w = some w' →
        w'.pools a = none ∧ Stocked ctx (Function.update lists a []) w' ∧
          Culled ctx lists w (w'.setPool a (some { P with puddles := 0 })) a [] (lists a)) ∧
      ((lists a).length < n → (dmaPoolDelete E n a w).isSome) := by
  have hloop := deleteFrom_spec (n := n) E h hP rfl
  rw [dmaPoolDelete, if_neg h0, hP, Option.bind_some, (h.lists.path a P hP).head_eq,
    Option.isSome_map]
  refine ⟨fun w' hcall => ?_, hloop.2⟩
  obtain ⟨w₁, hfrom, rfl⟩ := Option.map_eq_some_iff.mp hcall
  have hculled := hloop.1 w₁ hfrom
  refine ⟨Function.update_self a _ _, ?_, by rwa [setPool_setPool]⟩
  have hlists := hculled.stocked.lists.setPool (o := none) (Function.update_self a [] lists)
    fun P hP => absurd hP.symm (Option.some_ne_none P)
  have hpools : Function.update (w₁.setPool a (some { P with puddles := 0 })).pools a none
      = (w₁.setPool a none).pools := Function.update_idem _ _ _
  rw [hpools] at hlists
  exact ⟨{ hculled.stocked.arenas with }, hlists⟩

/-! ## A pool is made -/

/-- **`dma_pool_create`**: nothing, or a pool without puddles where no structure was. -/
theorem create_cases (E : Exec) (h : Stocked ctx lists w) :
    dmaPoolCreate E ctx w = (none, w) ∨
    ∃ a, a ≠ 0 ∧ w.used a = false ∧
      dmaPoolCreate E ctx w = (some a, w.setPool a (some ⟨0, DMA_POOL_PUDDLE_SIZE⟩)) ∧
      Stocked ctx lists (w.setPool a (some ⟨0, DMA_POOL_PUDDLE_SIZE⟩)) := by
  rw [dmaPoolCreate]
  split
  · exact Or.inl rfl
  · cases hplace : E.allocMem 16 w.used with
    | none => exact Or.inl rfl
    | some a =>
      obtain ⟨h0, hused⟩ := E.place_unused 16 w.used a hplace
      have hempty := h.lists.bare a (World.pools_of_unused hused)
      refine Or.inr ⟨a, h0, hused, rfl, { h.arenas with }, h.lists.setPool hempty fun P hP => ?_⟩
      obtain rfl := Option.some.inj hP
      exact ⟨rfl, rfl⟩

end Dma
