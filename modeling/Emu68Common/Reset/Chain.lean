import Emu68Common.Machinery.History
import Emu68Common.Machinery.Path
import Emu68Common.Reset.Install

/-!
# Reset/Chain — the patches of the ColdReboot vector, whoever made them

The vector starts a path through the trampolines and the foreign patches to the original function
(`Sound.path`).  A guard comes and goes at its head only: an install pushes, a remove that does not
find its trampoline there refuses.  So no run of installs, removes and foreign patches, with any of
the calls in them failing, leaves a freed trampoline on the path.
-/

namespace Reset

open Machinery

section Chain

variable (entry original : Addr)

/-- Where a function on the vector chains to. -/
def World.next (w : World) (a : Addr) : Option Addr :=
  match w.foreign a with
  | some old => some old
  | none =>
    match (w.blocks a).bind runTrampoline with
    | some (rg, target) => if target = entry then some (w.guards rg).oldColdReboot else none
    | none => none

/-! ## What can happen -/

/-- One call, or a foreign patch. -/
inductive Op where
  | install (rg : Addr) (args : Args) (r : Replies)
  | remove (rg : Addr)
  | push (f : Addr)
  | pop (f : Addr)
  deriving DecidableEq, Repr

/-- Nothing callable is there. -/
structure Free (w : World) (a : Addr) : Prop where
  blocks : w.blocks a = none
  foreign : w.foreign a = none
  original : a ≠ original

/-- **Who may do what**: a guard is installed once at a time, `AllocMem` and a foreign patch find a
place of their own, and a foreign patch is popped from the top. -/
def Allowed (w : World) : Op → Prop
  | .install rg _ r =>
    (w.guards rg).deviceOpen = false ∧ (r.allocMem ≠ 0 → Free original w r.allocMem)
  | .remove _ => True
  | .push f => Free original w f
  | .pop f => w.vector = f ∧ (w.foreign f).isSome

/-- An operation done. -/
def Op.apply (w : World) : Op → World × Bool
  | .install rg args r => Reset.install entry w rg args r
  | .remove rg => Reset.remove w rg
  | .push f =>
    ({ w with vector := f, foreign := Function.update w.foreign f (some w.vector) }, true)
  | .pop f =>
    match w.foreign f with
    | some old => ({ w with vector := old, foreign := Function.update w.foreign f none }, true)
    | none => (w, false)

/-- An operation, and what it returned. -/
def ChainStep (w : World) (e : Op × Bool) (w' : World) : Prop :=
  Allowed original w e.1 ∧ Op.apply entry w e.1 = (w', e.2)

/-- Nothing patched, nothing installed. -/
structure Unpatched (w : World) : Prop where
  vector : w.vector = original
  blocks : ∀ a, w.blocks a = none
  foreign : ∀ a, w.foreign a = none
  closed : ∀ rg, (w.guards rg).deviceOpen = false
  handlers : ∀ rg, w.handlers rg = false

/-! ## The invariant -/

/-- **The chain is sound**: a path through `l` to the original, with every trampoline owned by an
installed guard and every installed guard on it. -/
structure Sound (w : World) (l : List Addr) : Prop where
  path : Path (w.next entry) w.vector original l
  nodup : l.Nodup
  off : w.blocks original = none ∧ w.foreign original = none
  apart : ∀ a, (w.foreign a).isSome → w.blocks a = none
  owned : ∀ a ws, w.blocks a = some ws → ∃ rg, ws = trampolineWords entry rg
    ∧ (w.guards rg).deviceOpen = true ∧ (w.guards rg).trampoline = a
  installed : ∀ rg, (w.guards rg).deviceOpen = true → (w.guards rg).trampoline ≠ 0
    ∧ w.blocks (w.guards rg).trampoline = some (trampolineWords entry rg)
    ∧ (w.guards rg).trampoline ∈ l ∧ w.handlers rg = true
  closed : ∀ rg, (w.guards rg).deviceOpen = false → w.handlers rg = false

variable {entry original} {w w' : World} {l : List Addr} {a rg : Addr} {args : Args} {r : Replies}

theorem World.next_foreign {old : Addr} (h : w.foreign a = some old) :
    w.next entry a = some old := by
  rw [World.next, h]

theorem World.next_trampoline (hf : w.foreign a = none)
    (hb : w.blocks a = some (trampolineWords entry rg)) :
    w.next entry a = some (w.guards rg).oldColdReboot := by
  rw [World.next, hf, hb, Option.bind_some, runTrampoline_words]
  exact if_pos rfl

theorem World.next_none (hf : w.foreign a = none) (hb : w.blocks a = none) :
    w.next entry a = none := by
  rw [World.next, hf, hb, Option.bind_none]

/-- A link only depends on the function itself, and on its guard if it is a trampoline. -/
theorem World.next_congr (hf : w'.foreign a = w.foreign a) (hb : w'.blocks a = w.blocks a)
    (hg : ∀ ws rg target, w.blocks a = some ws → runTrampoline ws = some (rg, target) →
      (w'.guards rg).oldColdReboot = (w.guards rg).oldColdReboot) :
    w'.next entry a = w.next entry a := by
  rw [World.next, World.next, hf, hb]
  cases w.foreign a with
  | some old => rfl
  | none =>
    cases hws : w.blocks a with
    | none => rfl
    | some ws =>
      rw [Option.bind_some]
      cases hrun : runTrampoline ws with
      | none => rfl
      | some p => simp only [hg ws p.1 p.2 hws hrun]

/-- On a sound chain the guard of a trampoline is its owner. -/
theorem Sound.owner (h : Sound entry original w l) {ws : List UWord} {target : Addr}
    (hb : w.blocks a = some ws) (hrun : runTrampoline ws = some (rg, target)) :
    (w.guards rg).deviceOpen = true ∧ (w.guards rg).trampoline = a := by
  obtain ⟨rg', rfl, hopen, htramp⟩ := h.owned a ws hb
  rw [runTrampoline_words] at hrun
  obtain ⟨rfl, -⟩ := Prod.mk.inj (Option.some.inj hrun)
  exact ⟨hopen, htramp⟩

theorem Sound.next_original (h : Sound entry original w l) : w.next entry original = none :=
  World.next_none h.off.2 h.off.1

/-- Every node of the chain is a function that can be called. -/
theorem Sound.callable (h : Sound entry original w l) (ha : a ∈ l) :
    (w.foreign a).isSome ∨ ∃ ws, w.blocks a = some ws := by
  by_contra hno
  rw [not_or, not_exists] at hno
  have hf : w.foreign a = none := Option.not_isSome_iff_eq_none.mp hno.1
  have hb : w.blocks a = none := Option.eq_none_iff_forall_not_mem.mpr fun ws hws => hno.2 ws hws
  have hsome := h.path.isSome_of_mem ha
  rw [World.next_none hf hb] at hsome
  exact absurd hsome (by decide)

/-- A free place is not on the chain. -/
theorem Sound.notMem_of_free (h : Sound entry original w l) (hfree : Free original w a) :
    a ∉ l := fun ha => by
  rcases h.callable ha with hf | ⟨ws, hb⟩
  · rw [hfree.foreign] at hf
    exact absurd hf (by decide)
  · exact absurd (hfree.blocks.symm.trans hb) (by simp)

/-! ## Every operation keeps it -/

/-- A guard closed off the chain. -/
theorem Sound.unchanged (h : Sound entry original w l) (hclosed : (w.guards rg).deviceOpen = false)
    (hu : Unchanged w w' rg) : Sound entry original w' l := by
  have hne : ∀ rg', (w.guards rg').deviceOpen = true → rg' ≠ rg := fun rg' hopen heq =>
    absurd ((heq ▸ hopen).symm.trans hclosed) (by decide)
  have hold : ∀ rg', (w'.guards rg').deviceOpen = true →
      (w.guards rg').deviceOpen = true ∧ w'.guards rg' = w.guards rg' := by
    intro rg' hopen
    by_cases heq : rg' = rg
    · rw [heq, hu.closed] at hopen
      exact absurd hopen (by decide)
    · rw [hu.others rg' heq] at hopen ⊢
      exact ⟨hopen, rfl⟩
  refine ⟨?_, h.nodup, ?_, ?_, ?_, ?_, ?_⟩
  · rw [hu.vector]
    refine h.path.congr fun a _ => World.next_congr (congrFun hu.foreign a) (congrFun hu.blocks a)
      fun ws rg' target hb hrun => ?_
    rw [hu.others rg' (hne rg' (h.owner hb hrun).1)]
  · rw [hu.blocks, hu.foreign]
    exact h.off
  · rw [hu.blocks, hu.foreign]
    exact h.apart
  · intro a ws hb
    rw [hu.blocks] at hb
    obtain ⟨rg', hws, hopen, htramp⟩ := h.owned a ws hb
    have hrg := hu.others rg' (hne rg' hopen)
    rw [← hrg] at hopen htramp
    exact ⟨rg', hws, hopen, htramp⟩
  · intro rg' hopen
    obtain ⟨hopen', heq⟩ := hold rg' hopen
    rw [heq, hu.blocks, hu.handlers]
    exact h.installed rg' hopen'
  · intro rg' hopen
    rw [hu.handlers]
    by_cases heq : rg' = rg
    · rw [heq]
      exact h.closed rg hclosed
    · rw [hu.others rg' heq] at hopen
      exact h.closed rg' hopen

/-- A guard pushed. -/
theorem Sound.hooked {t : Addr} (h : Sound entry original w l)
    (hclosed : (w.guards rg).deviceOpen = false) (hfree : Free original w t) (h0 : t ≠ 0)
    (hk : Hooked entry w w' rg t) : Sound entry original w' (t :: l) := by
  have hne : ∀ rg', (w.guards rg').deviceOpen = true → rg' ≠ rg := fun rg' hopen heq =>
    absurd ((heq ▸ hopen).symm.trans hclosed) (by decide)
  have hmem := h.notMem_of_free hfree
  have hself : w'.blocks t = some (trampolineWords entry rg) := by
    rw [hk.blocks, Function.update_self]
  have hother : ∀ a, a ≠ t → w'.blocks a = w.blocks a := fun a ha => by
    rw [hk.blocks, Function.update_of_ne ha]
  refine ⟨?_, List.nodup_cons.mpr ⟨hmem, h.nodup⟩, ?_, ?_, ?_, ?_, ?_⟩
  · rw [hk.vector]
    refine .cons ((World.next_trampoline ?_ hself).trans (congrArg some hk.oldColdReboot)) ?_
    · rw [hk.foreign, hfree.foreign]
    · refine h.path.congr fun a ha => World.next_congr (congrFun hk.foreign a)
        (hother a fun heq => hmem (heq ▸ ha)) fun ws rg' target hb hrun => ?_
      rw [hk.others rg' (hne rg' (h.owner hb hrun).1)]
  · rw [hk.foreign, hother original hfree.original.symm]
    exact h.off
  · intro a hf
    rw [hk.foreign] at hf
    by_cases heq : a = t
    · rw [heq, hfree.foreign] at hf
      exact absurd hf (by decide)
    · rw [hother a heq]
      exact h.apart a hf
  · intro a ws hb
    by_cases heq : a = t
    · rw [heq, hself] at hb
      exact ⟨rg, (Option.some.inj hb).symm, hk.deviceOpen, by rw [heq, hk.trampoline]⟩
    · rw [hother a heq] at hb
      obtain ⟨rg', hws, hopen, htramp⟩ := h.owned a ws hb
      have hrg := hk.others rg' (hne rg' hopen)
      rw [← hrg] at hopen htramp
      exact ⟨rg', hws, hopen, htramp⟩
  · intro rg' hopen
    rw [hk.handlers]
    by_cases heq : rg' = rg
    · rw [heq, hk.trampoline, Function.update_self]
      exact ⟨h0, hself, List.mem_cons_self, rfl⟩
    · rw [hk.others rg' heq] at hopen ⊢
      obtain ⟨hne0, hb, hin, hhandler⟩ := h.installed rg' hopen
      rw [hother _ fun ht => hmem (ht ▸ hin), Function.update_of_ne heq]
      exact ⟨hne0, hb, List.mem_cons_of_mem t hin, hhandler⟩
  · intro rg' hopen
    rw [hk.handlers]
    by_cases heq : rg' = rg
    · rw [heq, hk.deviceOpen] at hopen
      exact absurd hopen (by decide)
    · rw [hk.others rg' heq] at hopen
      rw [Function.update_of_ne heq]
      exact h.closed rg' hopen

/-- A guard popped: its trampoline was the first node, and the rest is the chain now. -/
theorem Sound.unhooked (h : Sound entry original w l) (hopen : (w.guards rg).deviceOpen = true)
    (htop : w.vector = (w.guards rg).trampoline) (hu : Unhooked w w' rg) :
    ∃ l', l = (w.guards rg).trampoline :: l' ∧ Sound entry original w' l' := by
  obtain ⟨-, hb, hin, -⟩ := h.installed rg hopen
  have hf : w.foreign (w.guards rg).trampoline = none := by
    by_contra hsome
    have := h.apart _ (Option.isSome_iff_ne_none.mpr hsome)
    exact absurd (this.symm.trans hb) (by simp)
  have hoff : (w.guards rg).trampoline ≠ original := fun heq =>
    absurd ((heq ▸ hb).symm.trans h.off.1) (by simp)
  obtain ⟨b, l', rfl, hnext, hpath⟩ := h.path.exists_cons (htop ▸ hoff)
  rw [htop, World.next_trampoline hf hb] at hnext
  obtain rfl := Option.some.inj hnext
  obtain ⟨hmem, hnodup⟩ := List.nodup_cons.mp h.nodup
  rw [htop] at hmem
  have hother : ∀ a, a ≠ (w.guards rg).trampoline → w'.blocks a = w.blocks a := fun a ha => by
    rw [hu.blocks, Function.update_of_ne ha]
  have hsame : ∀ rg', (w'.guards rg').deviceOpen = true → rg' ≠ rg := fun rg' hopen' heq =>
    absurd ((heq ▸ hopen').symm.trans hu.closed) (by decide)
  refine ⟨l', by rw [htop], ?_, hnodup, ?_, ?_, ?_, ?_, ?_⟩
  · rw [hu.vector]
    refine hpath.congr fun a ha => World.next_congr (congrFun hu.foreign a)
      (hother a fun heq => hmem (heq ▸ ha)) fun ws rg' target hb' hrun => ?_
    rw [hu.others rg' fun heq => hmem ?_]
    rw [← heq, (h.owner hb' hrun).2]
    exact ha
  · rw [hu.foreign, hother original hoff.symm]
    exact h.off
  · intro a hfa
    rw [hu.foreign] at hfa
    by_cases heq : a = (w.guards rg).trampoline
    · rw [heq, hu.blocks, Function.update_self]
    · rw [hother a heq]
      exact h.apart a hfa
  · intro a ws hb'
    by_cases heq : a = (w.guards rg).trampoline
    · rw [heq, hu.blocks, Function.update_self] at hb'
      cases hb'
    · rw [hother a heq] at hb'
      obtain ⟨rg', hws, hopen', htramp⟩ := h.owned a ws hb'
      have hne : rg' ≠ rg := fun hrg => heq (by rw [← htramp, hrg])
      rw [← hu.others rg' hne] at hopen' htramp
      exact ⟨rg', hws, hopen', htramp⟩
  · intro rg' hopen'
    have hne := hsame rg' hopen'
    rw [hu.others rg' hne] at hopen' ⊢
    obtain ⟨hne0, hb', hin', hhandler⟩ := h.installed rg' hopen'
    have htramp : (w.guards rg').trampoline ≠ (w.guards rg).trampoline := fun heq =>
      hne (trampolineWords_inj (Option.some.inj (hb'.symm.trans (heq ▸ hb))))
    rw [hother _ htramp, hu.handlers, Function.update_of_ne hne]
    rw [htop] at hin'
    exact ⟨hne0, hb', (List.mem_cons.mp hin').resolve_left htramp, hhandler⟩
  · intro rg' hopen'
    rw [hu.handlers]
    by_cases heq : rg' = rg
    · rw [heq, Function.update_self]
    · rw [hu.others rg' heq] at hopen'
      rw [Function.update_of_ne heq]
      exact h.closed rg' hopen'

/-- A foreign patch pushed. -/
theorem Sound.push {f : Addr} (h : Sound entry original w l) (hfree : Free original w f) :
    Sound entry original
      { w with vector := f, foreign := Function.update w.foreign f (some w.vector) } (f :: l) := by
  have hmem := h.notMem_of_free hfree
  have hother : ∀ a, a ≠ f → Function.update w.foreign f (some w.vector) a = w.foreign a :=
    fun a ha => Function.update_of_ne ha _ _
  refine ⟨?_, List.nodup_cons.mpr ⟨hmem, h.nodup⟩, ⟨h.off.1, ?_⟩, ?_, h.owned, ?_, h.closed⟩
  · refine .cons (World.next_foreign (Function.update_self f _ _)) (h.path.congr fun a ha => ?_)
    exact World.next_congr (hother a fun heq => hmem (heq ▸ ha)) rfl fun _ _ _ _ _ => rfl
  · exact (hother original hfree.original.symm).trans h.off.2
  · intro a hf
    by_cases heq : a = f
    · rw [heq]
      exact hfree.blocks
    · exact h.apart a ((congrArg Option.isSome (hother a heq)).symm.trans hf)
  · intro rg hopen
    obtain ⟨hne0, hb, hin, hhandler⟩ := h.installed rg hopen
    exact ⟨hne0, hb, List.mem_cons_of_mem f hin, hhandler⟩

/-- A foreign patch popped from the top. -/
theorem Sound.pop {f old : Addr} (h : Sound entry original w l) (htop : w.vector = f)
    (hf : w.foreign f = some old) : ∃ l', l = f :: l' ∧ Sound entry original
      { w with vector := old, foreign := Function.update w.foreign f none } l' := by
  have hb := h.apart f (by rw [hf]; rfl)
  have hoff : f ≠ original := fun heq => absurd ((heq ▸ hf).symm.trans h.off.2) (by simp)
  obtain ⟨b, l', rfl, hnext, hpath⟩ := h.path.exists_cons (htop ▸ hoff)
  rw [htop, World.next_foreign hf] at hnext
  obtain rfl := Option.some.inj hnext
  obtain ⟨hmem, hnodup⟩ := List.nodup_cons.mp h.nodup
  rw [htop] at hmem
  have hother : ∀ a, a ≠ f → Function.update w.foreign f none a = w.foreign a :=
    fun a ha => Function.update_of_ne ha _ _
  refine ⟨l', by rw [htop], ?_, hnodup, ⟨h.off.1, ?_⟩, ?_, h.owned, ?_, h.closed⟩
  · exact hpath.congr fun a ha => World.next_congr (hother a fun heq => hmem (heq ▸ ha)) rfl
      fun _ _ _ _ _ => rfl
  · exact (hother original hoff.symm).trans h.off.2
  · intro a hfa
    by_cases heq : a = f
    · rw [heq]
      exact hb
    · exact h.apart a ((congrArg Option.isSome (hother a heq)).symm.trans hfa)
  · intro rg hopen
    obtain ⟨hne0, hb', hin, hhandler⟩ := h.installed rg hopen
    rw [htop] at hin
    refine ⟨hne0, hb', (List.mem_cons.mp hin).resolve_left fun heq => ?_, hhandler⟩
    exact absurd ((heq ▸ hb').symm.trans hb) (by simp)

/-- **One operation.** -/
theorem Sound.next {e : Op × Bool} (h : Sound entry original w l)
    (hs : ChainStep entry original w e w') : ∃ l', Sound entry original w' l' := by
  obtain ⟨op, ok⟩ := e
  obtain ⟨hallowed, happly⟩ := hs
  cases op with
  | install rg args r =>
    obtain ⟨hclosed, hfree⟩ := hallowed
    have hw : (install entry w rg args r).1 = w' := congrArg Prod.fst happly
    cases hok : (install entry w rg args r).2 with
    | false => exact ⟨l, h.unchanged hclosed (hw ▸ install_failed (h.closed rg hclosed) hok)⟩
    | true =>
      obtain ⟨h0, hk⟩ := install_succeeded hok
      exact ⟨_, h.hooked hclosed (hfree h0) h0 (hw ▸ hk)⟩
  | remove rg =>
    have hw : (remove w rg).1 = w' := congrArg Prod.fst happly
    cases hopen : (w.guards rg).deviceOpen with
    | false =>
      rw [remove_closed hopen] at hw
      exact ⟨l, hw ▸ h⟩
    | true =>
      cases hok : (remove w rg).2 with
      | false => exact ⟨l, hw ▸ (remove_refused hok).symm ▸ h⟩
      | true =>
        obtain ⟨htop, hu⟩ := remove_succeeded hopen (h.installed rg hopen).1 hok
        obtain ⟨l', -, h'⟩ := h.unhooked hopen htop hu
        exact ⟨l', hw ▸ h'⟩
  | push f =>
    obtain ⟨rfl, -⟩ := Prod.mk.inj happly
    exact ⟨_, h.push hallowed⟩
  | pop f =>
    obtain ⟨htop, hf⟩ := hallowed
    obtain ⟨old, hold⟩ := Option.isSome_iff_exists.mp hf
    have hw : (Op.apply entry w (.pop f)).1 = w' := congrArg Prod.fst happly
    simp only [Op.apply, hold] at hw
    obtain ⟨l', -, h'⟩ := h.pop htop hold
    exact ⟨l', hw ▸ h'⟩

theorem Unpatched.sound (h : Unpatched original w) : Sound entry original w [] where
  path := h.vector ▸ .nil _
  nodup := List.nodup_nil
  off := ⟨h.blocks _, h.foreign _⟩
  apart a hf := absurd hf (by rw [h.foreign a]; decide)
  owned a _ hb := absurd ((h.blocks a).symm.trans hb) (by simp)
  installed rg hopen := absurd ((h.closed rg).symm.trans hopen) (by decide)
  closed rg _ := h.handlers rg

/-- **Every run keeps the chain sound.** -/
theorem sound_of_history {es : List (Op × Bool)}
    (h : History (Unpatched original) (ChainStep entry original) es w) :
    ∃ l, Sound entry original w l :=
  h.invariant (fun _ w => ∃ l, Sound entry original w l) (fun _ h0 => ⟨[], h0.sound⟩)
    fun _ _ _ _ ⟨_, hl⟩ hs => hl.next hs

/-- **The patch chain stays sound**, whatever was installed, removed and patched, and whatever
failed.  Every function on it is the original, a foreign patch, or the allocated trampoline of an
installed guard.  A remove that succeeds pops that guard's own link and handler and leaves the rest;
one that refuses changes nothing; an install that fails leaves everything around the guard as it
was. -/
theorem patch_chain_sound {es : List (Op × Bool)}
    (h : History (Unpatched original) (ChainStep entry original) es w) :
    (∀ a, OnPath (w.next entry) w.vector a → a = original ∨ (w.foreign a).isSome
      ∨ ∃ rg, w.blocks a = some (trampolineWords entry rg) ∧ (w.guards rg).deviceOpen = true
        ∧ (w.guards rg).trampoline = a)
      ∧ (∀ rg, (w.guards rg).deviceOpen = true → (remove w rg).2 = true →
        Unhooked w (remove w rg).1 rg ∧ ∃ l,
          Path (w.next entry) w.vector original ((w.guards rg).trampoline :: l)
            ∧ Path ((remove w rg).1.next entry) (remove w rg).1.vector original l)
      ∧ (∀ rg, (w.guards rg).deviceOpen = false → remove w rg = (w, true))
      ∧ (∀ rg, (remove w rg).2 = false → (remove w rg).1 = w)
      ∧ ∀ rg args r, (w.guards rg).deviceOpen = false → (install entry w rg args r).2 = false →
        Unchanged w (install entry w rg args r).1 rg := by
  obtain ⟨l, hl⟩ := sound_of_history h
  refine ⟨fun a ha => ?_, fun rg hopen hok => ?_, fun rg => remove_closed, fun rg => remove_refused,
    fun rg args r hclosed => install_failed (hl.closed rg hclosed)⟩
  · rcases hl.path.mem_of_reaches hl.next_original ha with hmem | rfl
    · rcases hl.callable hmem with hf | ⟨ws, hb⟩
      · exact Or.inr (Or.inl hf)
      · obtain ⟨rg, rfl, hopen, htramp⟩ := hl.owned a ws hb
        exact Or.inr (Or.inr ⟨rg, hb, hopen, htramp⟩)
    · exact Or.inl rfl
  · obtain ⟨htop, hu⟩ := remove_succeeded hopen (hl.installed rg hopen).1 hok
    obtain ⟨l', rfl, hl'⟩ := hl.unhooked hopen htop hu
    exact ⟨hu, l', hl.path, hl'.path⟩

/-- A world with nothing patched. -/
def bare : World where
  vector := 0xF80000
  guards := fun _ => Guard.blank
  blocks := fun _ => none
  handlers := fun _ => false
  opens := 0
  foreign := fun _ => none

/-- One guard installed in it, and another one over that. -/
def oneInstalled : World :=
  (install 0xF90000 bare 0x1000 ⟨0, 0, 0, 0⟩ ⟨some (1, 2), true, 0x2000⟩).1

def twoInstalled : World :=
  (install 0xF90000 oneInstalled 0x1100 ⟨0, 0, 0, 0⟩ ⟨some (1, 2), true, 0x2100⟩).1

/-- The lower one is not removed while the upper one is on top; the upper one is. -/
theorem patch_chain_sound_installed :
    (remove twoInstalled 0x1000).2 = false ∧ (remove twoInstalled 0x1000).1 = twoInstalled ∧
      (remove twoInstalled 0x1100).2 = true ∧
      Unhooked twoInstalled (remove twoInstalled 0x1100).1 0x1100 ∧
      ∃ l, Path (twoInstalled.next 0xF90000) 0x2100 0xF80000 (0x2100 :: l) ∧
        Path ((remove twoInstalled 0x1100).1.next 0xF90000) 0x2000 0xF80000 l := by
  have hbare : Unpatched 0xF80000 bare :=
    ⟨rfl, fun _ => rfl, fun _ => rfl, fun _ => rfl, fun _ => rfl⟩
  have hone : ChainStep 0xF90000 0xF80000 bare
      (.install 0x1000 ⟨0, 0, 0, 0⟩ ⟨some (1, 2), true, 0x2000⟩, true) oneInstalled :=
    ⟨⟨rfl, fun _ => ⟨rfl, rfl, by decide⟩⟩, rfl⟩
  have htwo : ChainStep 0xF90000 0xF80000 oneInstalled
      (.install 0x1100 ⟨0, 0, 0, 0⟩ ⟨some (1, 2), true, 0x2100⟩, true) twoInstalled :=
    ⟨⟨rfl, fun _ => ⟨rfl, rfl, by decide⟩⟩, rfl⟩
  obtain ⟨-, hremoved, -, hrefused, -⟩ :=
    patch_chain_sound (History.next (History.next (.start hbare) hone) htwo)
  obtain ⟨hunhooked, hpath⟩ := hremoved 0x1100 rfl rfl
  exact ⟨rfl, hrefused 0x1000 rfl, rfl, hunhooked, hpath⟩

end Chain

end Reset
