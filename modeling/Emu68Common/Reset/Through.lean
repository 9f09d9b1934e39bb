import Emu68Common.Reset.Quiet
import Emu68Common.Reset.Chain

/-!
# Reset/Through — a `ColdReboot()` goes through every guard

The saved vectors link the guards into a list that starts at the vector and ends at the original
(`Linked`).  A caller in a guard's entry has the guards before it behind it (`Passed`), so one that
gets to the original has them all behind it, and each of their `prepare()`s was entered before, as
far as `Reset/Quiet` promises it.
-/

namespace Reset

open Machinery

variable {C G : Type} [DecidableEq C] [DecidableEq G] {cfg : Guards G} {s s' : State C G}
  {e : Event C G} {es : List (Event C G)} {chain : List G}

/-- **The guards a vector leads through**, in the order they are entered. -/
inductive Linked (cfg : Guards G) : Vector G → List G → Prop where
  | original : Linked cfg .original []
  | trampoline {g : G} {rest : List G} (h : Linked cfg (cfg.oldColdReboot g) rest) :
    Linked cfg (.trampoline g) (g :: rest)

/-- Where a caller of `ColdReboot()` stands on the chain. -/
def Place.heading : Place G → Option (Vector G)
  | .hook .coldreboot g _ => some (.trampoline g)
  | .original => some .original
  | _ => none

omit [DecidableEq G] in
theorem Vector.heading_place (v : Vector G) : v.place.heading = some v := by
  cases v <;> rfl

/-- **What lies ahead of a caller is the end of the chain, and what lies before that it passed.** -/
def Passed (cfg : Guards G) (chain : List G) (es : List (Event C G)) (c : C)
    (v : Vector G) : Prop :=
  ∃ before ahead, chain = before ++ ahead ∧ Linked cfg v ahead
    ∧ ∀ g ∈ before, Event.oldEntered c g ∈ es

/-- Every caller of `ColdReboot()` stands on the chain. -/
def Passing (cfg : Guards G) (chain : List G) (es : List (Event C G)) (s : State C G) : Prop :=
  ∀ c v, (s.place c).heading = some v → Passed cfg chain es c v

omit [DecidableEq C] [DecidableEq G] in
theorem Passed.cons {c : C} {v : Vector G} (h : Passed cfg chain es c v) (e : Event C G) :
    Passed cfg chain (e :: es) c v := by
  obtain ⟨before, ahead, heq, hlink, hpassed⟩ := h
  exact ⟨before, ahead, heq, hlink, fun g hg => List.mem_cons_of_mem e (hpassed g hg)⟩

omit [DecidableEq G] in
/-- One caller moves; where it heads is to be shown, the others stay. -/
theorem Passing.frame {c : C} {p : Place G} (h : Passing cfg chain es s)
    (hc : ∀ v, p.heading = some v → Passed cfg chain (e :: es) c v) :
    Passing cfg chain (e :: es) (s.move c p) := by
  intro c' v hv
  rw [State.move_place] at hv
  split at hv
  · rename_i heq
    exact heq ▸ hc v hv
  · exact (h c' v hv).cons e

omit [DecidableEq G] in
/-- A caller that goes on inside a hook heads where it headed. -/
theorem Passing.within {c : C} {k : Hook} {g : G} {st st' : Stage} (h : Passing cfg chain es s)
    (hc : s.place c = .hook k g st) : Passing cfg chain (e :: es) (s.move c (.hook k g st')) := by
  refine h.frame fun v hv => (h c v ?_).cons e
  rw [hc]
  cases k <;> exact hv

theorem Passing.next (hlink : Linked cfg cfg.vector chain) (h : Passing cfg chain es s)
    (hs : Step cfg s e s') : Passing cfg chain (e :: es) s' := by
  cases hs.move with
  | handlerCalled c g _ => exact h.frame fun v hv => by cases hv
  | rebootCalled c _ =>
    refine h.frame fun v hv => ?_
    rw [Vector.heading_place] at hv
    obtain rfl := Option.some.inj hv
    exact ⟨[], chain, rfl, hlink, fun g hg => absurd hg List.not_mem_nil⟩
  | tested c k g hc =>
    intro c' v hv
    rw [State.test_place] at hv
    split at hv
    · rename_i heq
      subst heq
      refine (h c' v ?_).cons _
      rw [hc]
      cases k <;> exact hv
    · exact (h c' v hv).cons _
  | prepareEntered c k g hc _ => exact h.within hc
  | skipped c k g _ hc _ => exact h.within hc
  | prepareReturned c k g hc => exact h.within hc
  | doneSent c g _ => exact h.frame fun v hv => by cases hv
  | oldEntered c g hc =>
    refine h.frame fun v hv => ?_
    rw [Vector.heading_place] at hv
    obtain rfl := Option.some.inj hv
    obtain ⟨before, ahead, heq, hahead, hpassed⟩ := h c (.trampoline g) (by rw [hc]; rfl)
    cases hahead with
    | trampoline hrest =>
      refine ⟨before ++ [g], _, by rw [heq, List.append_assoc, List.singleton_append], hrest, ?_⟩
      intro g' hg'
      rcases List.mem_append.mp hg' with hb | hone
      · exact List.mem_cons_of_mem _ (hpassed g' hb)
      · rw [List.mem_singleton.mp hone]
        exact List.mem_cons_self

/-- **Nobody gets to the original but through every guard.** -/
theorem passed_of_history (hlink : Linked cfg cfg.vector chain)
    (h : History Quiescent (Step cfg) es s) {c : C} (hc : s.place c = .original) {g : G}
    (hg : g ∈ chain) : Event.oldEntered c g ∈ es := by
  have hpassing : Passing cfg chain es s := h.invariant _
    (fun _ hq c v hv => absurd hv (by rw [hq.2 c]; simp [Place.heading]))
    fun _ _ _ _ hinv hs => hinv.next hlink hs
  obtain ⟨before, ahead, heq, hahead, hpassed⟩ := hpassing c .original (by rw [hc]; rfl)
  cases hahead with
  | original =>
    rw [List.append_nil] at heq
    exact hpassed g (heq ▸ hg)

/-- **`prepare()` runs at most once a guard and no guard is skipped**, in every run in which nobody
tests a guard's flag while the caller that set it has yet to enter `prepare()`. -/
theorem every_guard_once (hlink : Linked cfg cfg.vector chain)
    (hprep : ∀ g ∈ chain, cfg.prepare g = true)
    (h : History Quiescent (Restrict (Clear .entered) (Step cfg)) es s) :
    (∀ g, entries g es ≤ 1)
      ∧ ∀ c, s.place c = .original → ∀ g ∈ chain, Event.oldEntered c g ∈ es
        ∧ ∃ c', Event.prepareEntered c' g ∈ es := by
  refine ⟨(once_of_history h.of_restrict).once, fun c hc g hg => ?_⟩
  have hpassed := passed_of_history hlink h.of_restrict hc hg
  obtain ⟨l, l', heq⟩ := List.append_of_mem hpassed
  obtain ⟨e, hmem, c', rfl⟩ := goesOn_after_mark h (hprep g hg) l _ l' heq ⟨c, Or.inr rfl⟩
  refine ⟨hpassed, c', ?_⟩
  rw [heq]
  exact List.mem_append_right l (List.mem_cons_of_mem _ hmem)

/-! ## Installed guards are linked -/

/-- The guard a function on the vector belongs to, if it is a trampoline. -/
def World.leadsTo (w : World) (a : Addr) : Vector Addr :=
  match (w.blocks a).bind runTrampoline with
  | some (rg, _) => .trampoline rg
  | none => .original

/-- What the hooks see of a world with guards installed. -/
def World.hooks (w : World) : Guards Addr where
  prepare rg := (w.guards rg).prepare != 0
  oldColdReboot rg := w.leadsTo (w.guards rg).oldColdReboot
  vector := w.leadsTo w.vector

theorem World.leadsTo_trampoline {w : World} {entry a rg : Addr}
    (h : w.blocks a = some (trampolineWords entry rg)) : w.leadsTo a = .trampoline rg := by
  rw [World.leadsTo, h, Option.bind_some, runTrampoline_words]

theorem World.leadsTo_original {w : World} {a : Addr} (h : w.blocks a = none) :
    w.leadsTo a = .original := by
  rw [World.leadsTo, h, Option.bind_none]

/-- **With no foreign patch, a sound chain links every installed guard.** -/
theorem linked_of_sound {entry original : Addr} {w : World} {l : List Addr}
    (h : Sound entry original w l) (hf : ∀ a, w.foreign a = none) :
    ∃ chain, Linked w.hooks w.hooks.vector chain
      ∧ ∀ rg, (w.guards rg).deviceOpen = true → rg ∈ chain := by
  suffices hsuf : ∀ a l', Path (w.next entry) a original l' → ∃ chain,
      Linked w.hooks (w.leadsTo a) chain ∧ ∀ rg, (w.guards rg).deviceOpen = true →
        (w.guards rg).trampoline ∈ l' → rg ∈ chain by
    obtain ⟨chain, hlink, hall⟩ := hsuf w.vector l h.path
    exact ⟨chain, hlink, fun rg hopen => hall rg hopen (h.installed rg hopen).2.2.1⟩
  intro a l'
  induction l' generalizing a with
  | nil =>
    intro p
    rw [p.eq_of_nil, World.leadsTo_original h.off.1]
    exact ⟨[], .original, fun rg _ hmem => absurd hmem List.not_mem_nil⟩
  | cons b l' ih =>
    intro p
    obtain ⟨rfl, c, hnext, p'⟩ := p.tail
    obtain ⟨chain, hlink, hall⟩ := ih c p'
    cases hb : w.blocks b with
    | none =>
      rw [World.next_none (hf b) hb] at hnext
      cases hnext
    | some ws =>
      obtain ⟨rg, rfl, -, -⟩ := h.owned b ws hb
      rw [World.next_trampoline (hf b) hb] at hnext
      rw [← Option.some.inj hnext] at hlink
      rw [World.leadsTo_trampoline hb]
      refine ⟨rg :: chain, .trampoline hlink, fun rg' hopen hmem => ?_⟩
      rcases List.mem_cons.mp hmem with heq | hmem'
      · have hb' := (h.installed rg' hopen).2.1
        rw [heq, hb] at hb'
        rw [trampolineWords_inj (Option.some.inj hb')]
        exact List.mem_cons_self
      · exact List.mem_cons_of_mem rg (hall rg' hopen hmem')

theorem linked_oneGuard : Linked oneGuard oneGuard.vector [()] := .trampoline .original

theorem every_guard_once_bothWays :
    (∀ g, entries g bothWays ≤ 1) ∧ ∀ g, ∃ c', Event.prepareEntered c' g ∈ bothWays := by
  have hlink : Linked twoGuards twoGuards.vector [true, false] :=
    .trampoline (.trampoline .original)
  obtain ⟨s, h, hc⟩ := history_bothWays .entered
  obtain ⟨honce, hall⟩ := every_guard_once hlink (fun _ _ => rfl) h
  exact ⟨honce, fun g => (hall false hc g (by cases g <;> simp)).2⟩

/-- A task is preempted between `Enable` and the call of `prepare()`; another one finds the flag
set, and reboots. -/
def skippedOver : List (Event Bool Unit) :=
  [.oldEntered true (), .skipped true (), .tested true () true, .rebootCalled true,
    .tested false () false, .rebootCalled false]

theorem guard_skipped_over :
    (∃ s, History Quiescent (Step oneGuard) skippedOver s ∧ s.place true = .original)
      ∧ Linked oneGuard oneGuard.vector [()]
      ∧ ¬ ∃ c', Event.prepareEntered c' () ∈ skippedOver := by
  refine ⟨⟨_, history_of_runActions [.run true, .run true, .run true, .reboot true, .run false,
    .reboot false] quiescent_atRest rfl, rfl⟩, linked_oneGuard, ?_⟩
  rintro ⟨c', hmem⟩
  simp [skippedOver] at hmem

end Reset
