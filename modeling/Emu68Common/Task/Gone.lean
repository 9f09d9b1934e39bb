import Emu68Common.Task.Worker

/-!
# Task/Gone — a joined worker is really gone

A worker on its way out has the CPU and is in `Forbid`, so nobody sees its slot empty before it has
ended.  What is in a slot is a worker that belongs there, and one that has left it never comes back.

    Inv          the scheduler, the slots and the workers
    Past s w i   w has been in slot i
    Ended s w    w has ended
-/

namespace DriverTask

open Machinery

variable {T S : Type} {s s' : State T S} {e : Event T S} {es : List (Event T S)} {t w p : T}
  {i : S} {q : Place T S} {ph : Phase} {line : Line T S}

/-! ## The invariant -/

/-- In its slot for sure. -/
def Phase.inSlot : Phase → Bool
  | .published | .looping => true
  | _ => false

/-- Perhaps still in its slot. -/
def Phase.mayHold : Phase → Bool
  | .published | .looping | .exiting _ => true
  | _ => false

theorem Phase.gone_of_mayHold (h : ph.mayHold = true) : ph.gone = false := by
  cases ph with
  | starting | cleared r | signalled r | ended r => cases h
  | published | looping | exiting r => rfl

theorem Phase.leaving_of_own (h : ph.own = true) : ph.leaving = false := by
  cases ph with
  | starting | published | looping => rfl
  | exiting r | cleared r | signalled r | ended r => cases h

/-- In a call. -/
def Line.busy : Line T S → Bool
  | .idle => false
  | _ => true

theorem Line.busy_of_ne (h : line ≠ .idle) : line.busy = true := by
  cases line with
  | idle => exact absurd rfl h
  | _ => rfl

/-- **The invariant** of the scheduler, the slots and the workers. -/
structure Inv (s : State T S) : Prop where
  /-- a worker on its way out has the CPU and keeps it -/
  cpu : ∀ w p i ph, s.place w = .worker p i ph → ph.leaving = true →
    s.running = w ∧ s.nest w = true
  inSlot : ∀ w p i ph, s.place w = .worker p i ph → ph.inSlot = true → s.slot i = some w
  holder : ∀ i w, s.slot i = some w → ∃ p ph, s.place w = .worker p i ph ∧ ph.mayHold = true
  unique : ∀ w p i ph, s.place w = .worker p i ph → ph.gone = false →
    ∀ w' p' ph', w' ≠ w → s.place w' = .worker p' i ph' → ph'.gone = true
  /-- what a join has loaded from a slot is a worker -/
  loaded : ∀ t i found b w, s.line t = .signalling i found b (some w) →
    ∃ p ph, s.place w = .worker p i ph
  /-- only from its own code is a task in a call -/
  own : ∀ t, (s.line t).busy = true → (s.place t).own = true

namespace Inv

theorem of_start (h : Start s) : Inv s := by
  have hno : ∀ {w p i ph}, s.place w ≠ .worker p i ph := fun {w p i ph} hw => by
    rcases h.place w with hn | hn <;> cases hn.symm.trans hw
  refine ⟨fun w p i ph hw => absurd hw hno, fun w p i ph hw => absurd hw hno, fun i w hi => ?_,
    fun w p i ph hw => absurd hw hno, fun t i found b w ht => ?_, fun t ht => ?_⟩
  · cases (h.slot i).symm.trans hi
  · cases (h.line t).symm.trans ht
  · rw [h.line t] at ht
    cases ht

/-- A worker in its slot is the only one alive for it. -/
theorem eq_of_slot (h : Inv s) {w' p' : T} (hi : s.slot i = some w)
    (hw : s.place w' = .worker p' i ph) (hg : ph.gone = false) : w' = w := by
  obtain ⟨p, ph', hp, hhold⟩ := h.holder i w hi
  by_contra hne
  have := h.unique w p i ph' hp (Phase.gone_of_mayHold hhold) w' p' ph hne hw
  cases hg.symm.trans this

/-- A worker that has left its slot has left it empty. -/
theorem not_in_slot (h : Inv s) (hw : s.place w = .worker p i ph) (hg : ph.gone = false)
    (hm : ph.mayHold = false) (w' : T) : s.slot i ≠ some w' := by
  intro hi
  obtain rfl := h.eq_of_slot hi hw hg
  obtain ⟨p', ph', hp, hhold⟩ := h.holder i w hi
  obtain ⟨-, -, rfl⟩ := Place.worker.inj (hw.symm.trans hp)
  cases hm.symm.trans hhold

/-- A worker in a call is not on its way out. -/
theorem leaving_of_busy (h : Inv s) (hl : (s.line w).busy = true)
    (hw : s.place w = .worker p i ph) : ph.leaving = false := by
  have hown := h.own w hl
  rw [hw] at hown
  exact Phase.leaving_of_own hown

/-- **One task becomes another**: the rest is to be shown of its new place and of the slots. -/
theorem moved (h : Inv s) [DecidableEq T] (hrun : s'.running = s.running) (hline : s'.line = s.line)
    (hplace : ∀ t', s'.place t' = if t' = t then q else s.place t')
    (hnest : ∀ t', t' ≠ t → s'.nest t' = s.nest t')
    (hcpu : ∀ p i ph, q = .worker p i ph → ph.leaving = true → s.running = t ∧ s'.nest t = true)
    (hslot : ∀ i w, w ≠ t → (s'.slot i = some w ↔ s.slot i = some w))
    (hmine : ∀ p i ph, q = .worker p i ph → ph.inSlot = true → s'.slot i = some t)
    (hhold : ∀ i, s'.slot i = some t → ∃ p ph, q = .worker p i ph ∧ ph.mayHold = true)
    (hunique : ∀ p i ph, q = .worker p i ph → ph.gone = false →
      ∀ w p' ph', w ≠ t → s.place w = .worker p' i ph' → ph'.gone = true)
    (hkeep : ∀ p i ph, s.place t = .worker p i ph → ∃ p' ph', q = .worker p' i ph')
    (hidle : s.line t = .idle) : Inv s' := by
  have hself : s'.place t = q := by rw [hplace, if_pos rfl]
  have hother : ∀ t', t' ≠ t → s'.place t' = s.place t' := fun t' hne => by rw [hplace, if_neg hne]
  refine ⟨fun w p i ph hw hl => ?_, fun w p i ph hw hin => ?_, fun i w hi => ?_,
    fun w p i ph hw hg w' p' ph' hne hw' => ?_, fun t' i found b w ht' => ?_, fun t' ht' => ?_⟩
  · rw [hrun]
    by_cases heq : w = t
    · rw [heq] at hw ⊢
      exact hcpu p i ph (hself.symm.trans hw) hl
    · rw [hnest w heq]
      exact h.cpu w p i ph ((hother w heq).symm.trans hw) hl
  · by_cases heq : w = t
    · rw [heq] at hw ⊢
      exact hmine p i ph (hself.symm.trans hw) hin
    · exact (hslot i w heq).mpr (h.inSlot w p i ph ((hother w heq).symm.trans hw) hin)
  · by_cases heq : w = t
    · rw [heq] at hi ⊢
      rw [hself]
      exact hhold i hi
    · rw [hother w heq]
      exact h.holder i w ((hslot i w heq).mp hi)
  · by_cases heq : w = t
    · rw [heq] at hw hne
      exact hunique p i ph (hself.symm.trans hw) hg w' p' ph' hne ((hother w' hne).symm.trans hw')
    · by_cases heq' : w' = t
      · -- seen from the other side
        refine (Bool.eq_false_or_eq_true _).resolve_right fun hg' => ?_
        rw [heq'] at hw'
        have := hunique p' i ph' (hself.symm.trans hw') hg' w p ph heq
          ((hother w heq).symm.trans hw)
        cases hg.symm.trans this
      · exact h.unique w p i ph ((hother w heq).symm.trans hw) hg w' p' ph' hne
          ((hother w' heq').symm.trans hw')
  · obtain ⟨p, ph, hw⟩ := h.loaded t' i found b w ((congrFun hline t').symm.trans ht')
    by_cases heq : w = t
    · rw [heq] at hw ⊢
      rw [hself]
      exact hkeep p i ph hw
    · exact ⟨p, ph, (hother w heq).trans hw⟩
  · rw [hline] at ht'
    have hne : t' ≠ t := by
      rintro rfl
      rw [hidle] at ht'
      cases ht'
    rw [hother t' hne]
    exact h.own t' ht'

variable [DecidableEq T]

/-- **A line of a call** leaves the slots and the workers alone. -/
theorem called (h : Inv s) (hrun : s'.running = s.running) (hplace : s'.place = s.place)
    (hline : ∀ t', s'.line t' = if t' = t then line else s.line t') (hnest : s'.nest = s.nest)
    (hslot : s'.slot = s.slot) (hown : (s.place t).own = true)
    (hload : ∀ i found b w, line = .signalling i found b (some w) →
      ∃ p ph, s.place w = .worker p i ph) : Inv s' := by
  refine ⟨?_, ?_, ?_, ?_, fun t' i found b w ht' => ?_, fun t' ht' => ?_⟩
  · rw [hrun, hnest, hplace]
    exact h.cpu
  · rw [hslot, hplace]
    exact h.inSlot
  · rw [hslot, hplace]
    exact h.holder
  · rw [hplace]
    exact h.unique
  · rw [hplace]
    rw [hline] at ht'
    split at ht'
    · exact hload i found b w ht'
    · exact h.loaded t' i found b w ht'
  · rw [hplace]
    rw [hline] at ht'
    split at ht'
    · rename_i heq
      rw [heq]
      exact hown
    · exact h.own t' ht'

/-- A worker that goes on to another phase, with its slot as it should be then. -/
theorem worker (h : Inv s) {ph' : Phase} (hrun : s'.running = s.running) (hline : s'.line = s.line)
    (hidle : s.line w = .idle) (hq : s.place w = .worker p i ph) (hg : ph.gone = false)
    (hplace : ∀ t', s'.place t' = if t' = w then .worker p i ph' else s.place t')
    (hnest : ∀ t', t' ≠ w → s'.nest t' = s.nest t')
    (hcpu : ph'.leaving = true → s.running = w ∧ s'.nest w = true)
    (hslot : ∀ j, j ≠ i → s'.slot j = s.slot j)
    (hin : ph'.inSlot = true → s'.slot i = some w)
    (hhold : s'.slot i = some w → ph'.mayHold = true)
    (hothers : ∀ w', w' ≠ w → s'.slot i ≠ some w') : Inv s' := by
  have hmine : ∀ w', w' ≠ w → s.slot i ≠ some w' :=
    fun w' hne hi => hne (h.eq_of_slot hi hq hg).symm
  refine h.moved hrun hline hplace hnest (fun p' j ph'' hp => ?_) (fun j w' hne => ?_)
    (fun p' j ph'' hp => ?_) (fun j hj => ?_) (fun p' j ph'' hp _ w' p'' ph₂ hne hw' => ?_)
    (fun p' j ph'' hp => ?_) hidle
  · obtain ⟨-, -, rfl⟩ := Place.worker.inj hp
    exact hcpu
  · by_cases heq : j = i
    · rw [heq]
      exact iff_of_false (hothers w' hne) (hmine w' hne)
    · rw [hslot j heq]
  · obtain ⟨-, rfl, rfl⟩ := Place.worker.inj hp
    exact hin
  · by_cases heq : j = i
    · rw [heq] at hj ⊢
      exact ⟨p, ph', rfl, hhold hj⟩
    · rw [hslot j heq] at hj
      obtain ⟨p', ph'', hp, -⟩ := h.holder j w hj
      exact absurd (Place.worker.inj (hq.symm.trans hp)).2.1.symm heq
  · obtain ⟨-, rfl, -⟩ := Place.worker.inj hp
    exact h.unique w p i ph hq hg w' p'' ph₂ hne hw'
  · obtain ⟨-, rfl, -⟩ := Place.worker.inj (hq.symm.trans hp)
    exact ⟨p, ph', rfl⟩

variable [DecidableEq S]

omit [DecidableEq S] in
/-- **A new worker**, for a slot nobody has any more. -/
theorem added (h : Inv s) (hw : s.place w = .unborn)
    (hi : ∀ w' p ph, s.place w' = .worker p i ph → ph.gone = true) :
    Inv (s.setPlace w (.worker t i .starting)) := by
  have hidle : s.line w = .idle := by
    by_contra hne
    have hown := h.own w (Line.busy_of_ne hne)
    rw [hw] at hown
    cases hown
  refine h.moved rfl rfl (State.setPlace_place s w · _) (fun _ _ => rfl) (fun p j ph hp hl => ?_)
    (fun _ _ _ => Iff.rfl) (fun p j ph hp hin => ?_) (fun j hj => ?_)
    (fun p j ph hp _ w' p' ph' _ hw' => ?_) (fun p j ph hp => by cases hw.symm.trans hp) hidle
  · obtain ⟨-, -, rfl⟩ := Place.worker.inj hp
    cases hl
  · obtain ⟨-, -, rfl⟩ := Place.worker.inj hp
    cases hin
  · obtain ⟨p, ph, hp, -⟩ := h.holder j w hj
    cases hw.symm.trans hp
  · obtain ⟨-, rfl, -⟩ := Place.worker.inj hp
    exact hi w' p' ph' hw'

/-- **Every step keeps the invariant.** -/
theorem next (h : Inv s) (hs : Step s e s') : Inv s' := by
  have hcall : ∀ {t line}, s.line t = line → line.busy = true → (s.place t).own = true :=
    fun {t line} hq hb => h.own t (by rw [hq]; exact hb)
  have hexit : ∀ {w p i ph}, s.place w = .worker p i ph → ph.leaving = true → s.line w = .idle :=
    fun {w p i ph} hw hl => by
      by_contra hne
      exact absurd ((h.leaving_of_busy (Line.busy_of_ne hne) hw).symm.trans hl) Bool.false_ne_true
  cases hs with
  | dispatch t hd ht =>
    refine ⟨fun w p i ph hw hl => ?_, h.inSlot, h.holder, h.unique, h.loaded, h.own⟩
    obtain ⟨hrun, hnest⟩ := h.cpu w p i ph hw hl
    rcases hd with hd | ⟨-, hd⟩
    · rw [hrun, hnest] at hd
      cases hd
    · rw [hrun] at hd
      exact absurd ((hd p i ph hw).symm.trans hl) Bool.false_ne_true
  | nesting t b hr ho =>
    refine ⟨fun w p i ph hw hl => ?_, h.inSlot, h.holder, h.unique, h.loaded, h.own⟩
    obtain ⟨hrun, hnest⟩ := h.cpu w p i ph hw hl
    obtain rfl : w = t := hrun.symm.trans hr
    have hown := ho.2
    rw [show s.place w = _ from hw] at hown
    exact absurd ((Phase.leaving_of_own hown).symm.trans hl) Bool.false_ne_true
  | ownWait t hr ho => exact ⟨h.cpu, h.inSlot, h.holder, h.unique, h.loaded, h.own⟩
  | allocFail t hr ho | joinNone t i hr ho hi | pollHot t w i paceMs hr hq hi => exact h
  | alloc t i hr ho | join t w i hr ho hi =>
    exact h.called rfl rfl (State.go_line _ t · _) rfl rfl ho.2 fun i found b w hl => by cases hl
  | clearBits t i hr hq | addTaskFail t i hr hq | await t w hr hq hsig
  | «open» t w i haveTimer hr hq | pollSleep t w i paceMs hr hq hi
  | sleep t w i paceMs hr hq | pollDone t w i haveTimer paceMs hr hq hi | clear t w i hr hq
  | close t w i hr hq =>
    exact h.called rfl rfl (State.go_line _ t · _) rfl rfl (hcall hq rfl)
      fun i found b w hl => by cases hl
  | load t w i haveTimer hr hq =>
    refine h.called rfl rfl (State.go_line _ t · _) rfl rfl (hcall hq rfl)
      fun j found b w' hl => ?_
    obtain ⟨rfl, -, -, hi⟩ := Line.signalling.inj hl
    obtain ⟨p, ph, hp, -⟩ := h.holder i w' hi
    exact ⟨p, ph, hp⟩
  | signal t w i haveTimer task hr hq =>
    refine h.called ?_ ?_ (fun t' => ?_) ?_ ?_ (hcall hq rfl)
      fun j found b w' (hl : Line.poll i w haveTimer 1 =
        .signalling j found b (some w')) => by cases hl
    · exact State.stop_running s task
    · exact State.stop_place s task
    · rw [State.go_line, State.stop_line]
    · exact State.stop_nest s task
    · exact State.stop_slot s task
  | addTask t w i hr hq hw hi =>
    have hne : t ≠ w := by
      rintro rfl
      have hown := hcall hq rfl
      rw [hw] at hown
      cases hown
    refine (h.added (t := t) hw hi).called rfl rfl (State.go_line _ t · _) rfl rfl ?_
      fun i found b w hl => by cases hl
    rw [State.setPlace_place, if_neg hne]
    exact hcall hq rfl
  | publish w p i hr hl hq =>
    refine h.worker rfl rfl hl hq rfl (State.setPlace_place _ w · _) (fun _ _ => rfl)
      (fun hl => by cases hl) (fun j hj => ?_) (fun _ => ?_) (fun _ => rfl) fun w' hne => ?_
    · rw [State.setPlace_slot, State.setSlot_slot, if_neg hj]
    · rw [State.setPlace_slot, State.setSlot_slot, if_pos rfl]
    · rw [State.setPlace_slot, State.setSlot_slot, if_pos rfl]
      exact fun heq => hne (Option.some.inj heq).symm
  | ready w p i hr hl hq =>
    have hin := h.inSlot w p i _ hq rfl
    refine h.worker ?_ ?_ hl hq rfl (fun t' => ?_) (fun _ _ => ?_)
      (fun (hl : Phase.leaving .looping = true) => by cases hl)
      (fun j _ => ?_) (fun _ => ?_) (fun _ => rfl) fun w' hne => ?_
    · exact State.report_running s p true
    · exact State.report_line s p true
    · rw [State.setPlace_place, State.report_place]
    · rw [State.setPlace_nest, State.report_nest]
    · rw [State.setPlace_slot, State.report_slot]
    · rw [State.setPlace_slot, State.report_slot, hin]
    · rw [State.setPlace_slot, State.report_slot, hin]
      exact fun heq => hne (Option.some.inj heq).symm
  | giveUp w p i hr hl hq =>
    have hother : ∀ w', w' ≠ w → s.slot i ≠ some w' := by
      intro w' hne hi
      rcases hq with hq | hq
      · exact hne (h.eq_of_slot hi hq rfl).symm
      · exact hne (h.eq_of_slot hi hq rfl).symm
    have hnest : (s.setNest w true).nest w = true := by rw [State.setNest_nest, if_pos rfl]
    have hnests : ∀ t', t' ≠ w → (s.setNest w true).nest t' = s.nest t' := fun t' hne => by
      rw [State.setNest_nest, if_neg hne]
    rcases hq with hq | hq
    · exact h.worker rfl rfl hl hq rfl (State.setPlace_place _ w · _) hnests
        (fun _ => ⟨hr, hnest⟩) (fun _ _ => rfl) (fun hin => by cases hin) (fun _ => rfl) hother
    · exact h.worker rfl rfl hl hq rfl (State.setPlace_place _ w · _) hnests
        (fun _ => ⟨hr, hnest⟩) (fun _ _ => rfl) (fun hin => by cases hin) (fun _ => rfl) hother
  | leave w p i hr hl hq =>
    have hin := h.inSlot w p i _ hq rfl
    refine h.worker rfl rfl hl hq rfl (State.setPlace_place _ w · _) (fun t' hne => ?_)
      (fun _ => ⟨hr, ?_⟩) (fun _ _ => rfl) (fun hin => by cases hin) (fun _ => rfl)
      fun w' hne hi => ?_
    · rw [State.setPlace_nest, State.setNest_nest, if_neg hne]
    · rw [State.setPlace_nest, State.setNest_nest, if_pos rfl]
    · exact hne (Option.some.inj (hin.symm.trans hi)).symm
  | clearSlot w p i ranLoop hr hq =>
    refine h.worker rfl rfl (hexit hq rfl) hq rfl (State.setPlace_place _ w · _) (fun _ _ => rfl)
      (fun _ => h.cpu w p i _ hq rfl) (fun j hj => ?_) (fun hin => by cases hin) (fun hi => ?_)
      fun w' hne hi => ?_
    · rw [State.setPlace_slot, State.setSlot_slot, if_neg hj]
    · rw [State.setPlace_slot, State.setSlot_slot, if_pos rfl] at hi
      cases hi
    · rw [State.setPlace_slot, State.setSlot_slot, if_pos rfl] at hi
      cases hi
  | report w p i ranLoop hr hq =>
    have hout := h.not_in_slot hq rfl rfl
    obtain ⟨hrun, hnest⟩ := h.cpu w p i _ hq rfl
    refine h.worker ?_ ?_ (hexit hq rfl) hq rfl (fun t' => ?_) (fun _ _ => ?_)
      (fun (_ : Phase.leaving (.signalled ranLoop) = true) => ⟨hrun, ?_⟩)
      (fun j _ => ?_) (fun hin => by cases hin) (fun hi => ?_) fun w' _ hi => ?_
    · exact State.report_running s p ranLoop
    · exact State.report_line s p ranLoop
    · rw [State.setPlace_place, State.report_place]
    · rw [State.setPlace_nest, State.report_nest]
    · rw [State.setPlace_nest, State.report_nest, hnest]
    · rw [State.setPlace_slot, State.report_slot]
    · rw [State.setPlace_slot, State.report_slot] at hi
      exact absurd hi (hout w)
    · rw [State.setPlace_slot, State.report_slot] at hi
      exact hout w' hi
  | finish w p i ranLoop hr hq =>
    have hout := h.not_in_slot hq rfl rfl
    refine h.worker rfl rfl (hexit hq rfl) hq rfl (State.setPlace_place _ w · _)
      (fun t' hne => ?_) (fun hl => by cases hl) (fun _ _ => rfl) (fun hin => by cases hin)
      (fun hi => absurd hi (hout w)) fun w' _ => hout w'
    rw [State.setPlace_nest, State.setNest_nest, if_neg hne]

/-- **Every run keeps it.** -/
theorem of_history (h : History Start Step es s) : Inv s :=
  h.invariant (fun _ s => Inv s) (fun _ h => of_start h) fun _ _ _ _ h hs => h.next hs

end Inv

end DriverTask
