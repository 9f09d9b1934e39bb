import Emu68Common.Task.Gone

/-!
# Task/Join — what `drv_task_join` waits for, and what it signals

A worker only ever goes on to a later phase (`Step.worker`).  Found in its slot by a join, it is
past its start; seen gone from the slot by a task that has the CPU, it has ended (`Past.ended`).
The join reads the slot three times, and only the last read is a wait: between the first two the
worker may leave.
-/

namespace DriverTask

open Machinery

variable {T S : Type} {s s' : State T S} {e : Event T S} {es : List (Event T S)} {t w p : T}
  {i : S} {ph ph' : Phase}

/-! ## Phases go forward -/

/-- **The next phase of a worker**, and the step that takes it there. -/
inductive Goes (w p : T) (i : S) : Event T S → Phase → Phase → Prop where
  | publish : Goes w p i (.published w) .starting .published
  | ready : Goes w p i (.ready w p) .published .looping
  | giveUp : Goes w p i (.acted w) .starting (.exiting false)
  | giveUp' : Goes w p i (.acted w) .published (.exiting false)
  | leave : Goes w p i (.acted w) .looping (.exiting true)
  | clear (r : Bool) : Goes w p i (.cleared w i) (.exiting r) (.cleared r)
  | report (r : Bool) : Goes w p i (.exited w p r) (.cleared r) (.signalled r)
  | finish (r : Bool) : Goes w p i (.ended w) (.signalled r) (.ended r)

section Forward

variable [DecidableEq T] [DecidableEq S]

omit [DecidableEq S] in
/-- What a task is does not change with another. -/
theorem setPlace_place_of_ne {q : Place T S} (h : w ≠ t) :
    (s.setPlace t q).place w = s.place w := by
  rw [State.setPlace_place, if_neg h]

omit [DecidableEq S] in
theorem setPlace_place_self {q : Place T S} : (s.setPlace t q).place t = q := by
  rw [State.setPlace_place, if_pos rfl]

omit [DecidableEq S] in
/-- A task at another line is at its own, if it is another task. -/
theorem go_line_of_ne {line : Line T S} (h : w ≠ t) : (s.go t line).line w = s.line w := by
  rw [State.go_line, if_neg h]

omit [DecidableEq S] in
theorem go_line_self {line : Line T S} : (s.go t line).line t = line := by
  rw [State.go_line, if_pos rfl]

/-- **A worker stays where it is, or goes on to its next phase.** -/
theorem Step.worker (hs : Step s e s') (hw : s.place w = .worker p i ph) :
    s'.place w = .worker p i ph ∨ ∃ ph', s'.place w = .worker p i ph' ∧ Goes w p i e ph ph' := by
  have hself : ∀ {w' p' j ph₁ ph₂} {s₁ : State T S}, s.place w' = .worker p' j ph₁ →
      s₁.place = s.place → Goes w' p' j e ph₁ ph₂ →
      (s₁.setPlace w' (.worker p' j ph₂)).place w = .worker p i ph
        ∨ ∃ ph', (s₁.setPlace w' (.worker p' j ph₂)).place w = .worker p i ph'
          ∧ Goes w p i e ph ph' := by
    intro w' p' j ph₁ ph₂ s₁ hq hs₁ hgoes
    by_cases heq : w = w'
    · subst heq
      obtain ⟨rfl, rfl, rfl⟩ := Place.worker.inj (hw.symm.trans hq)
      exact Or.inr ⟨ph₂, setPlace_place_self, hgoes⟩
    · exact Or.inl (by rw [setPlace_place_of_ne heq, hs₁, hw])
  cases hs with
  | signal t w' j haveTimer task hr hq =>
    exact Or.inl ((congrFun (State.stop_place s task) w).trans hw)
  | addTask t w' j hr hq hw' hi =>
    have hne : w ≠ w' := by
      rintro rfl
      cases hw.symm.trans hw'
    exact Or.inl ((setPlace_place_of_ne hne).trans hw)
  | publish w' p' j hr hl hq => exact hself hq rfl .publish
  | ready w' p' j hr hl hq => exact hself hq (State.report_place ..) .ready
  | giveUp w' p' j hr hl hq =>
    rcases hq with hq | hq
    · exact hself hq rfl .giveUp
    · exact hself hq rfl .giveUp'
  | leave w' p' j hr hl hq => exact hself hq rfl .leave
  | clearSlot w' p' j r hr hq => exact hself hq rfl (.clear r)
  | report w' p' j r hr hq => exact hself hq (State.report_place ..) (.report r)
  | finish w' p' j r hr hq => exact hself hq rfl (.finish r)
  | _ => exact Or.inl hw

/-- **A worker has been one before**, unless it has just been added. -/
theorem Step.worker_before (hs : Step s e s') (hw : s'.place w = .worker p i ph) :
    (∃ ph₀, s.place w = .worker p i ph₀)
      ∨ (s.place w = .unborn ∧ ph = .starting ∧ s'.line p = .await w) := by
  have hself : ∀ {w' p' j ph₁ ph₂} {s₁ : State T S}, s.place w' = .worker p' j ph₁ →
      s₁.place = s.place → (s₁.setPlace w' (.worker p' j ph₂)).place w = .worker p i ph →
      ∃ ph₀, s.place w = .worker p i ph₀ := by
    intro w' p' j ph₁ ph₂ s₁ hq hs₁ hw
    rw [State.setPlace_place] at hw
    split at hw
    · rename_i heq
      obtain ⟨rfl, rfl, rfl⟩ := Place.worker.inj hw
      exact ⟨ph₁, by rw [heq, hq]⟩
    · exact ⟨ph, by rw [← hs₁, hw]⟩
  cases hs with
  | signal t w' j haveTimer task hr hq =>
    exact Or.inl ⟨ph, (congrFun (State.stop_place s task) w).symm.trans hw⟩
  | addTask t w' j hr hq hw' hi =>
    rw [State.go_place, State.setPlace_place] at hw
    split at hw
    · rename_i heq
      obtain ⟨rfl, rfl, rfl⟩ := Place.worker.inj hw
      exact Or.inr ⟨by rw [heq, hw'], rfl, by rw [State.go_line, if_pos rfl, heq]⟩
    · exact Or.inl ⟨ph, hw⟩
  | publish w' p' j hr hl hq | leave w' p' j hr hl hq => exact Or.inl (hself hq rfl hw)
  | ready w' p' j hr hl hq => exact Or.inl (hself hq (State.report_place ..) hw)
  | giveUp w' p' j hr hl hq =>
    rcases hq with hq | hq
    · exact Or.inl (hself hq rfl hw)
    · exact Or.inl (hself hq rfl hw)
  | clearSlot w' p' j r hr hq | finish w' p' j r hr hq => exact Or.inl (hself hq rfl hw)
  | report w' p' j r hr hq => exact Or.inl (hself hq (State.report_place ..) hw)
  | _ => exact Or.inl ⟨ph, hw⟩

/-- **A worker that has published itself in this slot**, or gone past that. -/
def Past (s : State T S) (w : T) (i : S) : Prop :=
  ∃ p ph, s.place w = .worker p i ph ∧ ph ≠ .starting

/-- **A worker that has ended.** -/
def Ended (s : State T S) (w : T) : Prop := ∃ p i r, s.place w = .worker p i (.ended r)

omit [DecidableEq T] [DecidableEq S] in
theorem Past.of_slot (h : Inv s) (hi : s.slot i = some w) : Past s w i := by
  obtain ⟨p, ph, hp, hhold⟩ := h.holder i w hi
  refine ⟨p, ph, hp, ?_⟩
  rintro rfl
  cases hhold

theorem Past.next (h : Past s w i) (hs : Step s e s') : Past s' w i := by
  obtain ⟨p, ph, hp, hne⟩ := h
  rcases hs.worker hp with hp' | ⟨ph', hp', hgoes⟩
  · exact ⟨p, ph, hp', hne⟩
  · refine ⟨p, ph', hp', ?_⟩
    rintro rfl
    cases hgoes

theorem Ended.next (h : Ended s w) (hs : Step s e s') : Ended s' w := by
  obtain ⟨p, i, r, hp⟩ := h
  rcases hs.worker hp with hp' | ⟨ph', hp', hgoes⟩
  · exact ⟨p, i, r, hp'⟩
  · cases hgoes

omit [DecidableEq T] [DecidableEq S] in
/-- **Whoever finds the slot of a worker empty finds the worker ended**, unless it is the worker
itself on its way out. -/
theorem Past.ended (h : Past s w i) (hinv : Inv s)
    (hrun : s.running = w → (s.line w).busy = true) (hi : s.slot i = none) :
    ∃ p r, s.place w = .worker p i (.ended r) := by
  obtain ⟨p, ph, hp, hne⟩ := h
  cases ph with
  | starting => exact absurd rfl hne
  | published | looping => cases hi.symm.trans (hinv.inSlot w p i _ hp rfl)
  | exiting r | cleared r | signalled r =>
    cases hinv.leaving_of_busy (hrun (hinv.cpu w p i _ hp rfl).1) hp
  | ended r => exact ⟨p, r, hp⟩

/-- **A worker that has ended signals nobody.** -/
theorem Ended.not_signals (h : Ended s w) (hinv : Inv s) (hs : Step s e s') (t : T) :
    ¬ Event.signals w t e := by
  obtain ⟨p, i, r, hp⟩ := h
  intro hsig
  cases hs with
  | ready w' p' j hr hl hq =>
    obtain ⟨rfl, -⟩ := hsig
    cases hp.symm.trans hq
  | report w' p' j r' hr hq =>
    obtain ⟨rfl, -⟩ := hsig
    cases hp.symm.trans hq
  | signal t' w' j haveTimer task hr hq =>
    obtain ⟨rfl, -⟩ := hsig
    have hown := hinv.own t' (by rw [hq]; rfl)
    rw [hp] at hown
    cases hown
  | _ => exact hsig

/-- Whoever acts has the CPU. -/
theorem Step.running_of_actor (hs : Step s e s') (h : e.actor = some t) : s.running = t := by
  cases hs with
  | dispatch t' hd ht => cases h
  | _ =>
    obtain rfl := Option.some.inj h
    assumption

/-! ## What has happened to a worker -/

/-- Whether a worker's report lies behind it. -/
def Phase.reported : Phase → Option Bool
  | .signalled r | .ended r => some r
  | _ => none

/-- **A worker past its report has made it.** -/
theorem reported (h : History Start Step es s) :
    ∀ w p i ph r, s.place w = .worker p i ph → ph.reported = some r → .exited w p r ∈ es := by
  refine h.invariant (fun es s => ∀ w p i ph r, s.place w = .worker p i ph → ph.reported = some r →
    .exited w p r ∈ es) (fun s h w p i ph r hw => ?_) ?_
  · rcases h.place w with hn | hn <;> cases hn.symm.trans hw
  intro es s e s' ih hs w p i ph r hw hr
  rcases hs.worker_before hw with ⟨ph₀, hw₀⟩ | ⟨-, rfl, -⟩
  · rcases hs.worker hw₀ with hw' | ⟨ph', hw', hgoes⟩
    · obtain ⟨-, -, rfl⟩ := Place.worker.inj (hw.symm.trans hw')
      exact List.mem_cons_of_mem e (ih w p i ph r hw₀ hr)
    · obtain ⟨-, -, rfl⟩ := Place.worker.inj (hw.symm.trans hw')
      cases hgoes with
      | report r' =>
        obtain rfl := Option.some.inj hr
        exact List.mem_cons_self
      | finish r' => exact List.mem_cons_of_mem _ (ih w p i _ r hw₀ hr)
      | _ => cases hr
  · cases hr

/-- **A worker that has published itself** is past its start. -/
theorem past_of_published (h : History Start Step es s) :
    ∀ w, .published w ∈ es → ∃ i, Past s w i := by
  refine h.invariant (fun es s => ∀ w, .published w ∈ es → ∃ i, Past s w i)
    (fun s _ w hmem => by cases hmem) ?_
  intro es s e s' ih hs w hmem
  rcases List.mem_cons.mp hmem with rfl | hmem
  · cases hs with
    | publish w p i hr hl hq =>
      exact ⟨i, p, .published, setPlace_place_self, Phase.noConfusion⟩
  · obtain ⟨i, hpast⟩ := ih w hmem
    exact ⟨i, hpast.next hs⟩

/-! ## A task that does not act -/

omit [DecidableEq S] in
theorem report_sig_of_ne (s : State T S) {t p : T} (b : Bool) (h : t ≠ p) :
    (s.report p b).sigC t = s.sigC t ∧ (s.report p b).sigF t = s.sigF t := by
  rw [State.report]
  split
  · exact ⟨rfl, Function.update_of_ne h _ _⟩
  · exact ⟨Function.update_of_ne h _ _, rfl⟩

/-- **A task that does not act** stays at its line, and its two signals as they are, unless somebody
signals it. -/
theorem Step.bystander (hs : Step s e s') (hact : e.actor ≠ some t) :
    s'.line t = s.line t
      ∧ ((∀ w, ¬ Event.signals w t e) → s'.sigC t = s.sigC t ∧ s'.sigF t = s.sigF t) := by
  have hne : ∀ {t'}, some t' ≠ some t → t ≠ t' := fun h heq => h (congrArg some heq.symm)
  have hclear : ∀ {t'}, t ≠ t' → (s.clearSignals t').sigC t = s.sigC t
      ∧ (s.clearSignals t').sigF t = s.sigF t := fun h =>
    ⟨Function.update_of_ne h _ _, Function.update_of_ne h _ _⟩
  cases hs with
  | dispatch t' hd ht | nesting t' b hr ho | allocFail t' hr ho | joinNone t' j hr ho hi
  | pollHot t' w' j paceMs hr hq hi => exact ⟨rfl, fun _ => ⟨rfl, rfl⟩⟩
  | ownWait t' hr ho => exact ⟨rfl, fun _ => hclear (hne hact)⟩
  | alloc t' j hr ho | addTaskFail t' j hr hq | join t' w' j hr ho hi
  | «open» t' w' j haveTimer hr hq | load t' w' j haveTimer hr hq
  | pollSleep t' w' j paceMs hr hq hi | sleep t' w' j paceMs hr hq
  | pollDone t' w' j haveTimer paceMs hr hq hi | close t' w' j hr hq
  | addTask t' w' j hr hq hw' hi =>
    exact ⟨go_line_of_ne (hne hact), fun _ => ⟨rfl, rfl⟩⟩
  | clearBits t' j hr hq | await t' w' hr hq hsig | clear t' w' j hr hq =>
    exact ⟨go_line_of_ne (hne hact), fun _ => hclear (hne hact)⟩
  | signal t' w' j haveTimer task hr hq =>
    refine ⟨(go_line_of_ne (hne hact)).trans (by rw [State.stop_line]), fun hno => ?_⟩
    cases task with
    | none => exact ⟨rfl, rfl⟩
    | some v =>
      have htv : t ≠ v := fun heq => hno t' ⟨rfl, congrArg some heq.symm⟩
      exact ⟨Function.update_of_ne htv _ _, rfl⟩
  | publish w' p' j hr hl hq | leave w' p' j hr hl hq | giveUp w' p' j hr hl hq
  | clearSlot w' p' j r hr hq | finish w' p' j r hr hq => exact ⟨rfl, fun _ => ⟨rfl, rfl⟩⟩
  | ready w' p' j hr hl hq =>
    refine ⟨congrFun (State.report_line s p' true) t, fun hno => ?_⟩
    exact report_sig_of_ne s true fun heq => hno w' ⟨rfl, heq.symm⟩
  | report w' p' j r hr hq =>
    refine ⟨congrFun (State.report_line s p' r) t, fun hno => ?_⟩
    exact report_sig_of_ne s r fun heq => hno w' ⟨rfl, heq.symm⟩

/-! ## The join -/

/-- The slot a join is about, and whom it found there. -/
def Line.joins : Line T S → Option (S × T)
  | .open i w | .signal i w _ | .signalling i w _ _ | .poll i w _ _ | .sleep i w _ | .clear i w
  | .close i w => some (i, w)
  | _ => none

/-- Past the last read of the slot. -/
def Line.seen : Line T S → Bool
  | .clear _ _ | .close _ _ => true
  | _ => false

def Line.closing : Line T S → Bool
  | .close _ _ => true
  | _ => false

omit [DecidableEq T] [DecidableEq S] in
theorem Line.busy_of_joins {line : Line T S} (h : line.joins = some (i, w)) : line.busy = true := by
  cases line with
  | idle => cases h
  | _ => rfl

/-- **A join under way**: its worker has been in the slot; once the slot was seen empty it has
ended; and behind `SetSignal` the two signals are clear. -/
structure Joining (s : State T S) (t : T) (i : S) (w : T) (line : Line T S) : Prop where
  stands : s.line t = line
  joins : line.joins = some (i, w)
  past : Past s w i
  ended : line.seen = true → Ended s w
  clear : line.closing = true → s.sigC t = false ∧ s.sigF t = false

/-- **A join goes on until it returns**, if nobody but its worker signals it. -/
theorem Joining.next {line : Line T S} (h : Joining s t i w line) (hinv : Inv s)
    (hs : Step s e s') (hsig : ∀ w', w' ≠ w → ¬ Event.signals w' t e) :
    (∃ line', Joining s' t i w line') ∨ e = .joined t i w := by
  have hpast := h.past.next hs
  by_cases hend : e = .joined t i w
  · exact Or.inr hend
  left
  by_cases hact : e.actor = some t
  · have hq := h.stands
    have hj := h.joins
    have hbusy : s.running = w → (s.line w).busy = true := by
      intro heq
      obtain rfl : w = t := heq.symm.trans (hs.running_of_actor hact)
      rw [hq]
      exact Line.busy_of_joins hj
    have hown : ∀ {p j ph}, s.place t = .worker p j ph → ph.leaving ≠ true := fun hp hl => by
      have hb : (s.line t).busy = true := by
        rw [hq]
        exact Line.busy_of_joins hj
      cases (hinv.leaving_of_busy hb hp).symm.trans hl
    cases hs with
    | dispatch t' hd ht => cases hact
    | nesting t' b hr ho | ownWait t' hr ho | allocFail t' hr ho | joinNone t' j hr ho hi
    | alloc t' j hr ho | join t' w' j hr ho hi =>
      obtain rfl := Option.some.inj hact
      obtain rfl := hq.symm.trans ho.1
      cases hj
    | clearBits t' j hr hq' | addTaskFail t' j hr hq' | await t' w' hr hq' hs'
    | addTask t' w' j hr hq' hw' hi =>
      obtain rfl := Option.some.inj hact
      obtain rfl := hq.symm.trans hq'
      cases hj
    | publish w' p j hr hl hq' | ready w' p j hr hl hq' | leave w' p j hr hl hq'
    | giveUp w' p j hr hl hq' =>
      obtain rfl := Option.some.inj hact
      obtain rfl := hq.symm.trans hl
      cases hj
    | clearSlot w' p j r hr hq' | report w' p j r hr hq' | finish w' p j r hr hq' =>
      obtain rfl := Option.some.inj hact
      exact absurd rfl (hown hq')
    | pollHot t' w' j paceMs hr hq' hi => exact ⟨line, h⟩
    | «open» t' w' j haveTimer hr hq' | load t' w' j haveTimer hr hq'
    | signal t' w' j haveTimer task hr hq' | pollSleep t' w' j paceMs hr hq' hi
    | sleep t' w' j paceMs hr hq' =>
      obtain rfl := Option.some.inj hact
      obtain rfl := hq.symm.trans hq'
      exact ⟨_, go_line_self, hj, hpast, (fun hl => by cases hl), (fun hl => by cases hl)⟩
    | pollDone t' w' j haveTimer paceMs hr hq' hi =>
      obtain rfl := Option.some.inj hact
      obtain rfl := hq.symm.trans hq'
      obtain ⟨rfl, rfl⟩ := Prod.mk.inj (Option.some.inj hj)
      obtain ⟨p, r, hgone⟩ := h.past.ended hinv hbusy hi
      exact ⟨_, go_line_self, rfl, hpast, fun _ => ⟨p, j, r, hgone⟩, (fun hl => by cases hl)⟩
    | clear t' w' j hr hq' =>
      obtain rfl := Option.some.inj hact
      obtain rfl := hq.symm.trans hq'
      exact ⟨_, go_line_self, hj, hpast, fun _ => h.ended rfl,
        fun _ => ⟨Function.update_self .., Function.update_self ..⟩⟩
    | close t' w' j hr hq' =>
      obtain rfl := Option.some.inj hact
      obtain rfl := hq.symm.trans hq'
      obtain ⟨rfl, rfl⟩ := Prod.mk.inj (Option.some.inj hj)
      exact absurd rfl hend
  · obtain ⟨hline, hsame⟩ := hs.bystander hact
    refine ⟨line, hline.trans h.stands, h.joins, hpast, fun hl => (h.ended hl).next hs,
      fun hl => ?_⟩
    have hno : ∀ w', ¬ Event.signals w' t e := by
      intro w'
      by_cases heq : w' = w
      · have hseen : line.seen = true := by
          cases line with
          | close i w => rfl
          | _ => cases hl
        rw [heq]
        exact (h.ended hseen).not_signals hinv hs t
      · exact hsig w' heq
    rw [(hsame hno).1, (hsame hno).2]
    exact h.clear hl

/-- What holds behind the last line of a join. -/
theorem Joining.returned {line : Line T S} (h : Joining s t i w line)
    (hs : Step s (.joined t i w) s') : s'.sigC t = false ∧ s'.sigF t = false ∧ Ended s' w := by
  have hs' := hs
  cases hs with
  | close t w i hr hq =>
    obtain rfl := h.stands.symm.trans hq
    exact ⟨(h.clear rfl).1, (h.clear rfl).2, (h.ended rfl).next hs'⟩

/-- **A joined worker is really gone**: whoever has the CPU and finds the slot of a worker that had
published itself empty, finds the worker ended and its report made; and when a join that found a
worker returns, and nobody else has signalled its task meanwhile, both signals are clear and none
can come from that worker any more. -/
theorem joined_worker_is_gone (h : History Start Step es s) :
    (∀ w p i ph, .published w ∈ es → s.place w = .worker p i ph → s.running ≠ w → s.slot i = none →
      ∃ r, ph = .ended r ∧ .exited w p r ∈ es)
    ∧ ∀ t i w s₁, Step s (.joinCalled t i w) s₁ → ∀ es' s₂ s₃,
      History (· = s₁) (Restrict (fun _ e => ∀ w', w' ≠ w → ¬ Event.signals w' t e) Step) es' s₂ →
      .joined t i w ∉ es' → Step s₂ (.joined t i w) s₃ →
      s₃.sigC t = false ∧ s₃.sigF t = false
        ∧ ∀ es'' s₄ e s₅, History (· = s₃) Step es'' s₄ → Step s₄ e s₅ → ¬ Event.signals w t e := by
  have hinv := Inv.of_history h
  refine ⟨fun w p i ph hpub hw hrun hi => ?_, fun t i w s₁ hcall es' s₂ s₃ hjoin hno hret => ?_⟩
  · obtain ⟨j, p', ph', hw', hne⟩ := past_of_published h w hpub
    obtain ⟨rfl, rfl, rfl⟩ := Place.worker.inj (hw'.symm.trans hw)
    obtain ⟨p₁, r, hend⟩ := Past.ended ⟨p', ph', hw', hne⟩ hinv (absurd · hrun) hi
    obtain ⟨-, -, rfl⟩ := Place.worker.inj (hw'.symm.trans hend)
    exact ⟨r, rfl, reported h w p' j _ r hw' rfl⟩
  · have hstart : Inv s₁ ∧ ∃ line, Joining s₁ t i w line := by
      refine ⟨hinv.next hcall, ?_⟩
      have hcall' := hcall
      cases hcall with
      | join t w i hr hq hi =>
        exact ⟨.open i w, go_line_self, rfl, (Past.of_slot hinv hi).next hcall',
          (fun hl => by cases hl), (fun hl => by cases hl)⟩
    have hkeep : .joined t i w ∉ es' → Inv s₂ ∧ ∃ line, Joining s₂ t i w line := by
      refine hjoin.invariant (fun es s => .joined t i w ∉ es → Inv s ∧ ∃ line, Joining s t i w line)
        (fun s hs _ => by rw [hs]; exact hstart) ?_
      rintro es s e s' ih ⟨hsig, hs⟩ hno
      obtain ⟨hinv, line, hj⟩ := ih fun hmem => hno (List.mem_cons_of_mem e hmem)
      refine ⟨hinv.next hs, (hj.next hinv hs hsig).resolve_right ?_⟩
      rintro rfl
      exact hno List.mem_cons_self
    obtain ⟨-, line, hj⟩ := hkeep hno
    obtain ⟨hC, hF, hend⟩ := hj.returned hret
    refine ⟨hC, hF, fun es'' s₄ e s₅ hlater hs => ?_⟩
    have hinv₃ : Inv s₃ := (hkeep hno).1.next hret
    have hlast : Inv s₄ ∧ Ended s₄ w := hlater.invariant (fun _ s => Inv s ∧ Ended s w)
      (fun s hs => by rw [hs]; exact ⟨hinv₃, hend⟩)
      fun _ _ _ _ ⟨hinv, hend⟩ hs => ⟨hinv.next hs, hend.next hs⟩
    exact hlast.2.not_signals hlast.1 hs t

/-- A worker spawned and joined, which leaves while the join sleeps. -/
theorem joined_worker_is_gone_run :
    ∃ (es es' : List (Event Bool Unit)) (s s₁ s₂ s₃ : State Bool Unit),
      History Start Step es s ∧ Step s (.joinCalled false () true) s₁
      ∧ History (· = s₁) Step es' s₂ ∧ Step s₂ (.joined false () true) s₃
      ∧ s₂.running = false ∧ s₂.slot () = none
      ∧ (∃ r, s₂.place true = .worker false () (.ended r)
        ∧ .exited true false r ∈ es' ++ .joinCalled false () true :: es)
      ∧ s₃.sigC false = false ∧ s₃.sigF false = false
      ∧ ∀ es'' s₄ e s₅, History (· = s₃) Step es'' s₄ → Step s₄ e s₅ →
        ¬ Event.signals true false e := by
  let s₀ : State Bool Unit := ⟨false, fun _ => false, fun _ => false, fun _ => false, fun _ => none,
    fun _ => .idle, fun t => if t then .unborn else .client⟩
  have hquiet : ∀ {e : Event Bool Unit}, (∀ w', Event.signals w' false e → w' = true) →
      ∀ w', w' ≠ true → ¬ Event.signals w' false e := fun h w' hne hsig => hne (h w' hsig)
  have h₀ : History Start Step [] s₀ :=
    .start ⟨fun t => by cases t <;> simp [s₀], rfl, fun _ => rfl, fun _ => rfl⟩
  have h₁ := ((h₀.next (.alloc false () rfl ⟨rfl, rfl⟩)).next (.clearBits false () rfl rfl)).next
    (.addTask false true () rfl rfl rfl fun w' p ph hw => by cases w' <;> cases hw)
  have h₂ := ((h₁.next (.dispatch true (.inl rfl) rfl)).next
    (.publish true false () rfl rfl rfl)).next (.ready true false () rfl rfl rfl)
  have h₃ := (h₂.next (.dispatch false (.inl rfl) rfl)).next
    (.await false true rfl rfl (.inr rfl))
  have hnone : ∀ {w'}, Event.signals w' false (.stopped (S := Unit) false (some true)) →
      w' = true := fun h => absurd (Option.some.inj h.2) Bool.noConfusion
  have hown : ∀ {w' r}, Event.signals w' false (.exited (S := Unit) true false r) → w' = true :=
    fun h => h.1.symm
  obtain ⟨es, s, s₁, es', s₂, s₃, h, hcall, hrun, hret, hpub, hno, hcpu, hslot, hplace⟩ :
      ∃ (es : List (Event Bool Unit)) (s s₁ : State Bool Unit) (es' : List (Event Bool Unit))
        (s₂ s₃ : State Bool Unit), History Start Step es s ∧ Step s (.joinCalled false () true) s₁
        ∧ History (· = s₁) (Restrict (fun _ e => ∀ w', w' ≠ true → ¬ Event.signals w' false e) Step)
          es' s₂
        ∧ Step s₂ (.joined false () true) s₃ ∧ .published true ∈ es ∧ .joined false () true ∉ es'
        ∧ s₂.running = false ∧ s₂.slot () = none
        ∧ s₂.place true = .worker false () (.ended true) := by
    refine ⟨_, _, _, _, _, _, h₃, .join false true () rfl ⟨rfl, rfl⟩ rfl,
      .next (.next (.next (.next (.next (.next (.next (.next (.next (.next (.next (.next (.next
        (.start rfl)
        ⟨hquiet fun _ => False.elim, .open false true () true rfl rfl⟩)
        ⟨hquiet fun _ => False.elim, .load false true () true rfl rfl⟩)
        ⟨hquiet fun _ => hnone, .signal false true () true (some true) rfl rfl⟩)
        ⟨hquiet fun _ => False.elim, .pollSleep false true () 1 rfl rfl (Option.some_ne_none _)⟩)
        ⟨hquiet fun _ => False.elim, .dispatch true (.inl rfl) rfl⟩)
        ⟨hquiet fun _ => False.elim, .leave true false () rfl rfl rfl⟩)
        ⟨hquiet fun _ => False.elim, .clearSlot true false () true rfl rfl⟩)
        ⟨hquiet fun _ => hown, .report true false () true rfl rfl⟩)
        ⟨hquiet fun _ => False.elim, .finish true false () true rfl rfl⟩)
        ⟨hquiet fun _ => False.elim, .dispatch false (.inl rfl) rfl⟩)
        ⟨hquiet fun _ => False.elim, .sleep false true () 1 rfl rfl⟩)
        ⟨hquiet fun _ => False.elim, .pollDone false true () true 2 rfl rfl rfl⟩)
        ⟨hquiet fun _ => False.elim, .clear false true () rfl rfl⟩,
      .close false true () rfl rfl, ?_, ?_, rfl, rfl, rfl⟩
    · simp
    · simp
  obtain ⟨hC, hF, hlast⟩ := (joined_worker_is_gone h).2 false () true _ hcall _ _ _ hrun hno hret
  have hfull := (h.next hcall).append hrun.of_restrict
  obtain ⟨r, hr, hex⟩ := (joined_worker_is_gone hfull).1 true false () _
    (List.mem_append_right _ (List.mem_cons_of_mem _ hpub)) hplace
    (by rw [hcpu]; exact Bool.false_ne_true) hslot
  exact ⟨es, es', s, s₁, s₂, s₃, h, hcall, hrun.of_restrict, hret, hcpu, hslot,
    ⟨r, hplace.trans (congrArg _ hr), hex⟩, hC, hF, hlast⟩

/-! ## The signal -/

/-- Between a join's test of the slot and its `Signal`. -/
def Line.testing : Line T S → Option (S × T)
  | .open i w | .signal i w _ | .signalling i w _ _ => some (i, w)
  | _ => none

/-- **No slot is cleared between a join's test and its `Signal`.** -/
def Calm (s : State T S) (e : Event T S) : Prop :=
  ∀ w i, e = .cleared w i → ∀ t v, (s.line t).testing ≠ some (i, v)

/-- **Whom a join found is still in the slot**, and is whom it loads. -/
structure Held (s : State T S) : Prop where
  slot : ∀ t i w, (s.line t).testing = some (i, w) → s.slot i = some w
  loaded : ∀ t i w b task, s.line t = .signalling i w b task → task = some w

namespace Held

omit [DecidableEq T] [DecidableEq S] in
theorem of_start (h : Start s) : Held s := by
  refine ⟨fun t i w ht => ?_, fun t i w b task hq => ?_⟩
  · rw [h.line t] at ht
    cases ht
  · cases (h.line t).symm.trans hq

omit [DecidableEq T] [DecidableEq S] in
/-- The slots that matter are kept, and what a task newly relies on is there. -/
theorem of_line (h : Held s)
    (hslot : ∀ t i w, (s.line t).testing = some (i, w) → s.slot i = some w → s'.slot i = some w)
    (hline : ∀ t, s'.line t = s.line t
      ∨ ((∀ i w, (s'.line t).testing = some (i, w) → s'.slot i = some w)
        ∧ ∀ i w b task, s'.line t = .signalling i w b task → task = some w)) : Held s' := by
  refine ⟨fun t i w ht => ?_, fun t i w b task hq => ?_⟩
  · rcases hline t with heq | hnew
    · rw [heq] at ht
      exact hslot t i w ht (h.slot t i w ht)
    · exact hnew.1 i w ht
  · rcases hline t with heq | hnew
    · exact h.loaded t i w b task (heq.symm.trans hq)
    · exact hnew.2 i w b task hq

omit [DecidableEq S] in
/-- A task goes on to a line. -/
theorem called {line : Line T S} {s₁ : State T S} (h : Held s) (hline : s₁.line = s.line)
    (hslot : s₁.slot = s.slot) (htest : ∀ i w, line.testing = some (i, w) → s.slot i = some w)
    (hload : ∀ i w b task, line = .signalling i w b task → task = some w) :
    Held (s₁.go t line) := by
  refine h.of_line (fun t' i w _ hi => by rw [State.go_slot, hslot, hi]) fun t' => ?_
  rw [State.go_line]
  split
  · exact Or.inr ⟨fun i w ht => by rw [State.go_slot, hslot, htest i w ht], hload⟩
  · exact Or.inl (by rw [hline])

omit [DecidableEq T] [DecidableEq S] in
/-- A worker goes on, and the slots that are relied on stay. -/
theorem worker (h : Held s) (hline : s'.line = s.line)
    (hslot : ∀ t i w, (s.line t).testing = some (i, w) → s.slot i = some w →
      s'.slot i = some w) : Held s' :=
  h.of_line hslot fun t => Or.inl (by rw [hline])

theorem next (h : Held s) (hinv : Inv s) (hs : Step s e s') (hcalm : Calm s e) : Held s' := by
  cases hs with
  | dispatch t hd ht => exact ⟨h.slot, h.loaded⟩
  | nesting t b hr ho => exact ⟨h.slot, h.loaded⟩
  | ownWait t hr ho => exact ⟨h.slot, h.loaded⟩
  | allocFail t hr ho | joinNone t i hr ho hi | pollHot t w i paceMs hr hq hi => exact h
  | alloc t i hr ho | clearBits t i hr hq | addTaskFail t i hr hq | await t w hr hq hsig
  | pollSleep t w i paceMs hr hq hi | sleep t w i paceMs hr hq | addTask t w i hr hq hw hi
  | pollDone t w i haveTimer paceMs hr hq hi | clear t w i hr hq | close t w i hr hq =>
    exact h.called rfl rfl (fun i w ht => by cases ht) fun i w b task hl => by cases hl
  | signal t w i haveTimer task hr hq =>
    exact h.called (State.stop_line ..) (State.stop_slot ..) (fun i w ht => by cases ht)
      fun i w b task hl => by cases hl
  | join t w i hr ho hi =>
    refine h.called rfl rfl (fun j w' ht => ?_) fun i w b task hl => by cases hl
    obtain ⟨rfl, rfl⟩ := Prod.mk.inj (Option.some.inj ht)
    exact hi
  | «open» t w i haveTimer hr hq =>
    refine h.called rfl rfl (fun j w' ht => h.slot t j w' ?_) fun i w b task hl => by cases hl
    rw [hq]
    exact ht
  | load t w i haveTimer hr hq =>
    have hheld : s.slot i = some w := h.slot t i w (by rw [hq]; rfl)
    refine h.called rfl rfl (fun j w' ht => ?_) fun j w' b task hl => ?_
    · obtain ⟨rfl, rfl⟩ := Prod.mk.inj (Option.some.inj ht)
      exact hheld
    · obtain ⟨rfl, rfl, -, rfl⟩ := Line.signalling.inj hl
      exact hheld
  | publish w p i hr hl hq =>
    refine h.worker rfl fun t j v ht hj => ?_
    have hne : j ≠ i := by
      -- the slot is this worker's, and it is not in it yet
      rintro rfl
      exact hinv.not_in_slot hq rfl rfl v hj
    rw [State.setPlace_slot, State.setSlot_slot, if_neg hne, hj]
  | ready w p i hr hl hq =>
    refine h.worker (State.report_line s p true) fun _ _ _ _ hi => ?_
    rw [State.setPlace_slot, State.report_slot, hi]
  | giveUp w p i hr hl hq | leave w p i hr hl hq | finish w p i r hr hq =>
    exact h.worker rfl fun _ _ _ _ hi => hi
  | clearSlot w p i r hr hq =>
    refine h.worker rfl fun t j v ht hj => ?_
    have hne : j ≠ i := by
      rintro rfl
      exact hcalm w j rfl t v ht
    rw [State.setPlace_slot, State.setSlot_slot, if_neg hne, hj]
  | report w p i r hr hq =>
    refine h.worker (State.report_line s p r) fun _ _ _ _ hi => ?_
    rw [State.setPlace_slot, State.report_slot, hi]

end Held

/-- **`drv_task_join` signals a live task**, in every run in which no slot is cleared between a
join's test of it and its `Signal`: what it passes is a worker that has not ended. -/
theorem join_signals_a_live_task (h : History Start (Restrict Calm Step) es s) :
    ∀ t task s', Step s (.stopped t task) s' →
      ∃ w p i ph, task = some w ∧ s.place w = .worker p i ph ∧ ph.gone = false := by
  obtain ⟨hinv, hheld⟩ := h.invariant (fun _ s => Inv s ∧ Held s)
    (fun s hs => ⟨Inv.of_start hs, Held.of_start hs⟩)
    (fun _ _ _ _ ⟨hinv, hheld⟩ ⟨hcalm, hs⟩ => ⟨hinv.next hs, hheld.next hinv hs hcalm⟩)
  intro t task s' hs
  cases hs with
  | signal t w i haveTimer task hr hq =>
    obtain ⟨p, ph, hw, hhold⟩ := hinv.holder i w (hheld.slot t i w (by rw [hq]; rfl))
    exact ⟨w, p, i, ph, hheld.loaded t i w haveTimer task hq, hw, Phase.gone_of_mayHold hhold⟩

/-- A parent joins a worker that is in its loop. -/
theorem join_signals_a_live_task_looping :
    ∃ (es : List (Event Bool Unit)) (s : State Bool Unit) (task : Option Bool)
      (s' : State Bool Unit),
      History Start (Restrict Calm Step) es s ∧ Step s (.stopped false task) s'
        ∧ ∃ w p i ph, task = some w ∧ s.place w = .worker p i ph ∧ ph.gone = false := by
  let s₀ : State Bool Unit := ⟨false, fun _ => false, fun _ => false, fun _ => false, fun _ => none,
    fun _ => .idle, fun t => if t then .unborn else .client⟩
  have hcalm : ∀ {s : State Bool Unit} {e}, (∀ w i, e ≠ .cleared w i) → Calm s e :=
    fun hne w i heq => absurd heq (hne w i)
  have h₀ : History Start (Restrict Calm Step) [] s₀ :=
    .start ⟨fun t => by cases t <;> simp [s₀], rfl, fun _ => rfl, fun _ => rfl⟩
  have h₁ := ((h₀.next ⟨hcalm (by simp), .alloc false () rfl ⟨rfl, rfl⟩⟩).next
    ⟨hcalm (by simp), .clearBits false () rfl rfl⟩).next
    ⟨hcalm (by simp), .addTask false true () rfl rfl rfl fun w' p ph hw => by cases w' <;> cases hw⟩
  have h₂ := ((h₁.next ⟨hcalm (by simp), .dispatch true (.inl rfl) rfl⟩).next
    ⟨hcalm (by simp), .publish true false () rfl rfl rfl⟩).next
    ⟨hcalm (by simp), .ready true false () rfl rfl rfl⟩
  have h₃ := (h₂.next ⟨hcalm (by simp), .dispatch false (.inl rfl) rfl⟩).next
    ⟨hcalm (by simp), .await false true rfl rfl (.inr rfl)⟩
  have h₄ := ((h₃.next ⟨hcalm (by simp), .join false true () rfl ⟨rfl, rfl⟩ rfl⟩).next
    ⟨hcalm (by simp), .open false true () true rfl rfl⟩).next
    ⟨hcalm (by simp), .load false true () true rfl rfl⟩
  exact ⟨_, _, some true, _, h₄, .signal false true () true (some true) rfl rfl,
    join_signals_a_live_task h₄ false _ _ (.signal false true () true (some true) rfl rfl)⟩

/-- **A worker that leaves of its own accord while its parent opens the timer** has its slot read as
NULL, and signalled. -/
theorem join_signals_null :
    ∃ (es : List (Event Bool Unit)) (s s' : State Bool Unit),
      History Start Step es s ∧ Step s (.stopped false none) s' := by
  let s₀ : State Bool Unit := ⟨false, fun _ => false, fun _ => false, fun _ => false, fun _ => none,
    fun _ => .idle, fun t => if t then .unborn else .client⟩
  have h₀ : History Start Step [] s₀ :=
    .start ⟨fun t => by cases t <;> simp [s₀], rfl, fun _ => rfl, fun _ => rfl⟩
  have h₁ := ((h₀.next (.alloc false () rfl ⟨rfl, rfl⟩)).next (.clearBits false () rfl rfl)).next
    (.addTask false true () rfl rfl rfl fun w' p ph hw => by cases w' <;> cases hw)
  have h₂ := ((h₁.next (.dispatch true (.inl rfl) rfl)).next
    (.publish true false () rfl rfl rfl)).next (.ready true false () rfl rfl rfl)
  have h₃ := ((h₂.next (.dispatch false (.inl rfl) rfl)).next
    (.await false true rfl rfl (.inr rfl))).next (.join false true () rfl ⟨rfl, rfl⟩ rfl)
  have h₄ := (((h₃.next (.dispatch true (.inl rfl) rfl)).next
    (.leave true false () rfl rfl rfl)).next (.clearSlot true false () true rfl rfl)).next
    (.report true false () true rfl rfl)
  have h₅ := ((h₄.next (.finish true false () true rfl rfl)).next
    (.dispatch false (.inl rfl) rfl)).next (.open false true () true rfl rfl)
  have h₆ := h₅.next (.load false true () true rfl rfl)
  exact ⟨_, _, _, h₆, .signal false true () true none rfl rfl⟩

end Forward

end DriverTask
