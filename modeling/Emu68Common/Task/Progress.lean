import Emu68Common.Task.Join

/-!
# Task/Progress — when a join can return

A join waits for the worker in its slot, which needs the CPU to end and which may be in a join of
its own.  A joiner in `Forbid` lets go of the CPU where it waits for its timer; one that got no
timer polls, and never does (`Hot`).  Workers that join each other in a circle all wait for good
(`Knot`).  As long as a join is in neither, it can still return (`join_can_return_iff`): the last
worker it waits for comes to the end of its call and leaves, and so on up to the join itself.

    Hot s t          a task polls in `Forbid` what only another could change, or is about to
    WaitsFor s t v   a task is in a join that the end of this worker would let go on
    Knot s P         tasks each of which waits for one of them
    Plain            the steps that leave `Forbid` to those who are in it
-/

namespace DriverTask

open Machinery

variable {T S : Type} [DecidableEq T] [DecidableEq S] {s s' s₁ : State T S} {e : Event T S}
  {es : List (Event T S)} {t t' u v w p : T} {i j : S} {line : Line T S} {n : ℕ}

/-! ## The CPU -/

/-- A task that is in `Forbid` where it cannot wait. -/
def Pinned (s : State T S) (t : T) : Prop := s.nest t = true ∧ ¬s.MayWait t

/-- **The scheduler**: the CPU is with a task that is there, and with the one that is pinned. -/
structure Sched (s : State T S) : Prop where
  born : s.place s.running ≠ .unborn
  pinned : ∀ t, Pinned s t → s.running = t

omit [DecidableEq T] [DecidableEq S] in
theorem Sched.of_start (h : Start s) : Sched s where
  born := by
    rw [h.running]
    exact fun hp => by cases hp
  pinned t ht := by
    refine absurd ⟨by rw [h.line t]; rfl, fun p i ph hw => ?_⟩ ht.2
    rcases h.place t with hp | hp <;> cases hp.symm.trans hw

/-- Whoever does not act is left alone, but for a task that is new. -/
theorem Step.others (hs : Step s e s') (hne : t ≠ s.running) :
    s'.nest t = s.nest t ∧ s'.line t = s.line t ∧
      (s'.place t = s.place t ∨
        ∃ p i, s.place t = .unborn ∧ s'.place t = .worker p i .starting) := by
  have hline : s'.line t = s.line t :=
    (hs.bystander fun hact => hne (hs.running_of_actor hact).symm).1
  cases hs with
  | signal t' w i b task hr hq =>
    exact ⟨congrFun (State.stop_nest s task) t, hline, .inl (congrFun (State.stop_place s task) t)⟩
  | publish t' p i hr hl hq | clearSlot t' p i r hr hq =>
    subst hr
    exact ⟨rfl, hline, .inl (setPlace_place_of_ne hne)⟩
  | ready t' p i hr hl hq =>
    subst hr
    exact ⟨congrFun (State.report_nest s p true) t, hline,
      .inl ((setPlace_place_of_ne hne).trans (by rw [State.report_place]))⟩
  | report t' p i r hr hq =>
    subst hr
    exact ⟨congrFun (State.report_nest s p r) t, hline,
      .inl ((setPlace_place_of_ne hne).trans (by rw [State.report_place]))⟩
  | nesting t' b hr ho =>
    subst hr
    exact ⟨Function.update_of_ne hne _ _, hline, .inl rfl⟩
  | giveUp t' p i hr hl hq | leave t' p i hr hl hq | finish t' p i r hr hq =>
    subst hr
    exact ⟨Function.update_of_ne hne _ _, hline, .inl (setPlace_place_of_ne hne)⟩
  | addTask t' w i hr hq hw hi =>
    refine ⟨rfl, hline, ?_⟩
    rw [State.go_place, State.setPlace_place]
    split
    · rename_i heq
      exact .inr ⟨t', i, heq ▸ hw, rfl⟩
    · exact .inl rfl
  | _ => exact ⟨rfl, hline, .inl rfl⟩

/-- The CPU stays where it is, or was free and goes to a task that is there. -/
theorem Step.cpu (hs : Step s e s') (hb : s.place s.running ≠ .unborn) :
    s'.place s'.running ≠ .unborn ∧ (s'.running = s.running ∨
      s.Free ∧ s'.nest = s.nest ∧ s'.line = s.line ∧ s'.place = s.place) := by
  have hworker : ∀ {s₁ : State T S} {w p i ph}, s₁.place s.running ≠ .unborn →
      (s₁.setPlace w (.worker p i ph)).place s.running ≠ .unborn := by
    intro s₁ w p i ph hb hp
    rw [State.setPlace_place] at hp
    split at hp
    · cases hp
    · exact hb hp
  cases hs with
  | dispatch t' hd ht =>
    refine ⟨fun hp => ?_, .inr ⟨hd, rfl, rfl, rfl⟩⟩
    rw [show s.place t' = .unborn from hp] at ht
    cases ht
  | signal t' w i b task hr hq =>
    have hrun : (s.stop task).running = s.running := State.stop_running s task
    refine ⟨?_, .inl hrun⟩
    rw [State.go_place, State.go_running, hrun, State.stop_place]
    exact hb
  | ready t' p i hr hl hq =>
    have hrun : (s.report p true).running = s.running := State.report_running s p true
    refine ⟨?_, .inl hrun⟩
    rw [State.setPlace_running, hrun]
    exact hworker (by rw [State.report_place]; exact hb)
  | report t' p i r hr hq =>
    have hrun : (s.report p r).running = s.running := State.report_running s p r
    refine ⟨?_, .inl hrun⟩
    rw [State.setPlace_running, hrun]
    exact hworker (by rw [State.report_place]; exact hb)
  | addTask t' w i hr hq hw hi | publish t' p i hr hl hq | giveUp t' p i hr hl hq
  | leave t' p i hr hl hq | clearSlot t' p i r hr hq | finish t' p i r hr hq =>
    exact ⟨hworker hb, .inl rfl⟩
  | _ => exact ⟨hb, .inl rfl⟩

theorem Sched.next (h : Sched s) (hs : Step s e s') : Sched s' := by
  obtain ⟨hborn, hcpu⟩ := hs.cpu h.born
  refine ⟨hborn, fun t ⟨hnest, hwait⟩ => ?_⟩
  by_cases hne : t = s.running
  · subst hne
    rcases hcpu with hrun | ⟨hfree, hnest', hline', hplace'⟩
    · exact hrun
    · -- it was free, so the one that had it was not pinned
      rw [hnest'] at hnest
      rw [State.MayWait, hline', hplace'] at hwait
      rcases hfree with hfree | hfree
      · cases hfree.symm.trans hnest
      · exact absurd hfree hwait
  · obtain ⟨hnest', hline', hplace'⟩ := hs.others hne
    rw [hnest'] at hnest
    refine absurd (h.pinned t ⟨hnest, fun hmay => hwait ?_⟩).symm hne
    refine ⟨by rw [hline']; exact hmay.1, fun p i ph hp => ?_⟩
    rcases hplace' with hplace' | ⟨p', i', -, hplace'⟩
    · exact hmay.2 p i ph (hplace'.symm.trans hp)
    · obtain ⟨-, -, rfl⟩ := Place.worker.inj (hplace'.symm.trans hp)
      rfl

theorem Sched.of_history (h : History Start Step es s) : Sched s :=
  h.invariant (fun _ s => Sched s) (fun _ => Sched.of_start) fun _ _ _ _ h hs => h.next hs

/-! ## Polling in `Forbid` -/

/-- The lines of a join without a timer that come to the poll. -/
def Line.hot : Line T S → Option S
  | .signal i _ false | .signalling i _ false _ | .poll i _ false _ => some i
  | _ => none

/-- **A task polls in `Forbid`**, or is about to, for a slot that only another can empty. -/
def Hot (s : State T S) (t : T) : Prop :=
  s.running = t ∧ s.nest t = true ∧ ∃ i, (s.line t).hot = some i ∧ s.slot i ≠ none

omit [DecidableEq T] [DecidableEq S] in
theorem Line.mayWait_of_hot (h : line.hot = some i) : line.mayWait = false ∧ line.busy = true := by
  cases line with
  | signal i w b | signalling i w b task | poll i w b paceMs => exact ⟨rfl, rfl⟩
  | _ => cases h

/-- **It does so for good**, and nobody's join returns. -/
theorem Hot.next (h : Hot s t) (hinv : Inv s) (hs : Step s e s') :
    Hot s' t ∧ ∀ t' i w, e ≠ .joined t' i w := by
  obtain ⟨rfl, hnest, i, hline, hslot⟩ := h
  obtain ⟨hwait, hbusy⟩ := Line.mayWait_of_hot hline
  -- the task that acts is this one, and on no other line
  have hon : ∀ {t' line'}, s.running = t' → s.line t' = line' → line'.hot = some i := by
    rintro t' line' rfl hq
    rw [← hq, hline]
  have hoff : ∀ {t' p' i' ph}, s.running = t' → s.place t' = .worker p' i' ph →
      ph.leaving = false := by
    rintro t' p' i' ph rfl hq
    exact hinv.leaving_of_busy hbusy hq
  cases hs with
  | dispatch t' hd ht =>
    rcases hd with hd | hd
    · cases hd.symm.trans hnest
    · cases hwait.symm.trans hd.1
  | nesting t' b hr ho | ownWait t' hr ho | allocFail t' hr ho | alloc t' j hr ho
  | joinNone t' j hr ho hi | join t' w j hr ho hi => cases hon hr ho.1
  | clearBits t' j hr hq | addTaskFail t' j hr hq | addTask t' w j hr hq hw hi
  | await t' w hr hq hsig | «open» t' w j b hr hq | pollSleep t' w j paceMs hr hq hi
  | sleep t' w j paceMs hr hq | clear t' w j hr hq | close t' w j hr hq => cases hon hr hq
  | publish w p j hr hl hq | ready w p j hr hl hq | leave w p j hr hl hq
  | giveUp w p j hr hl hq => cases hon hr hl
  | clearSlot w p j r hr hq | report w p j r hr hq | finish w p j r hr hq => cases hoff hr hq
  | load t' w j b hr hq =>
    have hb := hon hr hq
    subst hr
    cases b with
    | true => cases hb
    | false => exact ⟨⟨rfl, hnest, i, by rw [go_line_self]; exact hb, hslot⟩, by simp⟩
  | signal t' w j b task hr hq =>
    have hb := hon hr hq
    subst hr
    cases b with
    | true => cases hb
    | false =>
      refine ⟨⟨State.stop_running s task, ?_, i, by rw [go_line_self]; exact hb, ?_⟩, by simp⟩
      · exact (congrFun (State.stop_nest s task) _).trans hnest
      · rwa [State.go_slot, State.stop_slot]
  | pollHot t' w j paceMs hr hq hi => exact ⟨⟨rfl, hnest, i, hline, hslot⟩, by simp⟩
  | pollDone t' w j b paceMs hr hq hi =>
    have hb := hon hr hq
    cases b with
    | true => cases hb
    | false =>
      obtain rfl := Option.some.inj hb
      exact absurd hi hslot

/-! ## Waiting for each other -/

/-- The slot that a join waits to be empty. -/
def Line.waits : Line T S → Option S
  | .open i _ | .signal i _ _ | .signalling i _ _ _ | .poll i _ _ _ | .sleep i _ _ => some i
  | _ => none

/-- **A task is in a join that waits for this worker.** -/
def WaitsFor (s : State T S) (t v : T) : Prop := ∃ i, (s.line t).waits = some i ∧ s.slot i = some v

/-- **Tasks each of which waits for one of them.** -/
def Knot (s : State T S) (P : T → Prop) : Prop := ∀ v, P v → ∃ v', P v' ∧ WaitsFor s v v'

omit [DecidableEq T] [DecidableEq S] in
theorem Line.busy_of_waits (h : line.waits = some i) : line.busy = true := by
  cases line with
  | idle => cases h
  | _ => rfl

/-- **A join waits on** while its slot is taken. -/
theorem Step.waits (hs : Step s e s') (hinv : Inv s) (hl : (s.line v).waits = some i)
    (hi : s.slot i ≠ none) : (s'.line v).waits = some i ∧ ∀ j w, e ≠ .joined v j w := by
  by_cases hact : e.actor = some v
  · obtain rfl := hs.running_of_actor hact
    have hon : ∀ {t' line'}, s.running = t' → s.line t' = line' → line'.waits = some i := by
      rintro t' line' rfl hq
      rw [← hq, hl]
    have hoff : ∀ {t' p' i' ph}, s.running = t' → s.place t' = .worker p' i' ph →
        ph.leaving = false := by
      rintro t' p' i' ph rfl hq
      exact hinv.leaving_of_busy (Line.busy_of_waits hl) hq
    cases hs with
    | dispatch t' hd ht => cases hact
    | nesting t' b hr ho | ownWait t' hr ho | allocFail t' hr ho | alloc t' j hr ho
    | joinNone t' j hr ho hj | join t' w j hr ho hj => cases hon hr ho.1
    | clearBits t' j hr hq | addTaskFail t' j hr hq | addTask t' w j hr hq hw hj
    | await t' w hr hq hsig | clear t' w j hr hq | close t' w j hr hq => cases hon hr hq
    | publish w p j hr hl' hq | ready w p j hr hl' hq | leave w p j hr hl' hq
    | giveUp w p j hr hl' hq => cases hon hr hl'
    | clearSlot w p j r hr hq | report w p j r hr hq | finish w p j r hr hq => cases hoff hr hq
    | pollHot t' w j paceMs hr hq hj => exact ⟨hl, by simp⟩
    | «open» t' w j b hr hq | load t' w j b hr hq | signal t' w j b task hr hq
    | pollSleep t' w j paceMs hr hq hj | sleep t' w j paceMs hr hq =>
      have hj := hon hr hq
      subst hr
      exact ⟨by rw [go_line_self]; exact hj, by simp⟩
    | pollDone t' w j b paceMs hr hq hj =>
      obtain rfl := Option.some.inj (hon hr hq)
      exact absurd hj hi
  · refine ⟨by rw [(hs.bystander hact).1, hl], ?_⟩
    rintro j w rfl
    exact hact rfl

/-- **A worker is in its slot until it clears it.** -/
theorem Step.slot (hs : Step s e s') (hinv : Inv s) (hi : s.slot i = some v) :
    s'.slot i = some v ∨ (s.line v).busy = false ∧ s'.slot i = none := by
  cases hs with
  | signal t' w j b task hr hq => exact .inl ((congrFun (State.stop_slot s task) i).trans hi)
  | ready w p j hr hl hq => exact .inl ((congrFun (State.report_slot s p true) i).trans hi)
  | report w p j r hr hq => exact .inl ((congrFun (State.report_slot s p r) i).trans hi)
  | publish w p j hr hl hq =>
    have hne : i ≠ j := by
      rintro rfl
      exact hinv.not_in_slot hq rfl rfl v hi
    exact .inl (by rw [State.setPlace_slot, State.setSlot_slot, if_neg hne, hi])
  | clearSlot w p j r hr hq =>
    rw [State.setPlace_slot, State.setSlot_slot]
    split
    · rename_i heq
      subst heq
      obtain rfl := hinv.eq_of_slot hi hq rfl
      refine .inr ⟨Bool.eq_false_iff.mpr fun hb => ?_, rfl⟩
      cases hinv.leaving_of_busy hb hq
    · exact .inl hi
  | _ => exact .inl hi

/-- **A knot stays one**, and no join in it returns. -/
theorem Knot.next {P : T → Prop} (h : Knot s P) (hinv : Inv s) (hs : Step s e s') :
    Knot s' P ∧ ∀ v, P v → ∀ i w, e ≠ .joined v i w := by
  have hstays : ∀ v, P v → ∃ v' i, P v' ∧ s.slot i = some v' ∧ (s'.line v).waits = some i ∧
      ∀ j w, e ≠ .joined v j w := by
    intro v hv
    obtain ⟨v', hv', i, hl, hi⟩ := h v hv
    exact ⟨v', i, hv', hi, hs.waits hinv hl (by rw [hi]; exact Option.some_ne_none v')⟩
  refine ⟨fun v hv => ?_, fun v hv => ?_⟩
  · obtain ⟨v', i, hv', hi, hl, -⟩ := hstays v hv
    refine ⟨v', hv', i, hl, (hs.slot hinv hi).resolve_right fun ⟨hidle, _⟩ => ?_⟩
    -- the one waited for is in a join itself
    obtain ⟨v'', hv'', j, hl', -⟩ := h v' hv'
    cases hidle.symm.trans (Line.busy_of_waits hl')
  · obtain ⟨-, -, -, -, -, hjoined⟩ := hstays v hv
    exact hjoined

/-- **The joins that one join waits for**, in a row. -/
def Chain (s : State T S) (t : T) : ℕ → T → Prop
  | 0, v => v = t
  | n + 1, v => ∃ u, Chain s t n u ∧ WaitsFor s u v

/-- **A row of joins stays** while its last task is in a call. -/
theorem Chain.next (h : Chain s t n v) (hinv : Inv s) (hs : Step s e s')
    (hv : (s.line v).busy = true) : Chain s' t n v := by
  induction n generalizing v with
  | zero => exact h
  | succ n ih =>
    obtain ⟨u, hu, i, hl, hi⟩ := h
    refine ⟨u, ih hu (Line.busy_of_waits hl), i,
      (hs.waits hinv hl (by rw [hi]; exact Option.some_ne_none v)).1,
      (hs.slot hinv hi).resolve_right fun ⟨hidle, _⟩ => ?_⟩
    cases hidle.symm.trans hv

omit [DecidableEq T] [DecidableEq S] in
/-- Where the last task of a row waits, the first one does. -/
theorem Chain.waits (h : Chain s t n u) (hw : WaitsFor s u v) : ∃ x, WaitsFor s t x := by
  induction n generalizing u v with
  | zero =>
    obtain rfl : u = t := h
    exact ⟨v, hw⟩
  | succ n ih =>
    obtain ⟨u', hu', hw'⟩ := h
    exact ih hu' hw'

omit [DecidableEq T] [DecidableEq S] in
/-- A row is made of slots, and of the lines of those who wait. -/
theorem Chain.congr (h : Chain s t n v) (hslot : s'.slot = s.slot)
    (hline : ∀ u x, WaitsFor s u x → s'.line u = s.line u) : Chain s' t n v := by
  induction n generalizing v with
  | zero => exact h
  | succ n ih =>
    obtain ⟨u, hu, i, hl, hi⟩ := h
    exact ⟨u, ih hu, i, by rw [hline u v ⟨i, hl, hi⟩, hl], by rw [hslot, hi]⟩

/-! ## What a join needs -/

/-- The steps on which everybody but a worker on its way out stays in `Forbid`, or out of it. -/
def Plain (s s' : State T S) : Prop :=
  ∃ e, Step s e s' ∧ ∀ t, (s'.place t).own = true → s'.nest t = s.nest t

/-- **A line that waits for nobody.** -/
def Rests (s : State T S) (line : Line T S) : Prop :=
  (∀ i, line.waits = some i → s.slot i = none) ∧ ∀ x, line ≠ .await x

/-- **What holds on the way**: the invariants, a task in this join that waits for so many others at
most, the last of whom waits for nobody, and nobody who polls for good. -/
structure Under (s : State T S) (t : T) (i : S) (w : T) (n : ℕ) : Prop where
  inv : Inv s
  sched : Sched s
  joins : (s.line t).joins = some (i, w)
  chain : ∃ m v, m ≤ n ∧ Chain s t m v ∧ Rests s (s.line v)
  cool : ∀ t, ¬Hot s t

/-- **A step of the schedule**: the task that has the CPU waits for nobody more than it did, slots
are only emptied, and whoever has the CPU then does not poll for good. -/
theorem Under.moves (h : Under s t i w n) (hs : Step s e s')
    (hnest : ∀ t, (s'.place t).own = true → s'.nest t = s.nest t)
    (hslot : ∀ j, s.slot j = none → s'.slot j = none)
    (hrests : Rests s (s.line s.running) → Rests s' (s'.line s.running))
    (hjoins : s.running = t → (s'.line t).joins = some (i, w))
    (hcool : ∀ j, (s'.line s'.running).hot = some j → s'.slot j = none) :
    Plain s s' ∧ Under s' t i w n := by
  have hrest : ∀ v, Rests s (s.line v) → Rests s' (s'.line v) := by
    intro v hv
    by_cases heq : v = s.running
    · subst heq
      exact hrests hv
    · rw [(hs.others heq).2.1]
      exact ⟨fun j hj => hslot j (hv.1 j hj), hv.2⟩
  refine ⟨⟨e, hs, hnest⟩, h.inv.next hs, h.sched.next hs, ?_, ?_, ?_⟩
  · by_cases heq : t = s.running
    · exact hjoins heq.symm
    · rw [(hs.others heq).2.1]
      exact h.joins
  · obtain ⟨m, v, hm, hchain, hv⟩ := h.chain
    cases m with
    | zero =>
      obtain rfl : v = t := hchain
      exact ⟨0, v, hm, rfl, hrest v hv⟩
    | succ m =>
      obtain ⟨u, hu, j, hl, hj⟩ := hchain
      have hu' := hu.next h.inv hs (Line.busy_of_waits hl)
      have hl' := (hs.waits h.inv hl (by rw [hj]; exact Option.some_ne_none v)).1
      rcases hs.slot h.inv hj with hj' | ⟨-, hj'⟩
      · exact ⟨m + 1, v, hm, ⟨u, hu', j, hl', hj'⟩, hrest v hv⟩
      · -- the last one has left, and the one before it waits no more
        refine ⟨m, u, Nat.le_of_succ_le hm, hu', fun k hk => ?_, fun x hx => ?_⟩
        · obtain rfl := Option.some.inj (hl'.symm.trans hk)
          exact hj'
        · rw [hx] at hl'
          cases hl'
  · rintro t' ⟨rfl, -, j, hline, hne⟩
    exact hne (hcool j hline)

/-- Two states that differ in signals alone. -/
structure Same (s s₁ : State T S) : Prop where
  running : s₁.running = s.running
  nest : s₁.nest = s.nest
  slot : s₁.slot = s.slot
  line : s₁.line = s.line
  place : s₁.place = s.place

omit [DecidableEq T] [DecidableEq S] in
theorem Same.refl (s : State T S) : Same s s := ⟨rfl, rfl, rfl, rfl, rfl⟩

/-- **The next line of a task in a call**, where the timer opens and no task can be added. -/
def Line.onward (s : State T S) : Line T S → Line T S
  | .idle => .idle
  | .clearBits i => .addTask i
  | .addTask _ => .idle
  | .await w => .await w
  | .open i w => .signal i w true
  | .signal i w haveTimer => .signalling i w haveTimer (s.slot i)
  | .signalling i w haveTimer _ => .poll i w haveTimer 1
  | .poll i w _ paceMs => if (s.slot i).isNone then .clear i w else .sleep i w paceMs
  | .sleep i w paceMs => .poll i w true (if paceMs < 128 then paceMs * 2 else 250)
  | .clear i w => .close i w
  | .close _ _ => .idle

/-- **A task in a call can go on**, unless it waits for a child or polls a slot that is taken. -/
theorem exists_onward (hq : s.line s.running = line) (hbusy : line.busy = true)
    (hawait : ∀ x, line ≠ .await x) (hcool : ∀ j, line.hot = some j → s.slot j = none) :
    ∃ e s₁, Same s s₁ ∧ Step s e (s₁.go s.running (line.onward s)) := by
  have hstop : ∀ task, Same s (s.stop task) := fun task => ⟨State.stop_running s task,
    State.stop_nest s task, State.stop_slot s task, State.stop_line s task,
    State.stop_place s task⟩
  cases line with
  | idle => cases hbusy
  | await x => exact absurd rfl (hawait x)
  | clearBits j => exact ⟨_, s.clearSignals _, ⟨rfl, rfl, rfl, rfl, rfl⟩, .clearBits _ j rfl hq⟩
  | addTask j => exact ⟨_, _, .refl s, .addTaskFail _ j rfl hq⟩
  | «open» j x => exact ⟨_, _, .refl s, .open _ x j true rfl hq⟩
  | signal j x b => exact ⟨_, _, .refl s, .load _ x j b rfl hq⟩
  | signalling j x b task => exact ⟨_, _, hstop task, .signal _ x j b task rfl hq⟩
  | poll j x b paceMs =>
    rw [Line.onward]
    split
    · next hnone => exact ⟨_, _, .refl s, .pollDone _ x j b paceMs rfl hq (by simpa using hnone)⟩
    · next hsome =>
      have hslot : s.slot j ≠ none := by simpa using hsome
      cases b with
      | true => exact ⟨_, _, .refl s, .pollSleep _ x j paceMs rfl hq hslot⟩
      | false => exact absurd (hcool j rfl) hslot
  | sleep j x paceMs => exact ⟨_, _, .refl s, .sleep _ x j paceMs rfl hq⟩
  | clear j x => exact ⟨_, s.clearSignals _, ⟨rfl, rfl, rfl, rfl, rfl⟩, .clear _ x j rfl hq⟩
  | close j x => exact ⟨_, _, .refl s, .close _ x j rfl hq⟩

section Onward

omit [DecidableEq T] [DecidableEq S]

theorem Line.onward_waits (h : (line.onward s).waits = some i) : line.waits = some i := by
  cases line with
  | poll j x b paceMs =>
    rw [Line.onward] at h
    split at h
    · cases h
    · exact h
  | «open» j x | signal j x b | signalling j x b task | sleep j x paceMs => exact h
  | _ => cases h

theorem Line.onward_hot (h : (line.onward s).hot = some i) : line.hot = some i := by
  cases line with
  | poll j x b paceMs =>
    rw [Line.onward] at h
    split at h <;> cases h
  | signal j x b | signalling j x b task => cases b <;> exact h
  | _ => cases h

theorem Line.onward_await (hawait : ∀ x, line ≠ .await x) (x : T) : line.onward s ≠ .await x := by
  intro h
  cases line with
  | await y => exact hawait y rfl
  | poll j y b paceMs =>
    rw [Line.onward] at h
    split at h <;> cases h
  | _ => cases h

theorem Line.onward_joins (h : line.joins = some (i, w)) (hclose : line.closing = false) :
    (line.onward s).joins = some (i, w) := by
  cases line with
  | poll j y b paceMs =>
    rw [Line.onward]
    split <;> exact h
  | close j x => cases hclose
  | «open» j x | signal j x b | signalling j x b task | sleep j x paceMs | clear j x => exact h
  | _ => cases h

end Onward

/-- **The task that has the CPU goes on in its call.** -/
theorem Under.onward (h : Under s t i w n) (hq : s.line s.running = line)
    (hbusy : line.busy = true) (hawait : ∀ x, line ≠ .await x)
    (hcool : ∀ j, line.hot = some j → s.slot j = none)
    (hclose : s.running = t → line.closing = false) :
    ∃ s', Plain s s' ∧ Under s' t i w n ∧ s'.running = s.running ∧ s'.place = s.place ∧
      s'.slot = s.slot ∧ s'.line = Function.update s.line s.running (line.onward s) := by
  obtain ⟨e, s₁, hsame, hs⟩ := exists_onward hq hbusy hawait hcool
  have hself : (s₁.go s.running (line.onward s)).line s.running = line.onward s := go_line_self
  have hslot : (s₁.go s.running (line.onward s)).slot = s.slot := hsame.slot
  have hrests : Rests s (s.line s.running) →
      Rests (s₁.go s.running (line.onward s)) (line.onward s) := by
    intro hr
    refine ⟨fun j hj => ?_, Line.onward_await hawait⟩
    rw [hslot]
    exact hr.1 j (by rw [hq]; exact Line.onward_waits hj)
  have hjoins : s.running = t → (line.onward s).joins = some (i, w) := by
    intro hrun
    refine Line.onward_joins ?_ (hclose hrun)
    rw [← hq, hrun]
    exact h.joins
  obtain ⟨hplain, hunder⟩ := h.moves hs (fun t _ => congrFun hsame.nest t)
    (fun j hj => by rw [hslot, hj]) (by rw [hself]; exact hrests)
    (fun hrun => by rw [← hrun, hself]; exact hjoins hrun)
    (fun j hj => by
      rw [State.go_running, hsame.running, hself] at hj
      rw [hslot]
      exact hcool j (Line.onward_hot hj))
  exact ⟨_, hplain, hunder, hsame.running, hsame.place, hslot,
    congrArg (Function.update · s.running _) hsame.line⟩

/-- **A worker on its way out goes on**, or one that is in its own code sets out. -/
theorem Under.exits (h : Under s t i w n) {q : Place T S} (hs : Step s e s')
    (hrun : s'.running = s.running) (hline : s'.line = s.line)
    (hplace : s'.place = Function.update s.place s.running q) (hown : q.own = false)
    (hnest : ∀ t, t ≠ s.running → s'.nest t = s.nest t)
    (hslot : ∀ j, s.slot j = none → s'.slot j = none) (hidle : s.line s.running = .idle) :
    Plain s s' ∧ Under s' t i w n := by
  refine h.moves hs (fun u hu => hnest u ?_) hslot (fun hr => ?_) (fun _ => ?_) (fun j hj => ?_)
  · rintro rfl
    rw [hplace, Function.update_self, hown] at hu
    cases hu
  · rw [hline]
    exact ⟨fun j hj => hslot j (hr.1 j hj), hr.2⟩
  · rw [hline]
    exact h.joins
  · rw [hrun, hline, hidle] at hj
    cases hj

/-- **The CPU goes to a task** that does not poll for good. -/
theorem Under.dispatch (h : Under s t i w n) (hfree : s.Free) (hv : (s.place v).alive = true)
    (hcool : ∀ j, (s.line v).hot = some j → s.slot j = none) :
    Plain s { s with running := v } ∧ Under { s with running := v } t i w n :=
  h.moves (.dispatch v hfree hv) (fun _ _ => rfl) (fun _ hj => hj) id (fun _ => h.joins) hcool

/-! ## The CPU comes free -/

/-- The lines to the next one where a task may wait. -/
def Line.held : Line T S → ℕ
  | .signal _ _ _ => 4
  | .signalling _ _ _ _ => 3
  | .clearBits _ | .poll _ _ _ _ => 2
  | .addTask _ | .clear _ _ => 1
  | _ => 0

/-- The steps of a worker to its end. -/
def Place.held : Place T S → ℕ
  | .worker _ _ (.exiting _) => 3
  | .worker _ _ (.cleared _) => 2
  | .worker _ _ (.signalled _) => 1
  | _ => 0

/-- The lines of a call to its end, with nobody to wait for. -/
def Line.left : Line T S → ℕ
  | .open _ _ => 6
  | .signal _ _ _ => 5
  | .signalling _ _ _ _ | .sleep _ _ _ => 4
  | .poll _ _ _ _ => 3
  | .clear _ _ | .clearBits _ => 2
  | .close _ _ | .addTask _ => 1
  | _ => 0

omit [DecidableEq T] [DecidableEq S] in
theorem Rests.cool (h : Rests s line) (hline : line.hot = some j) : s.slot j = none := by
  refine h.1 j ?_
  cases line with
  | signal k x b | signalling k x b task | poll k x b paceMs =>
    cases b with
    | true => cases hline
    | false => exact hline
  | _ => cases hline

end DriverTask
