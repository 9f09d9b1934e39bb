import Emu68Common.Machinery.History
import Mathlib.Logic.Function.Basic

/-!
# Task/Worker — `drv_task_spawn`, `drv_task_join` and `drv_task_exit` under Exec's scheduler

One task has the CPU.  Outside `Forbid` it may lose it at any point, to any task that is ready,
which allows whatever the priorities make of it; in `Forbid` only where it waits or ends.  A worker
is known by the slot it publishes itself in and the parent it reports to, with the same two signals
for every worker of that parent.  Any task may spawn and join from its own code, a worker too:
where a task is in such a call is kept apart from how far a worker is.

    drv_task_spawn   .idle ▸ .clearBits ▸ .addTask ▸ .await ▸ .idle
    drv_task_join    .idle ▸ .open ▸ .signal ▸ .signalling ▸ .poll ▸ .clear ▸ .close ▸ .idle
                                                              ▴ .sleep
    worker           .starting ▸ .published ▸ .looping ▸ .exiting ▸ .cleared ▸ .signalled ▸ .ended
                          ╰──────────────┴───────────────▴

The worker a join found in the slot is kept with the join, for what is said about it afterwards.
-/

namespace DriverTask

/-- The lines of a task in a call of `drv_task_spawn` or `drv_task_join`. -/
inductive Line (T S : Type) where
  /-- in neither -/
  | idle
  /-- `SetSignal` in `drv_task_spawn` -/
  | clearBits (s : S)
  /-- `AddTask` -/
  | addTask (s : S)
  /-- `Wait` -/
  | await (w : T)
  /-- `drv_timer_open` in `drv_task_join` -/
  | open (s : S) (found : T)
  /-- `*slot`, for `Signal` -/
  | signal (s : S) (found : T) (haveTimer : Bool)
  /-- `Signal` -/
  | signalling (s : S) (found : T) (haveTimer : Bool) (task : Option T)
  /-- `*slot != NULL` -/
  | poll (s : S) (found : T) (haveTimer : Bool) (paceMs : ℕ)
  /-- `drv_timer_sleep_ms` -/
  | sleep (s : S) (found : T) (paceMs : ℕ)
  /-- `SetSignal` -/
  | clear (s : S) (found : T)
  /-- `drv_timer_close` -/
  | close (s : S) (found : T)
  deriving DecidableEq, Repr

/-- How far a worker is; on its way out, whether it `ranLoop`. -/
inductive Phase where
  | starting
  /-- its own task is in its slot -/
  | published
  /-- in its wait loop, readiness reported -/
  | looping
  /-- in `drv_task_exit`, in `Forbid` -/
  | exiting (ranLoop : Bool)
  /-- `*slot = NULL` done -/
  | cleared (ranLoop : Bool)
  /-- `Signal` done -/
  | signalled (ranLoop : Bool)
  | ended (ranLoop : Bool)
  deriving DecidableEq, Repr

/-- What a task is. -/
inductive Place (T S : Type) where
  /-- not there yet -/
  | unborn
  /-- a task that no `drv_task_spawn` has made -/
  | client
  | worker (parent : T) (slot : S) (phase : Phase)
  deriving DecidableEq, Repr

/-- In `drv_task_exit`, or on the way from it to the task's end. -/
def Phase.leaving : Phase → Bool
  | .exiting _ | .cleared _ | .signalled _ => true
  | _ => false

def Phase.gone : Phase → Bool
  | .ended _ => true
  | _ => false

/-- A worker on its way out or gone runs nothing but `drv_task_exit`. -/
def Phase.own (phase : Phase) : Bool := !phase.leaving && !phase.gone

/-- A task that has code of its own to run. -/
def Place.own {T S : Type} : Place T S → Bool
  | .unborn => false
  | .client => true
  | .worker _ _ phase => phase.own

/-- Where a task in `Forbid` may wait: in its own code, in timer.device, and in `Wait`. -/
def Line.mayWait {T S : Type} : Line T S → Bool
  | .idle | .await _ | .open _ _ | .sleep _ _ _ | .close _ _ => true
  | _ => false

/-- A task that can be given the CPU. -/
def Place.alive {T S : Type} : Place T S → Bool
  | .unborn => false
  | .client => true
  | .worker _ _ phase => !phase.gone

/-- The CPU, the slots, and every task. -/
structure State (T S : Type) where
  /-- who has the CPU -/
  running : T
  /-- a task is in `Forbid` -/
  nest : T → Bool
  /-- `SIGBREAKF_CTRL_C` received -/
  sigC : T → Bool
  /-- `SIGBREAKF_CTRL_F` received -/
  sigF : T → Bool
  slot : S → Option T
  /-- where a task is in `drv_task_spawn` or `drv_task_join` -/
  line : T → Line T S
  place : T → Place T S

/-- What `drv_task_spawn` returns once it has added a task. -/
inductive Result where
  | ok
  | eio
  deriving DecidableEq, Repr

/-- What a step was. -/
inductive Event (T S : Type) where
  | acted (t : T)
  | dispatched (t : T)
  /-- `drv_task_spawn` returned `-ENOMEM` -/
  | nomem (t : T)
  | spawned (t w : T) (res : Result)
  /-- `drv_task_join` found this task in the slot -/
  | joinCalled (t : T) (s : S) (found : T)
  /-- `Signal(task, SIGBREAKF_CTRL_C)` in `drv_task_join` -/
  | stopped (t : T) (task : Option T)
  | joined (t : T) (s : S) (found : T)
  | published (w : T)
  /-- a worker reported its readiness to its parent -/
  | ready (w parent : T)
  | cleared (w : T) (s : S)
  /-- a worker reported its end to its parent -/
  | exited (w parent : T) (ranLoop : Bool)
  | ended (w : T)
  deriving DecidableEq, Repr

/-- Who acts in a step. -/
def Event.actor {T S : Type} : Event T S → Option T
  | .dispatched _ => none
  | .acted t | .nomem t | .spawned t _ _ | .joinCalled t _ _ | .stopped t _ | .joined t _ _
  | .published t | .ready t _ | .cleared t _ | .exited t _ _ | .ended t => some t

/-- Whether a step is one task's signal to another: a worker's report to its parent, or the signal
of a join. -/
def Event.signals {T S : Type} (t t' : T) : Event T S → Prop
  | .ready w parent | .exited w parent _ => w = t ∧ parent = t'
  | .stopped joiner task => joiner = t ∧ task = some t'
  | _ => False

section Steps

variable {T S : Type}

/-- No worker yet, every slot empty. -/
structure Start (s : State T S) : Prop where
  place : ∀ t, s.place t = .unborn ∨ s.place t = .client
  running : s.place s.running = .client
  slot : ∀ i, s.slot i = none
  line : ∀ t, s.line t = .idle

namespace State

/-- **A task is in its own code**: in no call, and not on its way out. -/
def Own (s : State T S) (t : T) : Prop := s.line t = .idle ∧ (s.place t).own = true

/-- A task may wait, also in `Forbid`. -/
def MayWait (s : State T S) (t : T) : Prop :=
  (s.line t).mayWait = true ∧ ∀ p i ph, s.place t = .worker p i ph → ph.leaving = false

/-- The CPU can be given to another task. -/
def Free (s : State T S) : Prop := s.nest s.running = false ∨ s.MayWait s.running

end State

variable [DecidableEq T] [DecidableEq S]

namespace State

/-- A task at another line. -/
def go (s : State T S) (t : T) (line : Line T S) : State T S :=
  { s with line := Function.update s.line t line }

def setPlace (s : State T S) (t : T) (p : Place T S) : State T S :=
  { s with place := Function.update s.place t p }

/-- `SetSignal(0UL, SIGBREAKF_CTRL_F | SIGBREAKF_CTRL_C)`, or `Wait` on the two -/
def clearSignals (s : State T S) (t : T) : State T S :=
  { s with sigC := Function.update s.sigC t false, sigF := Function.update s.sigF t false }

/-- `Signal(t, ranLoop ? SIGBREAKF_CTRL_F : SIGBREAKF_CTRL_C)` -/
def report (s : State T S) (t : T) (ranLoop : Bool) : State T S :=
  if ranLoop then { s with sigF := Function.update s.sigF t true }
  else { s with sigC := Function.update s.sigC t true }

/-- `Signal(task, SIGBREAKF_CTRL_C)`; what a signal to no task does is not said -/
def stop (s : State T S) : Option T → State T S
  | some t => { s with sigC := Function.update s.sigC t true }
  | none => s

def setSlot (s : State T S) (i : S) (v : Option T) : State T S :=
  { s with slot := Function.update s.slot i v }

def setNest (s : State T S) (t : T) (b : Bool) : State T S :=
  { s with nest := Function.update s.nest t b }

end State

/-- **One step** of the task that has the CPU, or the CPU going to another. -/
inductive Step (s : State T S) : Event T S → State T S → Prop where
  | dispatch (t : T) (h : s.Free) (ht : (s.place t).alive = true) :
    Step s (.dispatched t) { s with running := t }
  /-- `Forbid` and `Permit` of a task's own -/
  | nesting (t : T) (b : Bool) (hr : s.running = t) (h : s.Own t) :
    Step s (.acted t) (s.setNest t b)
  /-- a task takes the signals it has, in its own code -/
  | ownWait (t : T) (hr : s.running = t) (h : s.Own t) : Step s (.acted t) (s.clearSignals t)
  -- drv_task_spawn
  | allocFail (t : T) (hr : s.running = t) (h : s.Own t) : Step s (.nomem t) s
  | alloc (t : T) (i : S) (hr : s.running = t) (h : s.Own t) :
    Step s (.acted t) (s.go t (.clearBits i))
  | clearBits (t : T) (i : S) (hr : s.running = t) (h : s.line t = .clearBits i) :
    Step s (.acted t) ((s.clearSignals t).go t (.addTask i))
  | addTaskFail (t : T) (i : S) (hr : s.running = t) (h : s.line t = .addTask i) :
    Step s (.nomem t) (s.go t .idle)
  /-- a new worker; nobody else has its slot any more -/
  | addTask (t w : T) (i : S) (hr : s.running = t) (h : s.line t = .addTask i)
    (hw : s.place w = .unborn)
    (hi : ∀ w' p ph, s.place w' = .worker p i ph → ph.gone = true) :
    Step s (.acted t) ((s.setPlace w (.worker t i .starting)).go t (.await w))
  | await (t w : T) (hr : s.running = t) (h : s.line t = .await w)
    (hs : s.sigC t = true ∨ s.sigF t = true) :
    Step s (.spawned t w (if s.sigC t then .eio else .ok)) ((s.clearSignals t).go t .idle)
  -- drv_task_join
  | joinNone (t : T) (i : S) (hr : s.running = t) (h : s.Own t) (hi : s.slot i = none) :
    Step s (.acted t) s
  | join (t w : T) (i : S) (hr : s.running = t) (h : s.Own t) (hi : s.slot i = some w) :
    Step s (.joinCalled t i w) (s.go t (.open i w))
  | open (t w : T) (i : S) (haveTimer : Bool) (hr : s.running = t) (h : s.line t = .open i w) :
    Step s (.acted t) (s.go t (.signal i w haveTimer))
  | load (t w : T) (i : S) (haveTimer : Bool) (hr : s.running = t)
    (h : s.line t = .signal i w haveTimer) :
    Step s (.acted t) (s.go t (.signalling i w haveTimer (s.slot i)))
  | signal (t w : T) (i : S) (haveTimer : Bool) (task : Option T) (hr : s.running = t)
    (h : s.line t = .signalling i w haveTimer task) :
    Step s (.stopped t task) ((s.stop task).go t (.poll i w haveTimer 1))
  | pollSleep (t w : T) (i : S) (paceMs : ℕ) (hr : s.running = t)
    (h : s.line t = .poll i w true paceMs) (hi : s.slot i ≠ none) :
    Step s (.acted t) (s.go t (.sleep i w paceMs))
  /-- without a timer, just hot -/
  | pollHot (t w : T) (i : S) (paceMs : ℕ) (hr : s.running = t)
    (h : s.line t = .poll i w false paceMs) (hi : s.slot i ≠ none) : Step s (.acted t) s
  | sleep (t w : T) (i : S) (paceMs : ℕ) (hr : s.running = t)
    (h : s.line t = .sleep i w paceMs) :
    Step s (.acted t) (s.go t (.poll i w true (if paceMs < 128 then paceMs * 2 else 250)))
  | pollDone (t w : T) (i : S) (haveTimer : Bool) (paceMs : ℕ) (hr : s.running = t)
    (h : s.line t = .poll i w haveTimer paceMs) (hi : s.slot i = none) :
    Step s (.acted t) (s.go t (.clear i w))
  | clear (t w : T) (i : S) (hr : s.running = t) (h : s.line t = .clear i w) :
    Step s (.acted t) ((s.clearSignals t).go t (.close i w))
  | close (t w : T) (i : S) (hr : s.running = t) (h : s.line t = .close i w) :
    Step s (.joined t i w) (s.go t .idle)
  -- the worker, in its own code
  | publish (w p : T) (i : S) (hr : s.running = w) (hl : s.line w = .idle)
    (h : s.place w = .worker p i .starting) :
    Step s (.published w) ((s.setSlot i (some w)).setPlace w (.worker p i .published))
  | ready (w p : T) (i : S) (hr : s.running = w) (hl : s.line w = .idle)
    (h : s.place w = .worker p i .published) :
    Step s (.ready w p) ((s.report p true).setPlace w (.worker p i .looping))
  /-- `drv_task_exit` of a worker that did not get to its loop -/
  | giveUp (w p : T) (i : S) (hr : s.running = w) (hl : s.line w = .idle)
    (h : s.place w = .worker p i .starting ∨ s.place w = .worker p i .published) :
    Step s (.acted w) ((s.setNest w true).setPlace w (.worker p i (.exiting false)))
  /-- `drv_task_exit` of a worker that leaves its loop -/
  | leave (w p : T) (i : S) (hr : s.running = w) (hl : s.line w = .idle)
    (h : s.place w = .worker p i .looping) :
    Step s (.acted w) ((s.setNest w true).setPlace w (.worker p i (.exiting true)))
  | clearSlot (w p : T) (i : S) (ranLoop : Bool) (hr : s.running = w)
    (h : s.place w = .worker p i (.exiting ranLoop)) :
    Step s (.cleared w i) ((s.setSlot i none).setPlace w (.worker p i (.cleared ranLoop)))
  | report (w p : T) (i : S) (ranLoop : Bool) (hr : s.running = w)
    (h : s.place w = .worker p i (.cleared ranLoop)) :
    Step s (.exited w p ranLoop)
      ((s.report p ranLoop).setPlace w (.worker p i (.signalled ranLoop)))
  /-- the entry returns, and `Forbid` ends with the task -/
  | finish (w p : T) (i : S) (ranLoop : Bool) (hr : s.running = w)
    (h : s.place w = .worker p i (.signalled ranLoop)) :
    Step s (.ended w) ((s.setNest w false).setPlace w (.worker p i (.ended ranLoop)))

/-! ## What each step changes -/

namespace State

variable (s : State T S) (t t' : T) (l : Line T S) (p : Place T S) (i j : S) (v : Option T)
  (b : Bool)

omit [DecidableEq S] in
@[simp] theorem go_line : (s.go t l).line t' = if t' = t then l else s.line t' :=
  Function.update_apply s.line t l t'

omit [DecidableEq S] in
@[simp] theorem go_place : (s.go t l).place = s.place := rfl

omit [DecidableEq S] in
@[simp] theorem go_slot : (s.go t l).slot = s.slot := rfl

omit [DecidableEq S] in
@[simp] theorem go_running : (s.go t l).running = s.running := rfl

omit [DecidableEq S] in
@[simp] theorem go_nest : (s.go t l).nest = s.nest := rfl

omit [DecidableEq S] in
@[simp] theorem go_sigC : (s.go t l).sigC = s.sigC := rfl

omit [DecidableEq S] in
@[simp] theorem go_sigF : (s.go t l).sigF = s.sigF := rfl

omit [DecidableEq S] in
@[simp] theorem setPlace_place :
    (s.setPlace t p).place t' = if t' = t then p else s.place t' :=
  Function.update_apply s.place t p t'

omit [DecidableEq S] in
@[simp] theorem setPlace_line : (s.setPlace t p).line = s.line := rfl

omit [DecidableEq S] in
@[simp] theorem setPlace_slot : (s.setPlace t p).slot = s.slot := rfl

omit [DecidableEq S] in
@[simp] theorem setPlace_running : (s.setPlace t p).running = s.running := rfl

omit [DecidableEq S] in
@[simp] theorem setPlace_nest : (s.setPlace t p).nest = s.nest := rfl

omit [DecidableEq S] in
@[simp] theorem setPlace_sigC : (s.setPlace t p).sigC = s.sigC := rfl

omit [DecidableEq S] in
@[simp] theorem setPlace_sigF : (s.setPlace t p).sigF = s.sigF := rfl

omit [DecidableEq S] in
@[simp] theorem clearSignals_line : (s.clearSignals t).line = s.line := rfl

omit [DecidableEq S] in
@[simp] theorem clearSignals_place : (s.clearSignals t).place = s.place := rfl

omit [DecidableEq S] in
@[simp] theorem clearSignals_slot : (s.clearSignals t).slot = s.slot := rfl

omit [DecidableEq S] in
@[simp] theorem report_line : (s.report t b).line = s.line := by
  rw [report]
  split <;> rfl

omit [DecidableEq S] in
@[simp] theorem report_place : (s.report t b).place = s.place := by
  rw [report]
  split <;> rfl

omit [DecidableEq S] in
@[simp] theorem report_slot : (s.report t b).slot = s.slot := by
  rw [report]
  split <;> rfl

omit [DecidableEq S] in
@[simp] theorem report_running : (s.report t b).running = s.running := by
  rw [report]
  split <;> rfl

omit [DecidableEq S] in
@[simp] theorem report_nest : (s.report t b).nest = s.nest := by
  rw [report]
  split <;> rfl

omit [DecidableEq S] in
@[simp] theorem stop_line : (s.stop v).line = s.line := by
  cases v <;> rfl

omit [DecidableEq S] in
@[simp] theorem stop_place : (s.stop v).place = s.place := by
  cases v <;> rfl

omit [DecidableEq S] in
@[simp] theorem stop_slot : (s.stop v).slot = s.slot := by
  cases v <;> rfl

omit [DecidableEq S] in
@[simp] theorem stop_running : (s.stop v).running = s.running := by
  cases v <;> rfl

omit [DecidableEq S] in
@[simp] theorem stop_nest : (s.stop v).nest = s.nest := by
  cases v <;> rfl

omit [DecidableEq T] in
@[simp] theorem setSlot_slot : (s.setSlot i v).slot j = if j = i then v else s.slot j :=
  Function.update_apply s.slot i v j

omit [DecidableEq S] in
@[simp] theorem setNest_nest : (s.setNest t b).nest t' = if t' = t then b else s.nest t' :=
  Function.update_apply s.nest t b t'

end State

end Steps

end DriverTask
