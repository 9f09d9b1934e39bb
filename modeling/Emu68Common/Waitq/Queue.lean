import Emu68Common.Machinery.History
import Mathlib.Logic.Function.Basic

/-!
# Waitq/Queue — `drv_wait_event` and `drv_wake_up_all`, line by line, in any number of tasks

Tasks take the lock, change what it guards, wake everybody on the queue, and wait on it.  Each call
of `drv_wait_event` is a wait of its own, with its own predicate, timer request, list node and
signal bit; the bit and the reply port are its for the length of the call.  The device replies to a
timer request whenever it likes.

    .check ▸ .ready ▸ .port ▸ .send ▸ .add ▸ .release ▸ .sleep ▸ .obtain ▸ .recheck ▸ .checkIo
                                               ▴──────────────────────────────────────┘
    .remove ▸ .test ▸ .abort ▸ .waitIo ▸ .clear ▸ .delete ▸ .ret

`made` and `due` are not in the source: they say what a waiter has coming to it.
-/

namespace Waitq

/-! ## Places -/

/-- What `drv_wait_event` returns. -/
inductive Result where
  | ok
  | timeout
  | noResources
  deriving DecidableEq, Repr

/-- The lines of `drv_wait_event`. -/
inductive Line where
  /-- the first `pred(a, b)` -/
  | check
  /-- `timer_ready` -/
  | ready
  /-- `CreateMsgPort` -/
  | port
  /-- `SendIO` -/
  | send
  /-- `AddTail` -/
  | add
  /-- `ReleaseSemaphore` -/
  | release
  /-- `Wait` -/
  | sleep
  /-- `ObtainSemaphore` -/
  | obtain
  /-- `pred(a, b)` in the loop -/
  | recheck
  /-- `CheckIO` in the loop -/
  | checkIo
  /-- `Remove` -/
  | remove (rc : Result)
  /-- `CheckIO` after it -/
  | test (rc : Result)
  /-- `AbortIO` -/
  | abort (rc : Result)
  /-- `WaitIO` -/
  | waitIo (rc : Result)
  /-- `SetSignal` -/
  | clear (rc : Result)
  /-- `DeleteMsgPort` -/
  | delete (rc : Result)
  | ret (rc : Result)
  deriving DecidableEq, Repr

/-- Where a task is. -/
inductive Place (W : Type) where
  /-- without the lock -/
  | away
  /-- with the lock, and nothing changed since the last `drv_wake_up_all` if `clean` -/
  | holding (clean : Bool)
  /-- in `drv_wake_up_all`, at the node of this index -/
  | waking (k : ℕ)
  /-- in `drv_wait_event` -/
  | waiting (w : W) (line : Line)
  deriving DecidableEq, Repr

/-- Whether the lock is held on a line. -/
def Line.holds : Line → Bool
  | .sleep | .obtain => false
  | _ => true

/-- The lines between `AddTail` and `Remove`. -/
def Line.listed : Line → Bool
  | .release | .sleep | .obtain | .recheck | .checkIo | .remove _ => true
  | _ => false

/-- Whether the lock is held at a place. -/
def Place.holds {W : Type} : Place W → Bool
  | .away => false
  | .holding _ | .waking _ => true
  | .waiting _ line => line.holds

/-- A place with nothing changed that has not been announced. -/
def Place.clean {W : Type} : Place W → Bool
  | .holding clean => clean
  | .waking _ => false
  | _ => true

/-! ## Waits -/

/-- A timer request. -/
inductive Timer where
  | unsent
  /-- sent and not replied, `AbortIO` called on it or not -/
  | outstanding (aborting : Bool)
  /-- replied, because it was aborted or because its time was up -/
  | replied (aborted : Bool)
  /-- taken off the reply port -/
  | collected (aborted : Bool)
  deriving DecidableEq, Repr

/-- `CheckIO`: the request is complete. -/
def Timer.done : Timer → Bool
  | .unsent | .outstanding _ => false
  | .replied _ | .collected _ => true

/-- What belongs to one wait. -/
structure Wait where
  /-- the signal bit of its reply port -/
  sig : Bool
  timer : Timer
  /-- the holder of the lock turned its predicate true -/
  made : Bool
  /-- somebody turned it true and let go of the lock, and it has not looked since -/
  due : Bool
  begun : Bool
  deriving DecidableEq, Repr

/-- A wait before its call. -/
def Wait.fresh : Wait := ⟨false, .unsent, false, false, false⟩

/-- The queue, the lock, what it guards, and every task and wait. -/
structure State (T W σ : Type) where
  shared : σ
  owner : Option T
  place : T → Place W
  waiters : List W
  waits : W → Wait
  timerOpen : Bool

/-- What a step was. -/
inductive Event (T W : Type) where
  | acted (t : T)
  /-- a task signals the bit of a wait -/
  | woken (t : T) (w : W)
  /-- the device replies, which signals the bit of the wait -/
  | replied (w : W)
  | returned (t : T) (w : W) (rc : Result)
  deriving DecidableEq, Repr

section Steps

variable {T W σ : Type}

/-- Nobody has the lock, nobody waits, and no wait has begun. -/
structure Start (s : State T W σ) : Prop where
  owner : s.owner = none
  place : ∀ t, s.place t = .away
  waiters : s.waiters = []
  waits : ∀ w, s.waits w = .fresh

/-- Whether a step is one of a task's. -/
def Event.by (t : T) : Event T W → Prop
  | .acted t' | .woken t' _ | .returned t' _ _ => t' = t
  | .replied _ => False

/-- Whether a step signals the bit of a wait. -/
def Event.signals (w : W) : Event T W → Prop
  | .woken _ w' | .replied w' => w' = w
  | _ => False

variable [DecidableEq T] [DecidableEq W]

namespace State

/-- A task at another place. -/
def go (s : State T W σ) (t : T) (p : Place W) : State T W σ :=
  { s with place := Function.update s.place t p }

/-- A wait changed. -/
def set (s : State T W σ) (w : W) (x : Wait) : State T W σ :=
  { s with waits := Function.update s.waits w x }

/-- The guarded state changed, and the waiters whose predicate that makes true. -/
def change (pred : W → σ → Bool) (s : State T W σ) (x : σ) : State T W σ :=
  { s with
    shared := x
    waits := fun w =>
      if w ∈ s.waiters ∧ pred w s.shared = false ∧ pred w x = true then
        { s.waits w with made := true }
      else s.waits w }

/-- The lock let go: what its holder made true is due. -/
def letGo (s : State T W σ) : State T W σ :=
  { s with
    owner := none
    waits := fun w =>
      { s.waits w with due := (s.waits w).due || (s.waits w).made, made := false } }

end State

/-- **One step** of a task or of the device. -/
inductive Step (pred : W → σ → Bool) (s : State T W σ) : Event T W → State T W σ → Prop where
  /-- a task takes the lock, not to wait -/
  | obtained (t : T) (h : s.place t = .away) (ho : s.owner = none) :
    Step pred s (.acted t) { s.go t (.holding true) with owner := some t }
  | changed (t : T) (clean : Bool) (x : σ) (h : s.place t = .holding clean) :
    Step pred s (.acted t) ((s.change pred x).go t (.holding false))
  | wakeAll (t : T) (clean : Bool) (h : s.place t = .holding clean) :
    Step pred s (.acted t) (s.go t (.waking 0))
  | wakeOne (t : T) (k : ℕ) (w : W) (h : s.place t = .waking k) (hw : s.waiters[k]? = some w) :
    Step pred s (.woken t w)
      ((s.set w { s.waits w with sig := true }).go t (.waking (k + 1)))
  | wokeAll (t : T) (k : ℕ) (h : s.place t = .waking k) (hk : s.waiters[k]? = none) :
    Step pred s (.acted t) (s.go t (.holding true))
  | released (t : T) (h : s.place t = .holding true) :
    Step pred s (.acted t) (s.letGo.go t .away)
  /-- `drv_wait_event`, with the lock held -/
  | call (t : T) (w : W) (h : s.place t = .holding true) (hw : (s.waits w).begun = false) :
    Step pred s (.acted t)
      ((s.set w { s.waits w with begun := true }).go t (.waiting w .check))
  | check (t : T) (w : W) (h : s.place t = .waiting w .check) :
    Step pred s (.acted t)
      (s.go t (.waiting w (if pred w s.shared then .ret .ok else .ready)))
  | ready (t : T) (w : W) (opens : Bool) (h : s.place t = .waiting w .ready) :
    Step pred s (.acted t)
      { s.go t (.waiting w (if s.timerOpen || opens then .port else .ret .noResources)) with
        timerOpen := s.timerOpen || opens }
  | port (t : T) (w : W) (created : Bool) (h : s.place t = .waiting w .port) :
    Step pred s (.acted t)
      ((s.set w { s.waits w with sig := false }).go t
        (.waiting w (if created then .send else .ret .noResources)))
  | send (t : T) (w : W) (h : s.place t = .waiting w .send) :
    Step pred s (.acted t)
      ((s.set w { s.waits w with timer := .outstanding false }).go t (.waiting w .add))
  | add (t : T) (w : W) (h : s.place t = .waiting w .add) :
    Step pred s (.acted t)
      { s.go t (.waiting w .release) with waiters := s.waiters ++ [w] }
  | release (t : T) (w : W) (h : s.place t = .waiting w .release) :
    Step pred s (.acted t) (s.letGo.go t (.waiting w .sleep))
  | sleep (t : T) (w : W) (h : s.place t = .waiting w .sleep) (hs : (s.waits w).sig = true) :
    Step pred s (.acted t)
      ((s.set w { s.waits w with sig := false }).go t (.waiting w .obtain))
  | obtain (t : T) (w : W) (h : s.place t = .waiting w .obtain) (ho : s.owner = none) :
    Step pred s (.acted t) { s.go t (.waiting w .recheck) with owner := some t }
  | recheck (t : T) (w : W) (h : s.place t = .waiting w .recheck) :
    Step pred s (.acted t)
      ((s.set w { s.waits w with due := false }).go t
        (.waiting w (if pred w s.shared then .remove .ok else .checkIo)))
  | checkIo (t : T) (w : W) (h : s.place t = .waiting w .checkIo) :
    Step pred s (.acted t)
      (s.go t (.waiting w (if (s.waits w).timer.done then .remove .timeout else .release)))
  | remove (t : T) (w : W) (rc : Result) (h : s.place t = .waiting w (.remove rc)) :
    Step pred s (.acted t)
      { s.go t (.waiting w (.test rc)) with waiters := s.waiters.erase w }
  | test (t : T) (w : W) (rc : Result) (h : s.place t = .waiting w (.test rc)) :
    Step pred s (.acted t)
      (s.go t (.waiting w (if (s.waits w).timer.done then .waitIo rc else .abort rc)))
  | abort (t : T) (w : W) (rc : Result) (h : s.place t = .waiting w (.abort rc)) :
    Step pred s (.acted t)
      ((s.set w { s.waits w with
          timer := if (s.waits w).timer.done then (s.waits w).timer else .outstanding true }).go t
        (.waiting w (.waitIo rc)))
  /-- `WaitIO` wakes up and finds the reply not there yet -/
  | waitIoAgain (t : T) (w : W) (rc : Result) (h : s.place t = .waiting w (.waitIo rc))
    (hs : (s.waits w).sig = true) (hd : (s.waits w).timer.done = false) :
    Step pred s (.acted t)
      ((s.set w { s.waits w with sig := false }).go t (.waiting w (.waitIo rc)))
  | waitIo (t : T) (w : W) (rc : Result) (aborted : Bool)
    (h : s.place t = .waiting w (.waitIo rc)) (hr : (s.waits w).timer = .replied aborted) :
    Step pred s (.acted t)
      ((s.set w { s.waits w with timer := .collected aborted }).go t (.waiting w (.clear rc)))
  | clear (t : T) (w : W) (rc : Result) (h : s.place t = .waiting w (.clear rc)) :
    Step pred s (.acted t)
      ((s.set w { s.waits w with sig := false }).go t (.waiting w (.delete rc)))
  | delete (t : T) (w : W) (rc : Result) (h : s.place t = .waiting w (.delete rc)) :
    Step pred s (.acted t) (s.go t (.waiting w (.ret rc)))
  | ret (t : T) (w : W) (rc : Result) (h : s.place t = .waiting w (.ret rc)) :
    Step pred s (.returned t w rc) (s.go t (.holding true))
  /-- `timer.device`: the time is up, or the request was aborted -/
  | reply (w : W) (aborting aborted : Bool) (h : (s.waits w).timer = .outstanding aborting)
    (ha : aborted = true → aborting = true) :
    Step pred s (.replied w)
      (s.set w { s.waits w with timer := .replied aborted, sig := true })

namespace State

variable (s : State T W σ) (t t' : T) (p : Place W) (w w' : W) (x : Wait)

omit [DecidableEq W] in
@[simp] theorem go_place : (s.go t p).place t' = if t' = t then p else s.place t' :=
  Function.update_apply s.place t p t'

omit [DecidableEq W] in
@[simp] theorem go_waits : (s.go t p).waits = s.waits := rfl

omit [DecidableEq W] in
@[simp] theorem go_waiters : (s.go t p).waiters = s.waiters := rfl

omit [DecidableEq W] in
@[simp] theorem go_owner : (s.go t p).owner = s.owner := rfl

omit [DecidableEq W] in
@[simp] theorem go_shared : (s.go t p).shared = s.shared := rfl

omit [DecidableEq T] in
@[simp] theorem set_waits : (s.set w x).waits w' = if w' = w then x else s.waits w' :=
  Function.update_apply s.waits w x w'

omit [DecidableEq T] in
@[simp] theorem set_place : (s.set w x).place = s.place := rfl

omit [DecidableEq T] in
@[simp] theorem set_waiters : (s.set w x).waiters = s.waiters := rfl

omit [DecidableEq T] in
@[simp] theorem set_owner : (s.set w x).owner = s.owner := rfl

omit [DecidableEq T] in
@[simp] theorem set_shared : (s.set w x).shared = s.shared := rfl

end State

end Steps

end Waitq
