import Emu68Common.Machinery.History
import Emu68Common.Waitq.Queue

/-!
# Timer/Device — an open timer and the task that waits on it, line by line

One request, one reply port, one signal bit.  A reply puts the request on the port and sets the
bit; `DoIO` and `WaitIO` take a reply that is there and leave the bit alone; only `Wait`, theirs
while the reply is not there and the task's own, and `SetSignal` clear it.  The device replies
whenever it likes, at once if the request is aborted or later, and other tasks send signals of their
own at any time.

    drv_timer_sleep_ms   .idle ▸ .doIo ▸ .idle
    drv_timer_cancel     .idle ▸ .abort none ▸ .waitIo none ▸ .clear none ▸ .idle
    drv_timer_wait       .idle ▸ .wait mask ▸ .abort seen ▸ .waitIo seen ▸ .clear seen ▸ .idle
-/

namespace DrvTimer

open Waitq (Timer)

/-- The lines of the timer's functions. -/
inductive Place where
  /-- in none of them -/
  | idle
  /-- `DoIO`, the request sent -/
  | doIo
  /-- `Wait(mask | drv_timer_sigmask(t))` -/
  | wait (mask : BitVec 32)
  /-- `AbortIO`; `drv_timer_wait` keeps what it has seen -/
  | abort (seen : Option (BitVec 32))
  /-- `WaitIO` -/
  | waitIo (seen : Option (BitVec 32))
  /-- `SetSignal` -/
  | clear (seen : Option (BitVec 32))
  deriving DecidableEq, Repr

/-- The task and its timer. -/
structure State where
  /-- `tc_SigRecvd` -/
  sigRecvd : BitVec 32
  /-- `t->req` -/
  request : Timer
  place : Place
  deriving DecidableEq, Repr

/-- What a step was. -/
inductive Event where
  | acted
  /-- `drv_timer_wait` was called -/
  | called (mask : BitVec 32)
  /-- `drv_timer_wait` returned these signals -/
  | waited (seen : BitVec 32)
  | replied
  | signalled
  deriving DecidableEq, Repr

/-- No request is in flight: none was sent, or its reply was collected. -/
def Free : Timer → Bool
  | .unsent | .collected _ => true
  | .outstanding _ | .replied _ => false

/-- `drv_timer_sigmask`, for the port's signal bit. -/
def sigmask (bit : Fin 32) : BitVec 32 := 1#32 <<< bit.val

/-- The port's signal is there. -/
def State.fired (s : State) (bit : Fin 32) : Bool := s.sigRecvd.getLsbD bit

/-- A fresh timer. -/
def Start (s : State) : Prop := s.request = .unsent ∧ s.place = .idle

/-- **One step** of the task, of the device, or of a task that signals this one.  The task sleeps,
arms and waits only with no request in flight, and consumes and cancels only one that is. -/
inductive Step (bit : Fin 32) (s : State) : Event → State → Prop where
  /-- `drv_timer_sleep_ms`; nothing happens for zero milliseconds -/
  | sleep (ms : BitVec 32) (h : s.place = .idle) (hf : Free s.request = true) :
    Step bit s .acted
      (if ms = 0 then s else { s with request := .outstanding false, place := .doIo })
  /-- `DoIO` wakes up and finds the reply not there yet -/
  | doIoAgain (h : s.place = .doIo) (hs : s.fired bit = true) (hd : s.request.done = false) :
    Step bit s .acted { s with sigRecvd := s.sigRecvd &&& ~~~sigmask bit }
  /-- …and finds it there -/
  | doIoWoken (aborted : Bool) (h : s.place = .doIo) (hs : s.fired bit = true)
    (hr : s.request = .replied aborted) :
    Step bit s .acted
      { s with
        sigRecvd := s.sigRecvd &&& ~~~sigmask bit
        request := .collected aborted
        place := .idle }
  /-- the reply was there before `DoIO` looked, so that it did not `Wait` -/
  | doIo (aborted : Bool) (h : s.place = .doIo) (hr : s.request = .replied aborted) :
    Step bit s .acted { s with request := .collected aborted, place := .idle }
  /-- `drv_timer_arm_ms` -/
  | arm (h : s.place = .idle) (hf : Free s.request = true) :
    Step bit s .acted { s with request := .outstanding false }
  /-- `drv_timer_consume`, the reply not there -/
  | consumeNone (h : s.place = .idle) (hf : Free s.request = false)
    (hd : s.request.done = false) : Step bit s .acted s
  /-- `drv_timer_consume`, the reply there -/
  | consume (aborted : Bool) (h : s.place = .idle) (hr : s.request = .replied aborted) :
    Step bit s .acted { s with request := .collected aborted }
  /-- `drv_timer_cancel` -/
  | cancel (h : s.place = .idle) (hf : Free s.request = false) :
    Step bit s .acted { s with place := .abort none }
  /-- `drv_timer_wait`, which arms the timer -/
  | call (mask : BitVec 32) (h : s.place = .idle) (hf : Free s.request = true)
    (hm : mask &&& sigmask bit = 0) :
    Step bit s (.called mask) { s with request := .outstanding false, place := .wait mask }
  | wake (mask : BitVec 32) (h : s.place = .wait mask)
    (hs : s.sigRecvd &&& (mask ||| sigmask bit) ≠ 0) :
    Step bit s .acted
      { s with
        sigRecvd := s.sigRecvd &&& ~~~(mask ||| sigmask bit)
        place := .abort (some (s.sigRecvd &&& (mask ||| sigmask bit) &&& mask)) }
  | abort (seen : Option (BitVec 32)) (h : s.place = .abort seen) :
    Step bit s .acted
      { s with
        request := if s.request.done then s.request else .outstanding true
        place := .waitIo seen }
  /-- `WaitIO` wakes up and finds the reply not there yet -/
  | waitIoAgain (seen : Option (BitVec 32)) (h : s.place = .waitIo seen)
    (hs : s.fired bit = true) (hd : s.request.done = false) :
    Step bit s .acted { s with sigRecvd := s.sigRecvd &&& ~~~sigmask bit }
  /-- …and finds it there -/
  | waitIoWoken (seen : Option (BitVec 32)) (aborted : Bool) (h : s.place = .waitIo seen)
    (hs : s.fired bit = true) (hr : s.request = .replied aborted) :
    Step bit s .acted
      { s with
        sigRecvd := s.sigRecvd &&& ~~~sigmask bit
        request := .collected aborted
        place := .clear seen }
  | waitIo (seen : Option (BitVec 32)) (aborted : Bool) (h : s.place = .waitIo seen)
    (hr : s.request = .replied aborted) :
    Step bit s .acted { s with request := .collected aborted, place := .clear seen }
  /-- `SetSignal`, and `drv_timer_cancel` returns -/
  | cleared (h : s.place = .clear none) :
    Step bit s .acted { s with sigRecvd := s.sigRecvd &&& ~~~sigmask bit, place := .idle }
  /-- `SetSignal`, and `drv_timer_wait` returns what it has seen -/
  | returned (seen : BitVec 32) (h : s.place = .clear (some seen)) :
    Step bit s (.waited seen)
      { s with sigRecvd := s.sigRecvd &&& ~~~sigmask bit, place := .idle }
  /-- the task waits for itself, or clears signals -/
  | ownWait (m : BitVec 32) (h : s.place = .idle) :
    Step bit s .acted { s with sigRecvd := s.sigRecvd &&& ~~~m }
  /-- `timer.device`: the time is up, or the request was aborted -/
  | reply (aborting aborted : Bool) (h : s.request = .outstanding aborting)
    (ha : aborted = true → aborting = true) :
    Step bit s .replied
      { s with request := .replied aborted, sigRecvd := s.sigRecvd ||| sigmask bit }
  /-- another task's signals; the port's bit is this task's own -/
  | signal (m : BitVec 32) (hm : m.getLsbD bit = false) :
    Step bit s .signalled { s with sigRecvd := s.sigRecvd ||| m }

/-! ## The port's bit -/

section Bits

variable (r m : BitVec 32) (bit : Fin 32)

@[simp] theorem getLsbD_sigmask (i : ℕ) : (sigmask bit).getLsbD i = decide (bit.val = i) := by
  rw [sigmask, ← BitVec.twoPow_eq, BitVec.getLsbD_twoPow, decide_eq_true bit.isLt, Bool.true_and]

/-- **Clearing the port's signal clears it.** -/
theorem fired_clear : (r &&& ~~~sigmask bit).getLsbD bit = false := by
  simp

/-- Other signals do not touch it. -/
theorem fired_or (h : m.getLsbD bit = false) : (r ||| m).getLsbD bit = r.getLsbD bit := by
  rw [BitVec.getLsbD_or, h, Bool.or_false]

/-- **What `Wait` returns**, cut down to the caller's mask. -/
theorem seen_eq (mask t : BitVec 32) : r &&& (mask ||| t) &&& mask = r &&& mask := by
  ext i hi
  simp only [BitVec.getElem_and, BitVec.getElem_or]
  cases r[i] <;> cases mask[i] <;> simp

/-- **A wait that ends with nothing of its mask** ends with the port's signal. -/
theorem fired_of_seen_eq_zero (mask : BitVec 32) (hs : r &&& (mask ||| sigmask bit) ≠ 0)
    (h0 : r &&& (mask ||| sigmask bit) &&& mask = 0) : r.getLsbD bit = true := by
  rw [seen_eq] at h0
  refine (Bool.eq_false_or_eq_true _).resolve_right fun hf => hs ?_
  refine BitVec.eq_of_getLsbD_eq fun i hi => ?_
  have hz : (0 : BitVec 32).getLsbD i = false := BitVec.getLsbD_zero
  have hi0 : (r.getLsbD i && mask.getLsbD i) = false := by
    rw [← BitVec.getLsbD_and, h0, hz]
  rw [BitVec.getLsbD_and, BitVec.getLsbD_or, getLsbD_sigmask, Bool.and_or_distrib_left, hi0,
    Bool.false_or, hz]
  by_cases heq : bit.val = i
  · rw [← heq, hf, Bool.false_and]
  · rw [decide_eq_false heq, Bool.and_false]

end Bits

end DrvTimer
