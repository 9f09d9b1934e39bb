import Emu68Common.Machinery.Held
import Mathlib.Data.BitVec

/-!
# Timer/Lifecycle — what a timer has of Exec's, from its opening to its closing

A `struct drv_timer` stands for a port, a request and an open device, each of which Exec may refuse;
the request is the timer's while it is idle and the device's while it is sent.  Every function of
the timer trades what the timer has for what it has afterwards (`Op.trades`), so any number of
timers, in any run of calls, hold what the open ones have and nothing else (`timers_balanced`).

    closed ──open──▸ idle ──arm──▸ sent ──consume, cancel──▸ idle ──close──▸ closed
-/

namespace DrvTimer

open Machinery

/-! ## Exec -/

/-- **What Exec hands out**, by its address: a message port, a request that is idle, one that is
sent, and the device that a request has open. -/
inductive Res where
  | port (p : ℕ)
  | request (r : ℕ)
  | sent (r : ℕ)
  | device (r : ℕ)
  deriving DecidableEq, Repr

def createMsgPort : Call Res ℕ := do
  let port ← ask
  if port = 0 then return 0
  take (.port port)
  return port

def deleteMsgPort (port : ℕ) : Call Res Unit := give (.port port)

def createIORequest (port : ℕ) : Call Res ℕ := do
  need (.port port)
  let req ← ask
  if req = 0 then return 0
  take (.request req)
  return req

def deleteIORequest (req : ℕ) : Call Res Unit := give (.request req)

/-- `OpenDevice`: zero is success. -/
def openDevice (req : ℕ) : Call Res ℕ := do
  need (.request req)
  let error ← ask
  if error = 0 then
    take (.device req)
    return 0
  return error

def closeDevice (req : ℕ) : Call Res Unit := do
  need (.request req)
  give (.device req)

/-- `tr_time`. -/
structure Timeval where
  tvSecs : BitVec 32
  tvMicro : BitVec 32
  deriving DecidableEq, Repr

def sendIO (req : ℕ) (_trTime : Timeval) : Call Res Unit := do
  need (.device req)
  give (.request req)
  take (.sent req)

def doIO (req : ℕ) (_trTime : Timeval) : Call Res Unit := do
  need (.device req)
  need (.request req)

/-- `CheckIO`: whether the reply is there. -/
def checkIO (req : ℕ) : Call Res Bool := do
  need (.sent req)
  return (← ask) != 0

def abortIO (req : ℕ) : Call Res Unit := do
  need (.device req)
  need (.sent req)

def waitIO (req : ℕ) : Call Res Unit := do
  give (.sent req)
  take (.request req)

/-- `Wait`: the signals that are there. -/
def wait (mask : BitVec 32) : Call Res (BitVec 32) := do
  return BitVec.ofNat 32 (← ask) &&& mask

/-! ## The timer -/

/-- `struct drv_timer`; zero is no port, and no request. -/
structure DrvTimerRecord where
  sysBase : ℕ
  port : ℕ
  req : ℕ
  deriving DecidableEq, Repr

def drvTimerOpen (SysBase : ℕ) : Call Res (Bool × DrvTimerRecord) := do
  let port ← createMsgPort
  if port = 0 then return (false, ⟨SysBase, port, 0⟩)
  let req ← createIORequest port
  if req = 0 then
    deleteMsgPort port
    return (false, ⟨SysBase, 0, req⟩)
  let error ← openDevice req
  if error ≠ 0 then
    deleteIORequest req
    deleteMsgPort port
    return (false, ⟨SysBase, 0, 0⟩)
  return (true, ⟨SysBase, port, req⟩)

def drvTimerClose (t : DrvTimerRecord) : Call Res DrvTimerRecord := do
  if t.req = 0 then return t
  closeDevice t.req
  deleteIORequest t.req
  deleteMsgPort t.port
  return { t with req := 0, port := 0 }

/-- `drv_timer_load`: the time of the request. -/
def drvTimerLoad (ms : BitVec 32) : Timeval := ⟨ms / 1000, ms % 1000 * 1000⟩

/-- `drv_timer_sigmask`, which looks into the port. -/
def drvTimerSigmask (t : DrvTimerRecord) : Call Res (BitVec 32) := do
  if t.port = 0 then return 0
  need (.port t.port)
  return BitVec.twoPow 32 (← ask)

def drvTimerSleepMs (t : DrvTimerRecord) (ms : BitVec 32) : Call Res Unit := do
  if t.req = 0 ∨ ms = 0 then return ()
  doIO t.req (drvTimerLoad ms)

def drvTimerArmMs (t : DrvTimerRecord) (ms : BitVec 32) : Call Res Unit := do
  if t.req = 0 then return ()
  sendIO t.req (drvTimerLoad ms)

/-- `drv_timer_consume`, and whether there was a reply. -/
def drvTimerConsume (t : DrvTimerRecord) : Call Res Bool := do
  if t.req = 0 then return false
  if ← checkIO t.req then
    waitIO t.req
    return true
  return false

def drvTimerCancel (t : DrvTimerRecord) : Call Res Unit := do
  if t.req = 0 then return ()
  abortIO t.req
  waitIO t.req
  let _ ← drvTimerSigmask t

def drvTimerWait (t : DrvTimerRecord) (mask ms : BitVec 32) : Call Res (BitVec 32) := do
  if t.req = 0 then return 0
  drvTimerArmMs t (if ms ≠ 0 then ms else 1)
  let seen ← wait (mask ||| (← drvTimerSigmask t))
  drvTimerCancel t
  return seen &&& mask

/-! ## Calls -/

/-- A timer, and whether its request is sent. -/
structure Handle where
  t : DrvTimerRecord
  armed : Bool
  deriving DecidableEq, Repr

/-- **What a timer has.** -/
def Handle.owns (o : Handle) : Multiset Res :=
  if o.t.req = 0 then 0
  else {.device o.t.req, if o.armed then .sent o.t.req else .request o.t.req, .port o.t.port}

/-- The calls. -/
inductive Op where
  | opens (SysBase : ℕ)
  | closes
  | sleeps (ms : BitVec 32)
  | arms (ms : BitVec 32)
  | consumes
  | cancels
  | waits (mask ms : BitVec 32)

/-- A call, and what it makes of the timer. -/
def Op.exec (o : Handle) : Op → Call Res Handle
  | .opens SysBase => do return ⟨(← drvTimerOpen SysBase).2, false⟩
  | .closes => do return ⟨← drvTimerClose o.t, false⟩
  | .sleeps ms => do
    drvTimerSleepMs o.t ms
    return o
  | .arms ms => do
    drvTimerArmMs o.t ms
    return { o with armed := o.t.req != 0 }
  | .consumes => do
    let taken ← drvTimerConsume o.t
    return { o with armed := o.armed && !taken }
  | .cancels => do
    drvTimerCancel o.t
    return { o with armed := false }
  | .waits mask ms => do
    let _ ← drvTimerWait o.t mask ms
    return o

/-- **When a call may be made.**  A timer is opened that is not open; where its opening failed every
other call may be made; a request is armed that is idle, and collected that is sent. -/
def Op.Legal (o : Handle) : Op → Prop
  | .opens _ => o.t.req = 0
  | .closes | .sleeps _ | .arms _ | .waits _ _ => o.t.req = 0 ∨ o.armed = false
  | .consumes | .cancels => o.t.req = 0 ∨ o.armed = true

/-! ## Exec's trades -/

section Exec

variable {pre : Multiset Res} {port req : ℕ} {time : Timeval}

theorem createMsgPort_trades (pre : Multiset Res) :
    Trades pre createMsgPort fun p own => own = if p = 0 then pre else .port p ::ₘ pre := by
  refine Trades.ask_bind fun port => ?_
  split
  · exact .pure (if_pos rfl).symm
  · next hport => exact .take_bind (.pure (if_neg hport).symm)

theorem createIORequest_trades (h : .port port ∈ pre) :
    Trades pre (createIORequest port) fun r own =>
      own = if r = 0 then pre else .request r ::ₘ pre := by
  refine Trades.need_bind h (Trades.ask_bind fun req => ?_)
  split
  · exact .pure (if_pos rfl).symm
  · next hreq => exact .take_bind (.pure (if_neg hreq).symm)

theorem openDevice_trades (h : .request req ∈ pre) :
    Trades pre (openDevice req) fun error own =>
      own = if error = 0 then .device req ::ₘ pre else pre := by
  refine Trades.need_bind h (Trades.ask_bind fun error => ?_)
  split
  · exact .take_bind (.pure (if_pos rfl).symm)
  · next herror => exact .pure (if_neg herror).symm

theorem closeDevice_trades (h : .request req ∈ pre) (hd : .device req ∈ pre) :
    Trades pre (closeDevice req) fun _ own => own = pre.erase (.device req) :=
  Trades.need_bind h (.give hd)

theorem sendIO_trades (hd : .device req ∈ pre) (h : .request req ∈ pre) :
    Trades pre ( sendIO req time) fun _ own => own = .sent req ::ₘ pre.erase (.request req) :=
  Trades.need_bind hd (.give_bind h (.take _))

theorem doIO_trades (hd : .device req ∈ pre) (h : .request req ∈ pre) :
    Trades pre ( doIO req time) fun _ own => own = pre :=
  Trades.need_bind hd (.need h)

theorem checkIO_trades (h : .sent req ∈ pre) : Trades pre ( checkIO req) fun _ own => own = pre :=
  Trades.need_bind h (Trades.ask_bind fun _ => .pure rfl)

theorem abortIO_trades (hd : .device req ∈ pre) (h : .sent req ∈ pre) :
    Trades pre ( abortIO req) fun _ own => own = pre :=
  Trades.need_bind hd (.need h)

theorem waitIO_trades (h : .sent req ∈ pre) :
    Trades pre ( waitIO req) fun _ own => own = .request req ::ₘ pre.erase (.sent req) :=
  Trades.give_bind h (.take _)

theorem wait_trades (pre : Multiset Res) (mask : BitVec 32) :
    Trades pre (wait mask) fun _ own => own = pre :=
  Trades.ask_bind fun _ => .pure rfl

theorem sigmask_trades {t : DrvTimerRecord} (h : t.port ≠ 0 → .port t.port ∈ pre) :
    Trades pre (drvTimerSigmask t) fun _ own => own = pre := by
  rw [drvTimerSigmask]
  split
  · exact .pure rfl
  · next hport => exact .need_bind (h hport) (.ask_bind fun _ => .pure rfl)

end Exec

/-! ## The timer's trades -/

section Trade

variable {t : DrvTimerRecord} {ms mask : BitVec 32}

theorem owns_of_closed {o : Handle} (h : o.t.req = 0) : o.owns = 0 := if_pos h

/-- A timer that is not open has nothing, whichever way its flag stands. -/
theorem owns_eq_of_closed (h : t.req = 0) (a b : Bool) :
    Handle.owns ⟨t, a⟩ = Handle.owns ⟨t, b⟩ := (owns_of_closed h).trans (owns_of_closed h).symm

theorem owns_idle (h : t.req ≠ 0) :
    Handle.owns ⟨t, false⟩ = {.device t.req, .request t.req, .port t.port} := if_neg h

theorem owns_sent (h : t.req ≠ 0) :
    Handle.owns ⟨t, true⟩ = {.device t.req, .sent t.req, .port t.port} := if_neg h

/-- **Opening a timer**: all three things, or none and nothing to close. -/
theorem open_trades (SysBase : ℕ) : Trades 0 (drvTimerOpen SysBase) fun r own =>
    own = Handle.owns ⟨r.2, false⟩ ∧ (r.1 = true ↔ r.2.req ≠ 0) := by
  refine (createMsgPort_trades 0).bind fun port own hown => ?_
  split
  · next hport =>
    subst hown
    rw [if_pos hport]
    exact .pure ⟨rfl, iff_of_false Bool.false_ne_true (fun h => h rfl)⟩
  · next hport =>
    obtain rfl : own = {.port port} := hown.trans (if_neg hport)
    refine (createIORequest_trades (Multiset.mem_singleton_self _)).bind fun req own hown => ?_
    split
    · next hreq =>
      obtain rfl : own = {.port port} := hown.trans (if_pos hreq)
      refine .give_bind (Multiset.mem_singleton_self _) (.pure ⟨?_, ?_⟩)
      · rw [owns_of_closed hreq]
        exact Multiset.erase_singleton _
      · exact iff_of_false Bool.false_ne_true (fun h => h hreq)
    · next hreq =>
      obtain rfl : own = {.request req, .port port} := hown.trans (if_neg hreq)
      refine (openDevice_trades (Multiset.mem_cons_self _ _)).bind fun error own hown => ?_
      split
      · next herror =>
        obtain rfl : own = {.request req, .port port} := hown.trans (if_neg herror)
        refine .give_bind (Multiset.mem_cons_self _ _) ?_
        rw [Multiset.insert_eq_cons, Multiset.erase_cons_head]
        refine .give_bind (Multiset.mem_singleton_self _) (.pure ⟨?_, ?_⟩)
        · exact Multiset.erase_singleton _
        · exact iff_of_false Bool.false_ne_true (fun h => h rfl)
      · next herror =>
        have hzero : error = 0 := of_not_not herror
        obtain rfl : own = {.device req, .request req, .port port} := hown.trans (if_pos hzero)
        exact .pure ⟨(owns_idle (t := ⟨SysBase, port, req⟩) hreq).symm, iff_of_true rfl hreq⟩

/-- The second of three is gone. -/
theorem erase_second {a b : Res} {own : Multiset Res} (h : a ≠ b) :
    (a ::ₘ b ::ₘ own).erase b = a ::ₘ own := by
  rw [Multiset.erase_cons_tail _ h, Multiset.erase_cons_head]

/-- **Closing an idle timer gives everything back.** -/
theorem close_trades (t : DrvTimerRecord) : Trades (Handle.owns ⟨t, false⟩) (drvTimerClose t)
    fun t' own => own = Handle.owns ⟨t', false⟩ ∧ t'.req = 0 := by
  rw [drvTimerClose]
  split
  · next hreq => exact .pure ⟨rfl, hreq⟩
  · next hreq =>
    rw [owns_idle hreq]
    refine (closeDevice_trades (by simp) (by simp)).bind fun _ own hown => ?_
    obtain rfl : own = {.request t.req, .port t.port} := hown.trans (Multiset.erase_cons_head _ _)
    refine .give_bind (Multiset.mem_cons_self _ _) ?_
    rw [Multiset.insert_eq_cons, Multiset.erase_cons_head]
    exact .give_bind (Multiset.mem_singleton_self _) (.pure ⟨Multiset.erase_singleton _, rfl⟩)

theorem sleep_trades (t : DrvTimerRecord) (ms : BitVec 32) :
    Trades (Handle.owns ⟨t, false⟩) (drvTimerSleepMs t ms) fun _ own =>
      own = Handle.owns ⟨t, false⟩ := by
  rw [drvTimerSleepMs]
  split
  · exact .pure rfl
  · next h =>
    rw [owns_idle (not_or.mp h).1]
    exact doIO_trades (by simp) (by simp)

/-- **Arming a timer sends its request.** -/
theorem arm_trades (t : DrvTimerRecord) (ms : BitVec 32) :
    Trades (Handle.owns ⟨t, false⟩) (drvTimerArmMs t ms) fun _ own =>
      own = Handle.owns ⟨t, true⟩ := by
  rw [drvTimerArmMs]
  split
  · next hreq => exact .pure (owns_eq_of_closed hreq _ _)
  · next hreq =>
    rw [owns_idle hreq, owns_sent hreq]
    refine (sendIO_trades (by simp) (by simp)).mono fun _ own hown => ?_
    rw [hown, Multiset.insert_eq_cons, Multiset.insert_eq_cons, erase_second Res.noConfusion]
    exact Multiset.cons_swap _ _ _

/-- The reply collected, the request is the timer's again. -/
theorem collect_trades (h : t.req ≠ 0) :
    Trades (Handle.owns ⟨t, true⟩) ( waitIO t.req) fun _ own => own = Handle.owns ⟨t, false⟩ := by
  rw [owns_sent h, owns_idle h]
  refine (waitIO_trades (by simp)).mono fun _ own hown => ?_
  rw [hown, Multiset.insert_eq_cons, Multiset.insert_eq_cons, erase_second Res.noConfusion]
  exact Multiset.cons_swap _ _ _

theorem consume_trades (t : DrvTimerRecord) :
    Trades (Handle.owns ⟨t, true⟩) (drvTimerConsume t) fun taken own =>
      own = Handle.owns ⟨t, !taken⟩ := by
  rw [drvTimerConsume]
  split
  · next hreq => exact .pure rfl
  · next hreq =>
    refine (checkIO_trades (owns_sent hreq ▸ by simp)).bind fun there own hown => ?_
    subst hown
    split
    · exact (collect_trades hreq).bind fun _ own hown => .pure hown
    · exact .pure rfl

/-- **Cancelling collects the request**, whatever had become of it. -/
theorem cancel_trades (t : DrvTimerRecord) :
    Trades (Handle.owns ⟨t, true⟩) (drvTimerCancel t) fun _ own =>
      own = Handle.owns ⟨t, false⟩ := by
  rw [drvTimerCancel]
  split
  · next hreq => exact .pure (owns_eq_of_closed hreq _ _)
  · next hreq =>
    have hin := owns_sent hreq
    refine (abortIO_trades (hin ▸ by simp) (hin ▸ by simp)).bind fun _ own hown => ?_
    subst hown
    refine (collect_trades hreq).bind fun _ own hown => ?_
    subst hown
    exact (sigmask_trades fun _ => owns_idle hreq ▸ by simp).bind fun _ own hown => .pure hown

theorem wait_timer_trades (t : DrvTimerRecord) (mask ms : BitVec 32) :
    Trades (Handle.owns ⟨t, false⟩) (drvTimerWait t mask ms) fun _ own =>
      own = Handle.owns ⟨t, false⟩ := by
  rw [drvTimerWait]
  split
  · exact .pure rfl
  · next hreq =>
    refine (arm_trades t _).bind fun _ own hown => ?_
    subst hown
    refine (sigmask_trades fun _ => ?_).bind fun _ own hown => ?_
    · rw [owns_sent hreq]
      simp
    · subst hown
      refine (wait_trades _ _).bind fun _ own hown => ?_
      subst hown
      exact (cancel_trades t).bind fun _ own hown => .pure hown

/-- **Every call trades what the timer has for what it has afterwards.** -/
theorem Op.trades {o : Handle} {op : Op} (h : op.Legal o) :
    Trades o.owns (op.exec o) fun o' own => own = o'.owns := by
  obtain ⟨t, armed⟩ := o
  have hflag : ∀ a, t.req = 0 ∨ armed = a → Handle.owns ⟨t, armed⟩ = Handle.owns ⟨t, a⟩ := by
    rintro a (hreq | rfl)
    · exact owns_eq_of_closed hreq _ _
    · rfl
  cases op with
  | opens SysBase =>
    rw [owns_of_closed h]
    exact (open_trades SysBase).bind fun _ own hown => .pure hown.1
  | closes =>
    rw [hflag _ h]
    exact (close_trades t).bind fun _ own hown => .pure hown.1
  | sleeps ms =>
    have hsleep := hflag false h ▸ sleep_trades t ms
    exact hsleep.bind fun _ own hown => .pure hown
  | arms ms =>
    rw [hflag _ h]
    refine (arm_trades t ms).bind fun _ own hown => .pure ?_
    by_cases hreq : t.req = 0
    · exact hown.trans (owns_eq_of_closed hreq _ _)
    · rw [hown, bne_iff_ne.mpr hreq]
  | consumes =>
    rw [hflag _ h]
    refine (consume_trades t).bind fun taken own hown => .pure ?_
    rcases h with hreq | rfl
    · exact hown.trans (owns_eq_of_closed hreq _ _)
    · exact hown
  | cancels =>
    rw [hflag _ h]
    exact (cancel_trades t).bind fun _ own hown => .pure hown
  | waits mask ms =>
    have hwait := hflag false h ▸ wait_timer_trades t mask ms
    exact hwait.bind fun _ own hown => .pure hown

end Trade

/-! ## Any number of timers -/

section Pool

variable {ι : Type} [Fintype ι] [DecidableEq ι]

/-- **No timer leaks, and none uses what it has not got**: in every run of calls of any number of
timers, whichever of them Exec refuses, what is held beside what was held before is what the open
timers have; any call that may be made goes through, and once all timers are closed nothing is
left. -/
theorem timers_balanced {p p' : Pool ι Handle Res} (hstart : ∀ i, (p.objs i).t.req = 0)
    (hrun : Relation.ReflTransGen (Pool.Step Op.Legal Op.exec) p p') :
    p'.world.held = ∑ i, (p'.objs i).owns + p.world.held ∧
      (∀ i (op : Op), op.Legal (p'.objs i) → ∃ o w, op.exec (p'.objs i) p'.world = some (o, w)) ∧
      ((∀ i, (p'.objs i).t.req = 0) → p'.world.held = p.world.held) := by
  have hnone : ∀ q : Pool ι Handle Res, (∀ i, (q.objs i).t.req = 0) → ∑ i, (q.objs i).owns = 0 :=
    fun q hq => Finset.sum_eq_zero fun i _ => owns_of_closed (hq i)
  have hbefore : Pool.Balanced Handle.owns p.world.held p := by
    rw [Pool.Balanced, hnone p hstart, zero_add]
  have hafter := hbefore.run (fun _ _ => Op.trades) hrun
  refine ⟨hafter, fun i op hlegal => ?_, fun hclosed => ?_⟩
  · obtain ⟨o, w, hexec, -⟩ := hafter.act (Op.trades hlegal)
    exact ⟨o, w, hexec⟩
  · rw [hafter, hnone p' hclosed, zero_add]

end Pool

/-- A timer is opened, armed, cancelled and closed. -/
theorem timers_balanced_once : ∃ p p' : Pool Unit Handle Res,
    Relation.ReflTransGen (Pool.Step Op.Legal Op.exec) p p' ∧ p'.world.held = {.port 1} := by
  let p : Pool Unit Handle Res :=
    ⟨fun _ => ⟨⟨0, 0, 0⟩, false⟩, ⟨{.port 1}, fun n => [2, 3, 0, 5].getD n 0⟩⟩
  have hrun : Relation.ReflTransGen (Pool.Step Op.Legal Op.exec) p p := .refl
  have hrun := hrun.tail ⟨(), .opens 4, _, _, rfl, rfl, rfl⟩
  have hrun := hrun.tail ⟨(), .arms 20, _, _, .inr rfl, rfl, rfl⟩
  have hrun := hrun.tail ⟨(), .cancels, _, _, .inr rfl, rfl, rfl⟩
  have hrun := hrun.tail ⟨(), .closes, _, _, .inr rfl, rfl, rfl⟩
  obtain ⟨-, -, hnothing⟩ := timers_balanced (fun _ => rfl) hrun
  exact ⟨_, _, hrun, hnothing fun _ => rfl⟩

end DrvTimer
