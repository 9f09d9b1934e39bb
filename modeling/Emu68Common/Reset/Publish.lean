import Emu68Common.Reset.Chain

/-!
# Reset/Publish — an install seen line by line

An install takes neither `Forbid` nor `Disable`, so a keyboard reset or another task's
`ColdReboot()` can come between any two of its lines.  Each hook is live from one line on
(`.sendAdd`, once the device has the request, and `.setFunction`), and what it uses is set up on
others.  `Published` says that the data is there whenever the hook is; it survives exactly the
installs that fail before anything is live (`published_iff`).

    … .handler ▸ .sendAdd ▸ .pollAdd ▸ .testAdd ▸ .doneReplyPort ▸ … ▸ .doneData ▸ .allocMem ▸
      .words ▸ .trampoline ▸ .setFunction ▸ .oldColdReboot ▸ .returned true
-/

namespace Reset

open Machinery

/-! ## Lines -/

/-- The lines of `reset_guard_install`, those of `reset_guard_do_command` and the undoing
included. -/
inductive Line where
  | clear | fields | port | addRequest | openDevice | deviceOpen | handler
  | sendAdd | pollAdd | testAdd | closeAdd
  | doneReplyPort | doneLength | doneDevice | doneUnit | doneCommand | doneData
  | allocMem | sendRem | closeRem
  | words | trampoline | setFunction | oldColdReboot
  | returned (ok : Bool)
  deriving DecidableEq, Repr

/-- An install under way, and the hooks called meanwhile. -/
structure Installing where
  line : Line
  world : World
  /-- what `SetFunction` returned, before it is stored -/
  result : Addr
  /-- `CheckIO` would find the request done -/
  replied : Bool
  /-- calls of the keyboard handler that have not sent their request yet -/
  handlerCalls : ℕ
  /-- calls of the ColdReboot entry that have not jumped yet -/
  entryCalls : ℕ

section Lines

variable (entry rg : Addr) (args : Args) (r : Replies)

/-- The guard being installed, rewritten. -/
def World.modify (w : World) (f : Guard → Guard) : World := w.setGuard rg (f (w.guards rg))

/-- A line that only writes the guard. -/
def Installing.write (s : Installing) (next : Line) (f : Guard → Guard) : Installing :=
  { s with line := next, world := s.world.modify rg f }

/-- **One line of the install.**  Nothing is left to do once it has returned. -/
def installLine (s : Installing) : Option Installing :=
  match s.line with
  | .clear => some (s.write rg .fields fun _ => Guard.blank)
  | .fields => some (s.write rg .port fun g => { g with
      sysBase := args.sysBase, prepare := args.prepare, user := args.user, name := args.name })
  | .port => some (s.write rg .addRequest fun g => { g with port := true })
  | .addRequest => some (s.write rg .openDevice fun g => { g with
      addIo := { g.addIo with replyPort := rg, length := true } })
  | .openDevice =>
    match r.openDevice with
    | none => some { s with line := .returned false }
    | some (device, unit) =>
      let opened := s.write rg .deviceOpen fun g => { g with
        addIo := { g.addIo with device := device, unit := unit } }
      some { opened with world := { opened.world with opens := opened.world.opens + 1 } }
  | .deviceOpen => some (s.write rg .handler fun g => { g with deviceOpen := true })
  | .handler => some (s.write rg .sendAdd fun g => { g with handler := rg })
  | .sendAdd => some (s.write rg .pollAdd fun g => { g with
      addIo := { g.addIo with command := .addResetHandler, data := rg } })
  | .pollAdd => if s.replied then some { s with line := .testAdd } else some s
  | .testAdd =>
    some { s with line := if r.addResetHandler then .doneReplyPort else .closeAdd }
  | .closeAdd => some { s with line := .returned false, world := s.world.closeDevice rg }
  | .doneReplyPort => some (s.write rg .doneLength fun g => { g with
      doneIo := { g.doneIo with replyPort := rg } })
  | .doneLength => some (s.write rg .doneDevice fun g => { g with
      doneIo := { g.doneIo with length := true } })
  | .doneDevice => some (s.write rg .doneUnit fun g => { g with
      doneIo := { g.doneIo with device := g.addIo.device } })
  | .doneUnit => some (s.write rg .doneCommand fun g => { g with
      doneIo := { g.doneIo with unit := g.addIo.unit } })
  | .doneCommand => some (s.write rg .doneData fun g => { g with
      doneIo := { g.doneIo with command := .resetHandlerDone } })
  | .doneData => some (s.write rg .allocMem fun g => { g with
      doneIo := { g.doneIo with data := rg } })
  | .allocMem => some { s with line := if r.allocMem = 0 then .sendRem else .words }
  | .sendRem => some { s with line := .closeRem, world := s.world.remResetHandler rg }
  | .closeRem => some { s with line := .returned false, world := s.world.closeDevice rg }
  | .words => some { s with
      line := .trampoline
      world := { s.world with
        blocks := Function.update s.world.blocks r.allocMem (some (trampolineWords entry rg)) } }
  | .trampoline => some (s.write rg .setFunction fun g => { g with trampoline := r.allocMem })
  | .setFunction => some { s with
      line := .oldColdReboot, result := s.world.vector
      world := { s.world with vector := r.allocMem } }
  | .oldColdReboot =>
    some (s.write rg (.returned true) fun g => { g with oldColdReboot := s.result })
  | .returned _ => none

/-- `keyboard.device` gets to the request: the handler is registered, unless it fails. -/
def deviceReplies (s : Installing) : Installing :=
  { s with
    replied := true
    world := { s.world with
      handlers := if r.addResetHandler then Function.update s.world.handlers rg true
        else s.world.handlers } }

/-! ## Everything that can come in between -/

/-- The ColdReboot vector leads through a trampoline of this guard. -/
def LeadsThrough (w : World) : Prop :=
  ∃ a, OnPath (w.next entry) w.vector a ∧ w.blocks a = some (trampolineWords entry rg)

/-- What a step of an install under way was. -/
inductive Happening where
  | line
  | device
  | handlerCalled
  | handlerSent (io : IoRequest)
  | entryCalled
  | entryJumped (a : Addr)
  deriving DecidableEq, Repr

/-- **One step**: the install, the device, or one of the two hooks.  A hook that was entered sets
the flag, and some time later uses what it needs. -/
inductive InstallStep : Installing → Happening → Installing → Prop where
  | line {s s' : Installing} (h : installLine entry rg args r s = some s') : InstallStep s .line s'
  | device {s : Installing} (h : s.line = .pollAdd) (hr : s.replied = false) :
    InstallStep s .device (deviceReplies rg r s)
  | handlerCalled {s : Installing} (h : s.world.handlers rg = true) :
    InstallStep s .handlerCalled { s with
      world := s.world.modify rg fun g => { g with prepared := true }
      handlerCalls := s.handlerCalls + 1 }
  | handlerSent {s : Installing} (h : 0 < s.handlerCalls) :
    InstallStep s (.handlerSent (s.world.guards rg).doneIo)
      { s with handlerCalls := s.handlerCalls - 1 }
  | entryCalled {s : Installing} (h : LeadsThrough entry rg s.world) :
    InstallStep s .entryCalled { s with
      world := s.world.modify rg fun g => { g with prepared := true }
      entryCalls := s.entryCalls + 1 }
  | entryJumped {s : Installing} (h : 0 < s.entryCalls) :
    InstallStep s (.entryJumped (s.world.guards rg).oldColdReboot)
      { s with entryCalls := s.entryCalls - 1 }

/-- An install about to begin in a world. -/
def beginInstall (w : World) : Installing := ⟨.clear, w, 0, false, 0, 0⟩

/-- The guard has no hook anywhere yet. -/
structure Unhooked₀ (w : World) : Prop where
  handlers : w.handlers rg = false
  blocks : ∀ a, w.blocks a ≠ some (trampolineWords entry rg)

/-- **The data is there whenever the hook is**: the request of the handler, and the vector of the
trampoline. -/
structure Published (previous : Addr) (w : World) : Prop where
  handler : w.handlers rg = true → ∃ device unit, r.openDevice = some (device, unit)
    ∧ (w.guards rg).doneIo = doneRequest rg device unit
  vector : LeadsThrough entry rg w → (w.guards rg).oldColdReboot = previous

/-- No hook sent or jumped with what it should not have. -/
def Happening.Sound (previous : Addr) : Happening → Prop
  | .handlerSent io => ∃ device unit, r.openDevice = some (device, unit)
    ∧ io = doneRequest rg device unit
  | .entryJumped a => a = previous
  | _ => True

/-! ## The lines are the install -/

/-- The install and the device, with nothing in between. -/
def alone (s : Installing) : Installing :=
  if s.line = .pollAdd ∧ s.replied = false then deviceReplies rg r s
  else (installLine entry rg args r s).getD s

/-- The world once the device is open and the request sent. -/
def openedWorld (w : World) (device unit : Addr) : World :=
  { w.setGuard rg (Guard.adding rg args device unit) with opens := w.opens + 1 }

/-- The world once the handler is registered and its request filled in. -/
def addedWorld (w : World) (device unit : Addr) : World :=
  { w.setGuard rg (Guard.hooking rg args device unit) with
    opens := w.opens + 1, handlers := Function.update w.handlers rg true }

variable {r} in
theorem alone_to_poll (w : World) {device unit : Addr} (h : r.openDevice = some (device, unit)) :
    (alone entry rg args r)^[8] (beginInstall w)
      = ⟨.pollAdd, openedWorld rg args w device unit, 0, false, 0, 0⟩ := by
  simp [alone, installLine, beginInstall, Installing.write, World.modify, openedWorld, h,
    Guard.adding, Guard.opening, Guard.blank, IoRequest.blank]

variable {r} in
theorem alone_to_alloc (w : World) {device unit : Addr} (h : r.addResetHandler = true) :
    (alone entry rg args r)^[9] ⟨.pollAdd, openedWorld rg args w device unit, 0, false, 0, 0⟩
      = ⟨.allocMem, addedWorld rg args w device unit, 0, true, 0, 0⟩ := by
  simp [alone, installLine, Installing.write, World.modify, deviceReplies, openedWorld, addedWorld,
    h, Guard.hooking, doneRequest, Guard.adding, Guard.opening, Guard.blank, IoRequest.blank]

/-- An install that has returned stays as it is. -/
theorem alone_returned {s : Installing} {ok : Bool} (h : s.line = .returned ok) (k : ℕ) :
    (alone entry rg args r)^[k] s = s := by
  refine Function.iterate_fixed ?_ k
  rw [alone, if_neg (by simp [h]), installLine, h]
  rfl

/-- **Run alone, the lines do what `install` does.** -/
theorem install_alone (w : World) :
    ((alone entry rg args r)^[22] (beginInstall w)).world = (install entry w rg args r).1
      ∧ ((alone entry rg args r)^[22] (beginInstall w)).line
        = .returned (install entry w rg args r).2 := by
  cases hopen : r.openDevice with
  | none =>
    have hline : ((alone entry rg args r)^[5] (beginInstall w)).line = .returned false := by
      simp [alone, installLine, beginInstall, Installing.write, World.modify, hopen]
    rw [show 22 = 17 + 5 by rfl, Function.iterate_add_apply, alone_returned entry rg args r hline]
    simp [alone, installLine, beginInstall, install, Installing.write, World.modify, hopen,
      Guard.opening, Guard.blank, IoRequest.blank]
  | some p =>
    obtain ⟨device, unit⟩ := p
    rw [show 22 = 14 + 8 by rfl, Function.iterate_add_apply, alone_to_poll entry rg args w hopen]
    cases hadd : r.addResetHandler with
    | false =>
      simp [alone, installLine, install, deviceReplies, openedWorld, hopen, hadd]
    | true =>
      rw [show 14 = 5 + 9 by rfl, Function.iterate_add_apply, alone_to_alloc entry rg args w hadd]
      by_cases halloc : r.allocMem = 0#32
      · simp [alone, installLine, install, addedWorld, hopen, hadd, halloc]
      · simp [alone, installLine, install, addedWorld, hopen, hadd, halloc, Installing.write,
          World.modify]

/-! ## When the data is there -/

/-- The lines an install gets to without `KBD_ADDRESETHANDLER` having succeeded. -/
def Line.early : Line → Bool
  | .clear | .fields | .port | .addRequest | .openDevice | .deviceOpen | .handler | .sendAdd
  | .pollAdd | .testAdd | .closeAdd | .returned false => true
  | _ => false

/-- The lines past an `OpenDevice` that succeeded. -/
def Line.opened : Line → Bool
  | .deviceOpen | .handler | .sendAdd | .pollAdd | .testAdd => true
  | _ => false

/-- **Nothing is live**: the install is still early, and no hook of the guard was ever reachable. -/
structure Dormant (s : Installing) : Prop where
  early : s.line.early = true
  opened : s.line.opened = true → r.openDevice ≠ none
  unhooked : Unhooked₀ entry rg s.world
  handlerCalls : s.handlerCalls = 0
  entryCalls : s.entryCalls = 0

variable {entry rg args r} {s s' : Installing} {e : Happening} {w : World}

theorem Unhooked₀.not_leadsThrough (h : Unhooked₀ entry rg w) : ¬ LeadsThrough entry rg w :=
  fun ⟨a, _, hb⟩ => h.blocks a hb

/-- Whatever the previous vector was, what is not live has nothing to publish. -/
theorem Unhooked₀.published (h : Unhooked₀ entry rg w) (previous : Addr) :
    Published entry rg r previous w where
  handler hlive := absurd (h.handlers.symm.trans hlive) (by decide)
  vector hlive := absurd hlive h.not_leadsThrough

/-- **An install that is to fail early stays dormant.** -/
theorem Dormant.line (hfail : r.openDevice = none ∨ r.addResetHandler = false)
    (h : Dormant entry rg r s) (hs : installLine entry rg args r s = some s') :
    Dormant entry rg r s' := by
  obtain ⟨line, world, result, replied, handlerCalls, entryCalls⟩ := s
  obtain ⟨hearly, hopened, hun, hh, he⟩ := h
  rw [installLine] at hs
  cases line with
  | openDevice =>
    cases hopen : r.openDevice with
    | none =>
      simp only [hopen, Option.some.injEq] at hs
      exact hs ▸ ⟨rfl, fun h => absurd h Bool.false_ne_true, hun, hh, he⟩
    | some p =>
      simp only [hopen, Option.some.injEq] at hs
      exact hs ▸ ⟨rfl, fun _ => by rw [hopen]; simp, ⟨hun.handlers, hun.blocks⟩, hh, he⟩
  | pollAdd =>
    simp only at hs
    split at hs
    · exact Option.some.inj hs ▸ ⟨rfl, fun _ => hopened rfl, hun, hh, he⟩
    · exact Option.some.inj hs ▸ ⟨rfl, fun _ => hopened rfl, hun, hh, he⟩
  | testAdd =>
    have hadd : r.addResetHandler = false := hfail.resolve_left (hopened rfl)
    simp only [hadd, Bool.false_eq_true, if_false, Option.some.injEq] at hs
    exact hs ▸ ⟨rfl, fun h => absurd h Bool.false_ne_true, hun, hh, he⟩
  | returned ok => simp at hs
  | clear | fields | port | addRequest =>
    exact Option.some.inj hs ▸
      ⟨rfl, fun h => absurd h Bool.false_ne_true, ⟨hun.handlers, hun.blocks⟩, hh, he⟩
  | deviceOpen | handler | sendAdd =>
    exact Option.some.inj hs ▸
      ⟨rfl, fun _ => hopened rfl, ⟨hun.handlers, hun.blocks⟩, hh, he⟩
  | closeAdd =>
    exact Option.some.inj hs ▸
      ⟨rfl, fun h => absurd h Bool.false_ne_true, ⟨hun.handlers, hun.blocks⟩, hh, he⟩
  | doneReplyPort | doneLength | doneDevice | doneUnit | doneCommand | doneData | allocMem
  | sendRem | closeRem | words | trampoline | setFunction | oldColdReboot =>
    exact absurd hearly Bool.false_ne_true

theorem Dormant.next (hfail : r.openDevice = none ∨ r.addResetHandler = false)
    (h : Dormant entry rg r s) (hs : InstallStep entry rg args r s e s') :
    Dormant entry rg r s' ∧ ∀ previous, e.Sound rg r previous := by
  cases hs with
  | line hline => exact ⟨h.line hfail hline, fun _ => trivial⟩
  | device hpoll _ =>
    have hopen := h.opened (by rw [hpoll]; rfl)
    have hadd := hfail.resolve_left hopen
    refine ⟨⟨h.early, h.opened, ⟨?_, h.unhooked.blocks⟩, h.handlerCalls, h.entryCalls⟩,
      fun _ => trivial⟩
    simp only [deviceReplies, hadd, Bool.false_eq_true, if_false]
    exact h.unhooked.handlers
  | handlerCalled hlive => exact absurd (h.unhooked.handlers.symm.trans hlive) (by decide)
  | handlerSent hcalls => exact absurd hcalls (by rw [h.handlerCalls]; exact Nat.lt_irrefl 0)
  | entryCalled hlive => exact absurd hlive h.unhooked.not_leadsThrough
  | entryJumped hcalls => exact absurd hcalls (by rw [h.entryCalls]; exact Nat.lt_irrefl 0)

variable (entry rg args r w) in
/-- The install on its own is one of the runs. -/
theorem history_alone (n : ℕ) :
    ∃ es, History (· = beginInstall w) (InstallStep entry rg args r) es
      ((alone entry rg args r)^[n] (beginInstall w)) := by
  induction n with
  | zero => exact ⟨[], .start rfl⟩
  | succ n ih =>
    obtain ⟨es, h⟩ := ih
    rw [Function.iterate_succ_apply']
    generalize (alone entry rg args r)^[n] (beginInstall w) = s at h
    by_cases hpoll : s.line = .pollAdd ∧ s.replied = false
    · rw [alone, if_pos hpoll]
      exact ⟨_, h.next (.device hpoll.1 hpoll.2)⟩
    · rw [alone, if_neg hpoll]
      cases hline : installLine entry rg args r s with
      | none => exact ⟨es, h⟩
      | some s' => exact ⟨_, h.next (.line hline)⟩

variable (entry rg args w) in
/-- **The handler is live with its request still blank**, as soon as the device has replied. -/
theorem live_before_ready (hopen : r.openDevice ≠ none) (hadd : r.addResetHandler = true) :
    ∃ es s, History (· = beginInstall w) (InstallStep entry rg args r) es s
      ∧ s.world.handlers rg = true ∧ (s.world.guards rg).doneIo = .blank := by
  obtain ⟨es, hs⟩ := history_alone entry rg args r w 9
  obtain ⟨openDevice, addResetHandler, allocMem⟩ := r
  rcases openDevice with _ | ⟨device, unit⟩
  · exact absurd rfl hopen
  subst hadd
  refine ⟨es, _, hs, ?_, ?_⟩
  · simp [alone, installLine, beginInstall, Installing.write, World.modify, deviceReplies]
  · simp [alone, installLine, beginInstall, Installing.write, World.modify, deviceReplies,
      Guard.blank]

/-- **The data is there whenever a hook is, in every run, exactly when the install fails before
anything is live**: `OpenDevice` fails, or `KBD_ADDRESETHANDLER` does. -/
theorem published_iff (hw : Unhooked₀ entry rg w) :
    (∀ es s, History (· = beginInstall w) (InstallStep entry rg args r) es s →
        Published entry rg r w.vector s.world ∧ ∀ e ∈ es, e.Sound rg r w.vector)
      ↔ r.openDevice = none ∨ r.addResetHandler = false := by
  constructor
  · intro hall
    by_contra hno
    rw [not_or] at hno
    obtain ⟨es, s, hs, hlive, hblank⟩ :=
      live_before_ready entry rg args w hno.1 (Bool.eq_true_of_not_eq_false hno.2)
    obtain ⟨device, unit, -, hdone⟩ := (hall es s hs).1.handler hlive
    rw [hblank] at hdone
    exact absurd (congrArg IoRequest.command hdone) (by simp [IoRequest.blank, doneRequest])
  · intro hfail es s hs
    have hinv : Dormant entry rg r s ∧ ∀ e ∈ es, e.Sound rg r w.vector := hs.invariant
      (fun es s => Dormant entry rg r s ∧ ∀ e ∈ es, e.Sound rg r w.vector)
      (fun s h0 => h0 ▸ ⟨⟨rfl, fun h => absurd h Bool.false_ne_true, hw, rfl, rfl⟩,
        fun e he => absurd he List.not_mem_nil⟩)
      fun es s e s' hinv hstep => by
        obtain ⟨hnext, hsound⟩ := hinv.1.next hfail hstep
        refine ⟨hnext, fun e' he' => ?_⟩
        rcases List.mem_cons.mp he' with rfl | hold
        · exact hsound w.vector
        · exact hinv.2 e' hold
    exact ⟨hinv.1.unhooked.published w.vector, hinv.2⟩

theorem unhooked_bare : Unhooked₀ 0xF90000 0x1000 bare := ⟨rfl, fun _ h => by cases h⟩

/-- `keyboard.device` cannot be opened. -/
theorem published_iff_bare :
    (∀ es s, History (· = beginInstall bare)
        (InstallStep 0xF90000 0x1000 ⟨0, 0, 0, 0⟩ ⟨none, true, 0⟩) es s →
        Published 0xF90000 0x1000 ⟨none, true, 0⟩ bare.vector s.world
          ∧ ∀ e ∈ es, e.Sound 0x1000 ⟨none, true, 0⟩ bare.vector)
      ↔ (none : Option (Addr × Addr)) = none ∨ true = false :=
  published_iff unhooked_bare

/-- **A keyboard reset in the middle of an install that goes well** finds the handler registered,
and sends a blank request. -/
theorem unpublished :
    ∃ es s, History (· = beginInstall bare)
        (InstallStep 0xF90000 0x1000 ⟨0, 0, 0, 0⟩ ⟨some (1, 2), true, 0x2000⟩)
        (.handlerSent .blank :: .handlerCalled :: es) s
      ∧ ¬ Published 0xF90000 0x1000 ⟨some (1, 2), true, 0x2000⟩ bare.vector s.world
      ∧ ¬ (Happening.handlerSent .blank).Sound 0x1000 ⟨some (1, 2), true, 0x2000⟩ bare.vector := by
  obtain ⟨es, s, hs, hlive, hblank⟩ := live_before_ready 0xF90000 0x1000 ⟨0, 0, 0, 0⟩ bare
    (r := ⟨some (1, 2), true, 0x2000⟩) (by simp) rfl
  have hnot : ¬ ∃ device unit, some (1, 2) = some (device, unit)
      ∧ IoRequest.blank = doneRequest 0x1000 device unit := fun ⟨device, unit, _, h⟩ =>
    absurd (congrArg IoRequest.command h) (by simp [IoRequest.blank, doneRequest])
  have hguard : ((s.world.modify 0x1000 fun g => { g with prepared := true }).guards 0x1000).doneIo
      = .blank := by
    rw [← hblank]
    simp [World.modify]
  have hsent := (hs.next (.handlerCalled hlive)).next (.handlerSent (Nat.succ_pos _))
  rw [hguard] at hsent
  refine ⟨es, _, hsent, fun hpub => hnot ?_, hnot⟩
  obtain ⟨device, unit, hopen, hdone⟩ := hpub.handler hlive
  exact ⟨device, unit, hopen, hguard.symm.trans hdone⟩

/-- **Another task's `ColdReboot()` in the middle of it** finds the trampoline on the vector, and no
vector to go on to. -/
theorem vector_before_stored :
    ∃ es s, History (· = beginInstall bare)
        (InstallStep 0xF90000 0x1000 ⟨0, 0, 0, 0⟩ ⟨some (1, 2), true, 0x2000⟩) es s
      ∧ LeadsThrough 0xF90000 0x1000 s.world ∧ (s.world.guards 0x1000).oldColdReboot = 0 := by
  obtain ⟨es, hs⟩ := history_alone 0xF90000 0x1000 ⟨0, 0, 0, 0⟩ ⟨some (1, 2), true, 0x2000⟩ bare 21
  refine ⟨es, _, hs, ⟨0x2000, ?_, ?_⟩, ?_⟩
  · exact Relation.ReflTransGen.refl
  · rfl
  · rfl

end Lines

end Reset
