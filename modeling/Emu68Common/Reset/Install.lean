import Mathlib.Data.BitVec
import Mathlib.Logic.Function.Basic

/-!
# Reset/Install — installing and removing a guard

What `reset_guard_install` and `reset_guard_remove` change: the guard itself, and in the world
around it the ColdReboot vector, the allocated trampolines, `keyboard.device`'s reset handlers and
its open count.  What the two calls get back from Exec and the device is an input (`Replies`), so
every failure is a run.
-/

namespace Reset

abbrev Addr : Type := BitVec 32
abbrev UWord : Type := BitVec 16

/-! ## The guard -/

/-- The `keyboard.device` commands a guard sends. -/
inductive Command where
  | invalid
  | addResetHandler
  | remResetHandler
  | resetHandlerDone
  deriving DecidableEq, Repr

/-- An `IOStdReq`, as far as it is filled in.  A reply port and the data of these commands are parts
of a guard, so they are named by its address. -/
structure IoRequest where
  replyPort : Addr
  length : Bool
  device : Addr
  unit : Addr
  command : Command
  data : Addr
  deriving DecidableEq, Repr

/-- All zeros. -/
def IoRequest.blank : IoRequest := ⟨0, false, 0, 0, .invalid, 0⟩

/-- The arguments of an install. -/
structure Args where
  sysBase : Addr
  prepare : Addr
  user : Addr
  name : Addr
  deriving DecidableEq, Repr

/-- **`struct reset_guard`.** -/
structure Guard where
  sysBase : Addr
  prepare : Addr
  user : Addr
  name : Addr
  /-- `rg_Port` set up as a sink for replies -/
  port : Bool
  addIo : IoRequest
  doneIo : IoRequest
  /-- the guard `rg_Handler` hands to its code, once it is set up -/
  handler : Addr
  trampoline : Addr
  oldColdReboot : Addr
  prepared : Bool
  deviceOpen : Bool
  deriving DecidableEq, Repr

/-- All zeros, which is what `memset` leaves. -/
def Guard.blank : Guard :=
  ⟨0, 0, 0, 0, false, .blank, .blank, 0, 0, 0, false, false⟩

/-- What can be called through `ColdReboot`: the trampoline's two instructions. -/
def trampolineWords (entry rg : Addr) : List UWord :=
  [0x227C, (rg >>> 16).setWidth 16, rg.setWidth 16,
    0x4EF9, (entry >>> 16).setWidth 16, entry.setWidth 16]

/-- Six words run as code: the value in `a1` at the jump, and where it goes, if they are
`movea.l #a1,%a1 ; jmp target.l`. -/
def runTrampoline : List UWord → Option (Addr × Addr)
  | [op₁, h₁, l₁, op₂, h₂, l₂] =>
    if op₁ = 0x227C ∧ op₂ = 0x4EF9 then some (h₁ ++ l₁, h₂ ++ l₂) else none
  | _ => none

theorem append_halves (a : Addr) : (a >>> 16).setWidth 16 ++ a.setWidth 16 = a := by
  ext i hi
  rw [BitVec.getElem_append]
  split
  · rw [BitVec.getElem_setWidth, BitVec.getLsbD_eq_getElem]
  · rw [BitVec.getElem_setWidth, BitVec.getLsbD_ushiftRight, BitVec.getLsbD_eq_getElem (by omega)]
    congr 1
    omega

/-- **The trampoline enters `reset_guard_coldreboot_entry` with the guard in `a1`.** -/
theorem runTrampoline_words (entry rg : Addr) :
    runTrampoline (trampolineWords entry rg) = some (rg, entry) := by
  rw [trampolineWords, runTrampoline, if_pos ⟨rfl, rfl⟩, append_halves, append_halves]

/-- So two guards never have the same trampoline. -/
theorem trampolineWords_inj {entry rg rg' : Addr}
    (h : trampolineWords entry rg = trampolineWords entry rg') : rg = rg' := by
  have hrun := congrArg runTrampoline h
  rw [runTrampoline_words, runTrampoline_words] at hrun
  exact (Prod.mk.inj (Option.some.inj hrun)).1

/-! ## The world -/

/-- Everything an install or a remove can change. -/
structure World where
  /-- the ColdReboot vector -/
  vector : Addr
  guards : Addr → Guard
  /-- allocated trampolines, with what is in them -/
  blocks : Addr → Option (List UWord)
  /-- whether a guard's handler is registered with `keyboard.device` -/
  handlers : Addr → Bool
  /-- how often `keyboard.device` is open -/
  opens : ℤ
  /-- other patches of the vector, with the function each replaced and chains to -/
  foreign : Addr → Option Addr

/-- What the calls of an install return: `OpenDevice` a device and a unit unless it fails,
`KBD_ADDRESETHANDLER` whether it succeeds, `AllocMem` an address or `0`. -/
structure Replies where
  openDevice : Option (Addr × Addr)
  addResetHandler : Bool
  allocMem : Addr
  deriving DecidableEq, Repr

namespace World

/-- A guard rewritten. -/
def setGuard (w : World) (rg : Addr) (g : Guard) : World :=
  { w with guards := Function.update w.guards rg g }

/-- `CloseDevice`, and the guard's own note of it. -/
def closeDevice (w : World) (rg : Addr) : World :=
  { w.setGuard rg { w.guards rg with deviceOpen := false } with opens := w.opens - 1 }

/-- `KBD_REMRESETHANDLER`. -/
def remResetHandler (w : World) (rg : Addr) : World :=
  { w.setGuard rg { w.guards rg with
      addIo := { (w.guards rg).addIo with command := .remResetHandler, data := rg } } with
    handlers := Function.update w.handlers rg false }

end World

section Install

variable (entry : Addr)

/-- A guard up to the point where the device is opened. -/
def Guard.opening (rg : Addr) (args : Args) : Guard :=
  { Guard.blank with
    sysBase := args.sysBase, prepare := args.prepare, user := args.user, name := args.name
    port := true
    addIo := { IoRequest.blank with replyPort := rg, length := true } }

/-- …up to the reply to `KBD_ADDRESETHANDLER`. -/
def Guard.adding (rg : Addr) (args : Args) (device unit : Addr) : Guard :=
  { Guard.opening rg args with
    addIo := ⟨rg, true, device, unit, .addResetHandler, rg⟩
    handler := rg
    deviceOpen := true }

/-- The pre-initialized `KBD_RESETHANDLERDONE` request. -/
def doneRequest (rg device unit : Addr) : IoRequest :=
  ⟨rg, true, device, unit, .resetHandlerDone, rg⟩

/-- …up to the trampoline. -/
def Guard.hooking (rg : Addr) (args : Args) (device unit : Addr) : Guard :=
  { Guard.adding rg args device unit with doneIo := doneRequest rg device unit }

/-- **`reset_guard_install`.** -/
def install (w : World) (rg : Addr) (args : Args) (r : Replies) : World × Bool :=
  match r.openDevice with
  | none => (w.setGuard rg (Guard.opening rg args), false)
  | some (device, unit) =>
    let opened := { w.setGuard rg (Guard.adding rg args device unit) with opens := w.opens + 1 }
    if r.addResetHandler = false then (opened.closeDevice rg, false)
    else
      let added := { opened.setGuard rg (Guard.hooking rg args device unit) with
        handlers := Function.update w.handlers rg true }
      if r.allocMem = 0 then ((added.remResetHandler rg).closeDevice rg, false)
      else
        let hooked := { Guard.hooking rg args device unit with
          trampoline := r.allocMem, oldColdReboot := w.vector }
        ({ added.setGuard rg hooked with
            blocks := Function.update w.blocks r.allocMem (some (trampolineWords entry rg))
            vector := r.allocMem }, true)

/-- **`reset_guard_remove`.** -/
def remove (w : World) (rg : Addr) : World × Bool :=
  let g := w.guards rg
  if g.deviceOpen = false then (w, true)
  else if g.trampoline = 0 then ((w.remResetHandler rg).closeDevice rg, true)
  else if w.vector ≠ g.trampoline then (w, false)
  else
    let unhooked := { w.setGuard rg { g with trampoline := 0 } with
      vector := g.oldColdReboot, blocks := Function.update w.blocks g.trampoline none }
    ((unhooked.remResetHandler rg).closeDevice rg, true)

end Install

/-! ## What the two calls come to -/

/-- One guard closed, and nothing else changed. -/
structure Unchanged (w w' : World) (rg : Addr) : Prop where
  vector : w'.vector = w.vector
  blocks : w'.blocks = w.blocks
  foreign : w'.foreign = w.foreign
  handlers : w'.handlers = w.handlers
  opens : w'.opens = w.opens
  others : ∀ rg' ≠ rg, w'.guards rg' = w.guards rg'
  closed : (w'.guards rg).deviceOpen = false

/-- One guard hooked in, on top of whatever the vector was. -/
structure Hooked (entry : Addr) (w w' : World) (rg t : Addr) : Prop where
  vector : w'.vector = t
  blocks : w'.blocks = Function.update w.blocks t (some (trampolineWords entry rg))
  foreign : w'.foreign = w.foreign
  handlers : w'.handlers = Function.update w.handlers rg true
  opens : w'.opens = w.opens + 1
  others : ∀ rg' ≠ rg, w'.guards rg' = w.guards rg'
  deviceOpen : (w'.guards rg).deviceOpen = true
  trampoline : (w'.guards rg).trampoline = t
  oldColdReboot : (w'.guards rg).oldColdReboot = w.vector

/-- One guard unhooked from the top. -/
structure Unhooked (w w' : World) (rg : Addr) : Prop where
  vector : w'.vector = (w.guards rg).oldColdReboot
  blocks : w'.blocks = Function.update w.blocks (w.guards rg).trampoline none
  foreign : w'.foreign = w.foreign
  handlers : w'.handlers = Function.update w.handlers rg false
  opens : w'.opens = w.opens - 1
  others : ∀ rg' ≠ rg, w'.guards rg' = w.guards rg'
  closed : (w'.guards rg).deviceOpen = false

section Outcomes

variable {entry rg : Addr} {w : World} {args : Args} {r : Replies}

attribute [simp] World.setGuard World.closeDevice World.remResetHandler Function.update_idem
  Function.update_self

/-- **A failed install undoes what it did**, wherever it failed. -/
theorem install_failed (hoff : w.handlers rg = false) (h : (install entry w rg args r).2 = false) :
    Unchanged w (install entry w rg args r).1 rg := by
  have hback : Function.update w.handlers rg false = w.handlers := by
    rw [← hoff, Function.update_eq_self]
  rw [install] at h ⊢
  cases hopen : r.openDevice with
  | none =>
    refine ⟨rfl, rfl, rfl, rfl, rfl, fun rg' hne => ?_, ?_⟩
    · simp [hne]
    · simp [Guard.opening, Guard.blank]
  | some p =>
    rw [hopen] at h
    by_cases hadd : r.addResetHandler = false
    · simp only [hadd, if_true]
      refine ⟨rfl, rfl, rfl, rfl, ?_, fun rg' hne => ?_, ?_⟩
      · simp
      · simp [hne]
      · simp
    · by_cases halloc : r.allocMem = 0
      · simp only [hadd, halloc, if_true]
        refine ⟨rfl, rfl, rfl, ?_, ?_, fun rg' hne => ?_, ?_⟩
        · simp [hback]
        · simp
        · simp [hne]
        · simp
      · simp only [hadd, halloc, if_false, Bool.true_eq_false] at h

/-- **An install that succeeds pushes one trampoline.** -/
theorem install_succeeded (h : (install entry w rg args r).2 = true) :
    r.allocMem ≠ 0 ∧ Hooked entry w (install entry w rg args r).1 rg r.allocMem := by
  rw [install] at h ⊢
  cases hopen : r.openDevice with
  | none => simp [hopen] at h
  | some p =>
    rw [hopen] at h
    by_cases hadd : r.addResetHandler = false
    · simp [hadd] at h
    · by_cases halloc : r.allocMem = 0
      · simp only [hadd, halloc, if_true, if_false, Bool.true_eq_false, Bool.false_eq_true] at h
      · simp only [hadd, halloc, if_false]
        refine ⟨halloc, ⟨rfl, rfl, rfl, rfl, rfl, fun rg' hne => ?_, ?_, ?_, ?_⟩⟩
        · simp [hne]
        · simp [Guard.hooking, Guard.adding]
        · simp
        · simp

/-- Removing a guard that is not installed does nothing. -/
theorem remove_closed (h : (w.guards rg).deviceOpen = false) : remove w rg = (w, true) := if_pos h

/-- **A remove that refuses changes nothing.** -/
theorem remove_refused (h : (remove w rg).2 = false) : (remove w rg).1 = w := by
  by_cases hopen : (w.guards rg).deviceOpen = false
  · rw [remove_closed hopen]
  by_cases htramp : (w.guards rg).trampoline = 0
  · rw [remove, if_neg hopen, if_pos htramp] at h
    cases h
  by_cases htop : w.vector ≠ (w.guards rg).trampoline
  · rw [remove, if_neg hopen, if_neg htramp, if_pos htop]
  · rw [remove, if_neg hopen, if_neg htramp, if_neg htop] at h
    cases h

/-- **A remove that succeeds pops the guard's own trampoline.** -/
theorem remove_succeeded (hopen : (w.guards rg).deviceOpen = true)
    (htramp : (w.guards rg).trampoline ≠ 0) (h : (remove w rg).2 = true) :
    w.vector = (w.guards rg).trampoline ∧ Unhooked w (remove w rg).1 rg := by
  have hopen' : ¬ (w.guards rg).deviceOpen = false := by rw [hopen]; decide
  by_cases htop : w.vector ≠ (w.guards rg).trampoline
  · rw [remove, if_neg hopen', if_neg htramp, if_pos htop] at h
    cases h
  · rw [remove, if_neg hopen', if_neg htramp, if_neg htop]
    refine ⟨not_not.mp htop, ⟨rfl, rfl, rfl, rfl, rfl, fun rg' hne => ?_, ?_⟩⟩
    · simp [hne]
    · simp

end Outcomes

end Reset
