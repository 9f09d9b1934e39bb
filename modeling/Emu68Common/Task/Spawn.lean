import Emu68Common.Machinery.Held
import Mathlib.Data.BitVec

/-!
# Task/Spawn — the memory of a worker, from `drv_task_spawn` to the worker's end

A worker is made of three blocks: the task, its stack, and the memory list that names the first two
and is found through the task itself.  `drv_task_spawn` gives back what it got of them when one is
refused or the task is not added; from then on they are Exec's to free when the worker ends, by the
entries of the list (`spawn_memory`).  That may be before the call returns or after, and the signals
that the call waits for do not tell: they may be another worker's.

    ml ──ml_ME[0]──▸ task      tc_SPLower ─ ⋯ ─ tc_SPReg: ctx, parent ─ tc_SPUpper
       ──ml_ME[1]──▸ stack
-/

namespace DriverTask

open Machinery

/-! ## Exec -/

/-- A block of memory: where it is, and how much was asked for. -/
structure Mem where
  addr : ℕ
  size : ℕ
  deriving DecidableEq, Repr

def allocMem (size : ℕ) : Call Mem ℕ := do
  let addr ← ask
  if addr = 0 then return 0
  take ⟨addr, size⟩
  return addr

/-- `FreeMem`: a block goes back in the size it was got in. -/
def freeMem (addr size : ℕ) : Call Mem Unit := give ⟨addr, size⟩

/-- `if (addr) FreeMem(addr, size);` -/
def freeIfAny (addr size : ℕ) : Call Mem Unit := if addr ≠ 0 then freeMem addr size else return ()

structure MemEntry where
  meAddr : ℕ
  meLength : ℕ
  deriving DecidableEq, Repr

/-- `struct MemList`, where it lies. -/
structure MemList where
  addr : ℕ
  mlNumEntries : ℕ
  mlME : List MemEntry
  deriving DecidableEq, Repr

def sizeofMemEntry : ℕ := 8

/-- `sizeof(struct MemList)`, which has room for one entry. -/
def sizeofMemList : ℕ := 24

def sizeofTask : ℕ := 92

/-- `struct Task`, where it lies, and the longs on its stack below `tc_SPUpper`. -/
structure Task where
  addr : ℕ
  tcSPLower : ℕ
  tcSPUpper : ℕ
  tcSPReg : ℕ
  pushed : List ℕ
  lnName : String
  lnType : ℕ
  lnPri : BitVec 8
  tcMemEntry : List MemList
  deriving DecidableEq, Repr

/-- `FreeEntry`: every entry, and the list itself in the size that so many entries need. -/
def freeEntry (ml : MemList) : Call Mem Unit := do
  (ml.mlME.take ml.mlNumEntries).forM fun e => freeMem e.meAddr e.meLength
  freeMem ml.addr (sizeofMemList + (ml.mlNumEntries - 1) * sizeofMemEntry)

/-- **A task ends**: Exec frees what is on its `tc_MemEntry`. -/
def endTask (task : Task) : Call Mem Unit := task.tcMemEntry.forM freeEntry

/-! ## The call -/

def NT_TASK : ℕ := 1
def SIGBREAKF_CTRL_C : ℕ := 1 <<< 12
def EIO : ℤ := 2
def ENOMEM : ℤ := 7

/-- `*--sp = v` on a task's stack. -/
def Task.push (task : Task) (v : ℕ) : Task :=
  { task with tcSPReg := (task.tcSPReg + 2 ^ 32 - 4) % 2 ^ 32, pushed := v :: task.pushed }

/-- The task as it is added: its blocks, its stack, its arguments. -/
def madeTask (parent ctx : ℕ) (name : String) (stackBytes : ℕ) (pri : BitVec 8)
    (ml task stack : ℕ) : Task :=
  let upper := (stack + stackBytes / 4 * 4) % 2 ^ 32
  let made : Task := {
    addr := task, tcSPLower := stack, tcSPUpper := upper, tcSPReg := upper, pushed := []
    lnName := name, lnType := NT_TASK, lnPri := pri
    tcMemEntry := [⟨ml, 2, [⟨task, sizeofTask⟩, ⟨stack, stackBytes⟩]⟩] }
  (made.push parent).push ctx

/-- `Wait` in `drv_task_spawn`: the worker may end meanwhile, whatever the signals turn out to be.
What they are, and whether it has ended. -/
def awaitWorker (task : Task) : Call Mem (ℕ × Bool) := do
  let ended ← ask
  let sig ← ask
  if ended ≠ 0 then
    endTask task
    return (sig, true)
  return (sig, false)

/-- `drv_task_spawn`, called by the task `parent`: what it returns, and the task it added, with
whether that has ended by then. -/
def drvTaskSpawn (parent ctx : ℕ) (name : String) (stackBytes : ℕ) (pri : BitVec 8) :
    Call Mem (ℤ × Option (Task × Bool)) := do
  let ml ← allocMem (sizeofMemList + sizeofMemEntry)
  let task ← allocMem sizeofTask
  let stack ← allocMem stackBytes
  if ml = 0 ∨ task = 0 ∨ stack = 0 then
    freeIfAny ml (sizeofMemList + sizeofMemEntry)
    freeIfAny task sizeofTask
    freeIfAny stack stackBytes
    return (-ENOMEM, none)
  let made := madeTask parent ctx name stackBytes pri ml task stack
  -- `AddTask`
  let added ← ask
  if added = 0 then
    freeMem ml (sizeofMemList + sizeofMemEntry)
    freeMem task sizeofTask
    freeMem stack stackBytes
    return (-ENOMEM, none)
  let (sig, ended) ← awaitWorker made
  if sig &&& SIGBREAKF_CTRL_C ≠ 0 then return (- EIO, some (made, ended))
  return (0, some (made, ended))

/-! ## What is held -/

section Trade

variable {pre post' : Multiset Mem}

/-- What an allocation came to. -/
def got (addr size : ℕ) : Multiset Mem := if addr = 0 then 0 else {⟨addr, size⟩}

theorem got_of_ne {addr size : ℕ} (h : addr ≠ 0) : got addr size = {⟨addr, size⟩} := if_neg h

theorem allocMem_trades (pre : Multiset Mem) (size : ℕ) :
    Trades pre (allocMem size) fun addr own => own = got addr size + pre := by
  refine Trades.ask_bind fun addr => ?_
  split
  · next h => exact .pure (by rw [got, if_pos rfl, zero_add])
  · next h => exact .take_bind (.pure (by rw [got_of_ne h, Multiset.singleton_add]))

theorem freeMem_trades (pre : Multiset Mem) (addr size : ℕ) :
    Trades (⟨addr, size⟩ ::ₘ pre) (freeMem addr size) fun _ own => own = pre :=
  (Trades.give (Multiset.mem_cons_self _ _)).mono fun _ _ hown =>
    hown.trans (Multiset.erase_cons_head _ _)

/-- What an allocation came to is freed, if it came to anything. -/
theorem freeIfAny_trades {addr size : ℕ} (h : pre = got addr size + post') :
    Trades pre (freeIfAny addr size) fun _ own => own = post' := by
  subst h
  by_cases h : addr = 0
  · rw [freeIfAny, if_neg (not_not_intro h), got, if_pos h, zero_add]
    exact .pure rfl
  · rw [freeIfAny, if_pos h, got_of_ne h, Multiset.singleton_add]
    exact freeMem_trades _ _ _

/-- The blocks of a worker, in the order of the calls. -/
def blocks (ml task stack stackBytes : ℕ) : Multiset Mem :=
  ⟨ml, sizeofMemList + sizeofMemEntry⟩ ::ₘ ⟨task, sizeofTask⟩ ::ₘ {⟨stack, stackBytes⟩}

/-- **A worker's end frees its blocks**, each in the size it was got in. -/
theorem endTask_trades (parent ctx : ℕ) (name : String) (stackBytes : ℕ) (pri : BitVec 8)
    (ml task stack : ℕ) :
    Trades (blocks ml task stack stackBytes)
      (endTask (madeTask parent ctx name stackBytes pri ml task stack)) fun _ own => own = 0 := by
  have hlist : Trades (blocks ml task stack stackBytes)
      (freeEntry ⟨ml, 2, [⟨task, sizeofTask⟩, ⟨stack, stackBytes⟩]⟩) fun _ own => own = 0 := by
    have hswap : blocks ml task stack stackBytes = ⟨task, sizeofTask⟩ ::ₘ ⟨stack, stackBytes⟩ ::ₘ
        {⟨ml, sizeofMemList + (2 - 1) * sizeofMemEntry⟩} := by
      rw [blocks, ← Multiset.singleton_add, add_comm, Multiset.cons_add, Multiset.singleton_add]
      rfl
    rw [hswap]
    have hentries : Trades (⟨task, sizeofTask⟩ ::ₘ ⟨stack, stackBytes⟩ ::ₘ
        {⟨ml, sizeofMemList + (2 - 1) * sizeofMemEntry⟩})
        ([⟨task, sizeofTask⟩, ⟨stack, stackBytes⟩].forM fun e : MemEntry =>
          freeMem e.meAddr e.meLength)
        fun _ own => own = {⟨ml, sizeofMemList + (2 - 1) * sizeofMemEntry⟩} := by
      refine (freeMem_trades _ _ _).bind fun _ own hown => ?_
      subst hown
      exact (freeMem_trades _ _ _).bind fun _ own hown => .pure hown
    refine hentries.bind fun _ own hown => ?_
    subst hown
    exact freeMem_trades 0 _ _
  exact hlist.bind fun _ own hown => .pure hown

/-- `drv_task_spawn` has the blocks, or they have been given back. -/
theorem spawn_trades (parent ctx : ℕ) (name : String) (stackBytes : ℕ) (pri : BitVec 8) :
    Trades 0 (drvTaskSpawn parent ctx name stackBytes pri) fun r own =>
      (r = (-ENOMEM, none) ∧ own = 0) ∨
      ∃ ml task stack res ended, (res = 0 ∨ res = - EIO) ∧
        r = (res, some (madeTask parent ctx name stackBytes pri ml task stack, ended)) ∧
        own = if ended then 0 else blocks ml task stack stackBytes := by
  refine (allocMem_trades 0 _).bind fun ml own hown => ?_
  subst hown
  refine (allocMem_trades _ _).bind fun task own hown => ?_
  subst hown
  refine (allocMem_trades _ _).bind fun stack own hown => ?_
  subst hown
  split
  · -- what was got is freed, in the order of the allocations
    have hgot : got stack stackBytes + (got task sizeofTask +
        (got ml (sizeofMemList + sizeofMemEntry) + 0)) = got ml (sizeofMemList + sizeofMemEntry) +
        (got task sizeofTask + (got stack stackBytes + 0)) := by ac_rfl
    rw [hgot]
    refine (freeIfAny_trades rfl).bind fun _ own hown => ?_
    subst hown
    refine (freeIfAny_trades rfl).bind fun _ own hown => ?_
    subst hown
    exact (freeIfAny_trades rfl).bind fun _ own hown => .pure (.inl ⟨rfl, hown⟩)
  · next h =>
    obtain ⟨hml, htask, hstack⟩ : ml ≠ 0 ∧ task ≠ 0 ∧ stack ≠ 0 := by
      simpa only [not_or] using h
    have hgot : got stack stackBytes + (got task sizeofTask +
        (got ml (sizeofMemList + sizeofMemEntry) + 0)) = blocks ml task stack stackBytes := by
      rw [got_of_ne hml, got_of_ne htask, got_of_ne hstack, blocks, ← Multiset.singleton_add,
        ← Multiset.singleton_add]
      ac_rfl
    rw [hgot]
    refine Trades.ask_bind fun added => ?_
    split
    · refine (freeMem_trades _ _ _).bind fun _ own hown => ?_
      subst hown
      refine (freeMem_trades _ _ _).bind fun _ own hown => ?_
      subst hown
      exact (freeMem_trades 0 _ _).bind fun _ own hown => .pure (.inl ⟨rfl, hown⟩)
    · have hawait : Trades (blocks ml task stack stackBytes)
          (awaitWorker (madeTask parent ctx name stackBytes pri ml task stack)) fun r own =>
            own = if r.2 then 0 else blocks ml task stack stackBytes := by
        refine Trades.ask_bind fun ended => Trades.ask_bind fun sig => ?_
        split
        · exact (endTask_trades _ _ _ _ _ _ _ _).bind fun _ own hown => .pure hown
        · exact .pure rfl
      refine hawait.bind fun ⟨sig, ended⟩ own hown => ?_
      change Trades own (if sig &&& SIGBREAKF_CTRL_C ≠ 0 then _ else _) _
      split
      · exact .pure (.inr ⟨ml, task, stack, _, ended, .inr rfl, rfl, hown⟩)
      · exact .pure (.inr ⟨ml, task, stack, _, ended, .inl rfl, rfl, hown⟩)

end Trade

/-- **The arguments are on the stack, and the stack is in its block.** -/
theorem madeTask_stack (parent ctx : ℕ) (name : String) {stackBytes : ℕ} (pri : BitVec 8)
    (ml task : ℕ) {stack : ℕ} (hroom : 8 ≤ stackBytes) (hfits : stack + stackBytes < 2 ^ 32) :
    let made := madeTask parent ctx name stackBytes pri ml task stack
    made.pushed = [ctx, parent] ∧ made.tcSPLower ≤ made.tcSPReg ∧
      made.tcSPReg + 8 = made.tcSPUpper ∧ made.tcSPUpper ≤ made.tcSPLower + stackBytes := by
  dsimp only [madeTask, Task.push]
  refine ⟨rfl, ?_, ?_, ?_⟩ <;> omega

/-- **No worker's memory is lost, and none is freed twice**: whatever is refused, a spawn that adds
no worker leaves what was held before; one that adds its worker, whatever it returns, leaves that
too if the worker has ended by then, and otherwise the worker's blocks with it, which the worker's
end frees exactly, whatever else is held by then.  The worker starts with its arguments on a stack
of its own. -/
theorem spawn_memory (parent ctx : ℕ) (name : String) (stackBytes : ℕ) (pri : BitVec 8)
    (w : World Mem) :
    ∃ r w', drvTaskSpawn parent ctx name stackBytes pri w = some (r, w') ∧
      (r = (-ENOMEM, none) ∧ w'.held = w.held ∨
        ∃ res task ended own, (res = 0 ∨ res = - EIO) ∧ r = (res, some (task, ended)) ∧
          w'.held = (if ended then 0 else own) + w.held ∧
          Trades own (endTask task) (fun _ left => left = 0) ∧
          ⟨task.tcSPLower, stackBytes⟩ ∈ own ∧
          (8 ≤ stackBytes → task.tcSPLower + stackBytes < 2 ^ 32 →
            task.pushed = [ctx, parent] ∧ task.tcSPLower ≤ task.tcSPReg ∧
              task.tcSPReg + 8 = task.tcSPUpper ∧
              task.tcSPUpper ≤ task.tcSPLower + stackBytes)) := by
  obtain ⟨r, w', own, hrun, hpost, hheld⟩ :=
    spawn_trades parent ctx name stackBytes pri w w.held (zero_add _).symm
  refine ⟨r, w', hrun, ?_⟩
  rcases hpost with ⟨rfl, rfl⟩ | ⟨ml, task, stack, res, ended, hres, rfl, rfl⟩
  · exact .inl ⟨rfl, hheld.trans (zero_add _)⟩
  · refine .inr ⟨res, _, ended, blocks ml task stack stackBytes, hres, rfl, hheld,
      endTask_trades _ _ _ _ _ _ _ _, ?_, fun hroom hfits =>
        madeTask_stack parent ctx name pri ml task hroom hfits⟩
    exact Multiset.mem_cons_of_mem (Multiset.mem_cons_of_mem (Multiset.mem_singleton_self _))

end DriverTask
