import Emu68Common.Machinery.History
import Mathlib.Logic.Function.Basic
import Mathlib.Data.Fintype.Basic

/-!
# Reset/Hooks — the two hooks of a guard, called at any time by anyone

Once installed, a guard is entered from `ColdReboot()` in the rebooting task (its trampoline) and
from the keyboard handler in an interrupt.  Both run `reset_guard_run_prepare`, which sets
`rg_Prepared` under `Disable` and runs `prepare()` if it was clear.  A caller is a place in that
code (`Place`); a step is one caller going on (`step`), so every interleaving is a run.

    .enter ──Disable…Enable──▸ .tested already ──▸ .preparing ──▸ .finished ──▸ SendIO / old vector
-/

namespace Reset

open Machinery

/-! ## Callers -/

/-- What the ColdReboot vector, or a guard's saved one, leads to. -/
inductive Vector (G : Type) where
  | original
  | trampoline (g : G)
  deriving DecidableEq, Repr

/-- The two ways into `reset_guard_run_prepare`. -/
inductive Hook where
  | coldreboot
  | kbd
  deriving DecidableEq, Repr

/-- How far a caller is in `reset_guard_run_prepare`. -/
inductive Stage where
  /-- before `Disable` -/
  | enter
  /-- past `Enable`, with what the flag was -/
  | tested (already : Bool)
  /-- in `rg_Prepare` -/
  | preparing
  /-- about to return -/
  | finished
  deriving DecidableEq, Repr

/-- Where a caller is. -/
inductive Place (G : Type) where
  | idle
  | hook (k : Hook) (g : G) (stage : Stage)
  /-- in the original ColdReboot, which does not return -/
  | original
  deriving DecidableEq, Repr

/-- The fields of the installed guards that nobody writes any more, and the vector. -/
structure Guards (G : Type) where
  /-- whether `rg_Prepare` is set -/
  prepare : G → Bool
  /-- `rg_OldColdReboot` -/
  oldColdReboot : G → Vector G
  /-- the ColdReboot vector -/
  vector : Vector G

/-- The flags, and where every caller is. -/
structure State (C G : Type) where
  prepared : G → Bool
  place : C → Place G

/-- Who goes on next. -/
inductive Action (C G : Type) where
  /-- the keyboard calls a guard's handler -/
  | key (c : C) (g : G)
  /-- a task calls `ColdReboot()` -/
  | reboot (c : C)
  | run (c : C)

/-- What a step was. -/
inductive Event (C G : Type) where
  | handlerCalled (c : C) (g : G)
  | rebootCalled (c : C)
  | tested (c : C) (g : G) (already : Bool)
  | prepareEntered (c : C) (g : G)
  | prepareReturned (c : C) (g : G)
  | skipped (c : C) (g : G)
  /-- `KBD_RESETHANDLERDONE` sent -/
  | doneSent (c : C) (g : G)
  /-- the vector saved by this guard entered -/
  | oldEntered (c : C) (g : G)
  deriving DecidableEq, Repr

section Step

variable {C G : Type} [DecidableEq C] [DecidableEq G] (cfg : Guards G)

/-- Where a jump through a vector ends up. -/
def Vector.place : Vector G → Place G
  | .original => .original
  | .trampoline g => .hook .coldreboot g .enter

/-- One caller moved. -/
def State.move (s : State C G) (c : C) (p : Place G) : State C G :=
  { s with place := Function.update s.place c p }

/-- The critical section of `reset_guard_run_prepare`. -/
def State.test (s : State C G) (c : C) (k : Hook) (g : G) : State C G where
  prepared := Function.update s.prepared g true
  place := Function.update s.place c (.hook k g (.tested (s.prepared g)))

omit [DecidableEq G] in
@[simp] theorem State.move_prepared (s : State C G) (c : C) (p : Place G) :
    (s.move c p).prepared = s.prepared := rfl

omit [DecidableEq G] in
@[simp] theorem State.move_place (s : State C G) (c c' : C) (p : Place G) :
    (s.move c p).place c' = if c' = c then p else s.place c' :=
  Function.update_apply s.place c p c'

@[simp] theorem State.test_prepared (s : State C G) (c : C) (k : Hook) (g g' : G) :
    (s.test c k g).prepared g' = if g' = g then true else s.prepared g' :=
  Function.update_apply s.prepared g true g'

@[simp] theorem State.test_place (s : State C G) (c c' : C) (k : Hook) (g : G) :
    (s.test c k g).place c' = if c' = c then .hook k g (.tested (s.prepared g)) else s.place c' :=
  Function.update_apply s.place c _ c'

/-- **One step.** -/
def step (s : State C G) : Action C G → Option (Event C G × State C G)
  | .key c g =>
    if s.place c = .idle then some (.handlerCalled c g, s.move c (.hook .kbd g .enter)) else none
  | .reboot c =>
    if s.place c = .idle then some (.rebootCalled c, s.move c cfg.vector.place) else none
  | .run c =>
    match s.place c with
    | .idle => none
    | .original => none
    | .hook k g .enter => some (.tested c g (s.prepared g), s.test c k g)
    | .hook k g (.tested already) =>
      if !already && cfg.prepare g then
        some (.prepareEntered c g, s.move c (.hook k g .preparing))
      else some (.skipped c g, s.move c (.hook k g .finished))
    | .hook k g .preparing => some (.prepareReturned c g, s.move c (.hook k g .finished))
    | .hook .kbd g .finished => some (.doneSent c g, s.move c .idle)
    | .hook .coldreboot g .finished =>
      some (.oldEntered c g, s.move c (cfg.oldColdReboot g).place)

/-- Some caller goes on. -/
def Step (s : State C G) (e : Event C G) (s' : State C G) : Prop :=
  ∃ a, step cfg s a = some (e, s')

/-- Just installed: no flag set, nobody in a hook. -/
def Quiescent (s : State C G) : Prop := (∀ g, s.prepared g = false) ∧ ∀ c, s.place c = .idle

/-- **Everything a step can be.** -/
inductive Move (s : State C G) : Event C G → State C G → Prop where
  | handlerCalled (c : C) (g : G) (h : s.place c = .idle) :
    Move s (.handlerCalled c g) (s.move c (.hook .kbd g .enter))
  | rebootCalled (c : C) (h : s.place c = .idle) :
    Move s (.rebootCalled c) (s.move c cfg.vector.place)
  | tested (c : C) (k : Hook) (g : G) (h : s.place c = .hook k g .enter) :
    Move s (.tested c g (s.prepared g)) (s.test c k g)
  | prepareEntered (c : C) (k : Hook) (g : G) (h : s.place c = .hook k g (.tested false))
    (hp : cfg.prepare g = true) : Move s (.prepareEntered c g) (s.move c (.hook k g .preparing))
  | skipped (c : C) (k : Hook) (g : G) (already : Bool)
    (h : s.place c = .hook k g (.tested already)) (hs : already = true ∨ cfg.prepare g = false) :
    Move s (.skipped c g) (s.move c (.hook k g .finished))
  | prepareReturned (c : C) (k : Hook) (g : G) (h : s.place c = .hook k g .preparing) :
    Move s (.prepareReturned c g) (s.move c (.hook k g .finished))
  | doneSent (c : C) (g : G) (h : s.place c = .hook .kbd g .finished) :
    Move s (.doneSent c g) (s.move c .idle)
  | oldEntered (c : C) (g : G) (h : s.place c = .hook .coldreboot g .finished) :
    Move s (.oldEntered c g) (s.move c (cfg.oldColdReboot g).place)

variable {cfg} {s s' : State C G} {e : Event C G}

theorem Step.move (h : Step cfg s e s') : Move cfg s e s' := by
  obtain ⟨a, ha⟩ := h
  rcases a with ⟨c, g⟩ | c | c
  · obtain ⟨hidle, heq⟩ := Option.ite_none_right_eq_some.mp ha
    obtain ⟨rfl, rfl⟩ := Prod.mk.inj (Option.some.inj heq)
    exact .handlerCalled c g hidle
  · obtain ⟨hidle, heq⟩ := Option.ite_none_right_eq_some.mp ha
    obtain ⟨rfl, rfl⟩ := Prod.mk.inj (Option.some.inj heq)
    exact .rebootCalled c hidle
  · rw [step] at ha
    split at ha
    · cases ha
    · cases ha
    · rename_i k g h
      obtain ⟨rfl, rfl⟩ := Prod.mk.inj (Option.some.inj ha)
      exact .tested c k g h
    · rename_i k g already h
      split at ha
      · rename_i hrun
        obtain ⟨hal, hp⟩ := Bool.and_eq_true_iff.mp hrun
        obtain rfl : already = false := by simpa using hal
        obtain ⟨rfl, rfl⟩ := Prod.mk.inj (Option.some.inj ha)
        exact .prepareEntered c k g h hp
      · rename_i hrun
        obtain ⟨rfl, rfl⟩ := Prod.mk.inj (Option.some.inj ha)
        refine .skipped c k g already h ?_
        cases already with
        | true => exact Or.inl rfl
        | false => exact Or.inr (Bool.eq_false_iff.mpr hrun)
    · rename_i k g h
      obtain ⟨rfl, rfl⟩ := Prod.mk.inj (Option.some.inj ha)
      exact .prepareReturned c k g h
    · rename_i g h
      obtain ⟨rfl, rfl⟩ := Prod.mk.inj (Option.some.inj ha)
      exact .doneSent c g h
    · rename_i g h
      obtain ⟨rfl, rfl⟩ := Prod.mk.inj (Option.some.inj ha)
      exact .oldEntered c g h

/-! ## Runs by a list of actions -/

variable (cfg) in
/-- The events and the state after some actions, the newest first. -/
def runActions (s : State C G) : List (Action C G) → Option (List (Event C G) × State C G)
  | [] => some ([], s)
  | a :: as => do
    let (es, s') ← runActions s as
    let (e, s'') ← step cfg s' a
    return (e :: es, s'')

theorem history_of_runActions (as : List (Action C G)) {es : List (Event C G)} (h : Quiescent s)
    (hrun : runActions cfg s as = some (es, s')) : History Quiescent (Step cfg) es s' := by
  induction as generalizing es s' with
  | nil =>
    obtain ⟨rfl, rfl⟩ := Prod.mk.inj (Option.some.inj hrun)
    exact .start h
  | cons a as ih =>
    rw [runActions, Option.bind_eq_bind, Option.bind_eq_some_iff] at hrun
    obtain ⟨⟨es₁, s₁⟩, hrun₁, hrest⟩ := hrun
    obtain ⟨⟨e, s₂⟩, hstep, hlast⟩ := Option.bind_eq_some_iff.mp hrest
    obtain ⟨rfl, rfl⟩ := Prod.mk.inj (Option.some.inj hlast)
    exact (ih hrun₁).next ⟨a, hstep⟩

end Step

end Reset
