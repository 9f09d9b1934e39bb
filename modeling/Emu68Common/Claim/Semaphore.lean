import Emu68Common.Text.Strings
import Emu68Common.Machinery.History

/-!
# Claim/Semaphore — `hw_claim_take` and `hw_claim_release`, line by line

A claim is a semaphore and the array its name is kept in.  The semaphore is on Exec's public list
while the claim is held; whether it is held is also kept in the first byte of the name.  Exec goes
by the list: `FindSemaphore` takes the first entry of that very name, `AddSemaphore` puts an entry
behind all others of its priority, which is always zero here.

The functions are given twice from the same lines: run to their ends (`take`, `release`), and a
line at a time among any number of drivers (`Step`).

    .idle ▸ .copied ▸ .linked ▸ .decided ▸ .idle        .idle ▸ .releasing ▸ .removed ▸ .idle
-/

namespace HwClaim

open Machinery Text

/-- `HW_CLAIM_NAME_MAX`. -/
def HW_CLAIM_NAME_MAX : ℕ := 32

/-- `struct hw_claim`, what the functions use of it. -/
structure Claim where
  /-- `hc_Name` -/
  hcName : Block
  /-- `hc_Sem.ss_Link.ln_Name` is `hc_Name`, not NULL -/
  lnName : Bool

/-- A claim's name as Exec reads it. -/
def Claim.string (x : Claim) : List UInt8 := x.hcName.read HW_CLAIM_NAME_MAX 0

/-- Every claim, and the public list. -/
structure Sys (C : Type) where
  claims : C → Claim
  list : List C

section Functions

variable {C : Type} [DecidableEq C]

namespace Sys

def set (s : Sys C) (c : C) (x : Claim) : Sys C :=
  { s with claims := Function.update s.claims c x }

/-- A claim's name as Exec reads it. -/
def string (s : Sys C) (c : C) : List UInt8 := (s.claims c).string

/-- `strlcpy(claim->hc_Name, name, sizeof(claim->hc_Name))` -/
def copyName (s : Sys C) (c : C) (name : CString) : Sys C :=
  s.set c { s.claims c with hcName := (strlcpy (s.claims c).hcName name HW_CLAIM_NAME_MAX).1 }

/-- `claim->hc_Name[0] = '\0'` -/
def clearName (s : Sys C) (c : C) : Sys C :=
  s.set c { s.claims c with hcName := Function.update (s.claims c).hcName 0 0 }

/-- `claim->hc_Sem.ss_Link.ln_Name = claim->hc_Name` -/
def linkName (s : Sys C) (c : C) : Sys C := s.set c { s.claims c with lnName := true }

/-- `FindSemaphore` -/
def findSemaphore (s : Sys C) (name : List UInt8) : Option C :=
  s.list.find? fun d => (s.claims d).lnName && s.string d == name

/-- `AddSemaphore` -/
def addSemaphore (s : Sys C) (c : C) : Sys C := { s with list := s.list ++ [c] }

/-- `RemSemaphore` -/
def remSemaphore (s : Sys C) (c : C) : Sys C := { s with list := s.list.erase c }

/-- From `Forbid` to `Permit`: `unclaimed`, and what it leaves. -/
def claimSection (s : Sys C) (c : C) : Sys C × Bool :=
  let unclaimed := (s.findSemaphore (s.string c)).isNone
  (if unclaimed then s.addSemaphore c else s, unclaimed)

/-- `hw_claim_take` -/
def take (s : Sys C) (c : C) (name : CString) : Sys C × Bool :=
  if (strlcpy (s.claims c).hcName name HW_CLAIM_NAME_MAX).2 ≥ HW_CLAIM_NAME_MAX then
    ((s.copyName c name).clearName c, false)
  else
    let (s, unclaimed) := ((s.copyName c name).linkName c).claimSection c
    (if unclaimed then s else s.clearName c, unclaimed)

/-- `hw_claim_release` -/
def release (s : Sys C) (c : C) : Sys C :=
  if (s.claims c).hcName 0 = 0 then s else (s.remSemaphore c).clearName c

end Sys

end Functions

/-! ## A line at a time -/

/-- Where a driver is with its claim. -/
inductive Place where
  /-- outside, with what it was told: whether it holds the claim -/
  | idle (held : Bool)
  /-- the name did not fit -/
  | refused (name : CString)
  | copied (name : CString)
  | linked (name : CString)
  /-- past `Permit`, with the names that were on the list at `Forbid` -/
  | decided (name : CString) (unclaimed : Bool) (seen : List (List UInt8))
  /-- `hc_Name[0]` was not NUL -/
  | releasing
  | removed

/-- Every claim, the list, and where each claim's driver is. -/
structure State (C : Type) where
  sys : Sys C
  place : C → Place

/-- What a step was. -/
inductive Event (C : Type) where
  | acted (c : C)
  /-- `hw_claim_take` returned, with the names that were on the list at its `Forbid` -/
  | took (c : C) (name : CString) (res : Bool) (seen : Option (List (List UInt8)))
  | released (c : C)

section Steps

variable {C : Type}

/-- Nothing on the list, every claim zero. -/
structure Start (s : State C) : Prop where
  claims : ∀ c, s.sys.claims c = ⟨fun _ => 0, false⟩
  list : s.sys.list = []
  place : ∀ c, s.place c = .idle false

variable [DecidableEq C]

/-- A driver at another place. -/
def State.go (s : State C) (c : C) (p : Place) (sys : Sys C) : State C :=
  ⟨sys, Function.update s.place c p⟩

/-- **One step** of a driver.  A claim is taken under a name that is not empty, and not while it is
held; any claim may be released. -/
inductive Step (s : State C) : Event C → State C → Prop where
  | copyTooLong (c : C) (name : CString) (h : s.place c = .idle false) (hn : name.bytes ≠ [])
    (hl : (strlcpy (s.sys.claims c).hcName name HW_CLAIM_NAME_MAX).2 ≥ HW_CLAIM_NAME_MAX) :
    Step s (.acted c) (s.go c (.refused name) (s.sys.copyName c name))
  | copy (c : C) (name : CString) (h : s.place c = .idle false) (hn : name.bytes ≠ [])
    (hl : ¬ (strlcpy (s.sys.claims c).hcName name HW_CLAIM_NAME_MAX).2 ≥ HW_CLAIM_NAME_MAX) :
    Step s (.acted c) (s.go c (.copied name) (s.sys.copyName c name))
  | refuse (c : C) (name : CString) (h : s.place c = .refused name) :
    Step s (.took c name false none) (s.go c (.idle false) (s.sys.clearName c))
  | link (c : C) (name : CString) (h : s.place c = .copied name) :
    Step s (.acted c) (s.go c (.linked name) (s.sys.linkName c))
  /-- `Forbid` to `Permit` -/
  | look (c : C) (name : CString) (h : s.place c = .linked name) :
    Step s (.acted c)
      (s.go c (.decided name (s.sys.claimSection c).2 (s.sys.list.map s.sys.string))
        (s.sys.claimSection c).1)
  | succeed (c : C) (name : CString) (seen : List (List UInt8))
    (h : s.place c = .decided name true seen) :
    Step s (.took c name true (some seen)) (s.go c (.idle true) s.sys)
  | fail (c : C) (name : CString) (seen : List (List UInt8))
    (h : s.place c = .decided name false seen) :
    Step s (.took c name false (some seen)) (s.go c (.idle false) (s.sys.clearName c))
  | releaseNone (c : C) (held : Bool) (h : s.place c = .idle held)
    (h0 : (s.sys.claims c).hcName 0 = 0) :
    Step s (.released c) (s.go c (.idle false) s.sys)
  | release (c : C) (held : Bool) (h : s.place c = .idle held)
    (h0 : (s.sys.claims c).hcName 0 ≠ 0) :
    Step s (.acted c) (s.go c .releasing s.sys)
  | remove (c : C) (h : s.place c = .releasing) :
    Step s (.acted c) (s.go c .removed (s.sys.remSemaphore c))
  | clear (c : C) (h : s.place c = .removed) :
    Step s (.released c) (s.go c (.idle false) (s.sys.clearName c))

end Steps

/-! ## What each line changes -/

section Lemmas

variable {C : Type} [DecidableEq C] {s : Sys C} {c d : C} {name : CString} {x : Claim}

namespace Sys

@[simp] theorem set_claims : (s.set c x).claims d = if d = c then x else s.claims d :=
  Function.update_apply s.claims c x d

theorem set_claims_of_ne (h : d ≠ c) : (s.set c x).claims d = s.claims d := by
  rw [set_claims, if_neg h]

@[simp] theorem set_list : (s.set c x).list = s.list := rfl

@[simp] theorem string_set : (s.set c x).string d = if d = c then x.string else s.string d := by
  rw [string, set_claims]
  split <;> rfl

@[simp] theorem copyName_list : (s.copyName c name).list = s.list := rfl

@[simp] theorem clearName_list : (s.clearName c).list = s.list := rfl

@[simp] theorem linkName_list : (s.linkName c).list = s.list := rfl

@[simp] theorem string_linkName : (s.linkName c).string d = s.string d := by
  rw [linkName, string_set]
  split
  · rename_i h
    rw [h]
    rfl
  · rfl

/-- A name that fits is the claim's name. -/
theorem string_copyName (h : strlen name < HW_CLAIM_NAME_MAX) :
    (s.copyName c name).string d = if d = c then name.bytes else s.string d := by
  rw [copyName, string_set, Claim.string, (strlcpy_text h).read_eq h.le]

@[simp] theorem string_clearName :
    (s.clearName c).string d = if d = c then [] else s.string d := by
  rw [clearName, string_set]
  congr 1

omit [DecidableEq C] in
/-- The first byte says whether there is a name. -/
theorem string_eq_nil : s.string c = [] ↔ (s.claims c).hcName 0 = 0 := by
  change Block.read _ 32 0 = [] ↔ _
  rw [Block.read]
  split
  · rename_i h
    exact iff_of_true rfl h
  · rename_i h
    exact iff_of_false (List.cons_ne_nil _ _) h

omit [DecidableEq C] in
/-- **A name is free when no entry carries it.** -/
theorem findSemaphore_isNone (h : ∀ d ∈ s.list, (s.claims d).lnName = true) (l : List UInt8) :
    (s.findSemaphore l).isNone = true ↔ ∀ d ∈ s.list, s.string d ≠ l := by
  rw [Option.isNone_iff_eq_none, findSemaphore, List.find?_eq_none]
  refine forall₂_congr fun d hd => ?_
  rw [h d hd, Bool.true_and, beq_iff_eq]

end Sys

end Lemmas

end HwClaim
