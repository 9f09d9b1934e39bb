import Emu68Common.Machinery.Held
import Emu68Common.Prefs.File

/-!
# Prefs/Session — a prefs file from its opening to its closing

`prefs_open` takes dos.library and a file handle, or neither; `prefs_close` gives both back.  In
between the calls of `prefs_next` use them.  A session as `prefs.h` shows it therefore leaves
nothing held, whether or not it was refused something, and reads what the file says
(`session_exact`).

    prefs_open ──library, file──▸ prefs_next ⋯ prefs_next ──FALSE──▸ prefs_close
-/

namespace Prefs

open Machinery

/-! ## Exec and dos.library -/

/-- What is handed out: an opened library, by its base, and an opened file, by its handle. -/
inductive Res where
  | library (base : ℕ)
  | file (fh : ℕ)
  deriving DecidableEq, Repr

def openLibrary : Call Res ℕ := do
  let base ← ask
  if base = 0 then return 0
  take (.library base)
  return base

def closeLibrary (base : ℕ) : Call Res Unit := give (.library base)

/-- `Open`, a call of dos.library: a file handle, or zero. -/
def dosOpen (DOSBase : ℕ) : Call Res ℕ := do
  need (.library DOSBase)
  let fh ← ask
  if fh = 0 then return 0
  take (.file fh)
  return fh

def dosClose (DOSBase fh : ℕ) : Call Res Unit := do
  need (.library DOSBase)
  give (.file fh)

/-! ## The file -/

/-- `tc_Node.ln_Type` of a process. -/
def NT_PROCESS : ℕ := 13

/-- `struct prefs_file`; `left` is what is left of the file behind `fh`, and `line`. -/
structure PrefsFileRecord where
  SysBase : ℕ
  DOSBase : ℕ
  fh : ℕ
  left : PrefsFile

variable (dos : Dos) (files : String → List UInt8)

/-- `prefs_open(f, SysBase, path)`, for a task whose node has that type. -/
def prefsOpen (lnType : ℕ) (f : PrefsFileRecord) (SysBase : ℕ) (path : String) :
    Call Res (Bool × PrefsFileRecord) := do
  -- dos packet I/O needs a Process
  if lnType ≠ NT_PROCESS then return (false, f)
  let DOSBase ← openLibrary
  if DOSBase = 0 then return (false, f)
  let fh ← dosOpen DOSBase
  if fh = 0 then
    closeLibrary DOSBase
    return (false, { f with fh := 0 })
  return (true, ⟨SysBase, DOSBase, fh, ⟨files path, f.left.line⟩⟩)

/-- `prefs_next(f, &key, &val)`, if so many rounds of its loop are enough: every `FGets` is a call
of the library for the file. -/
def PrefsFileRecord.next (n : ℕ) (f : PrefsFileRecord) :
    Call Res (PrefsFileRecord × Option (ℕ × ℕ)) := do
  need (.library f.DOSBase)
  need (.file f.fh)
  let (left, r) ← fun w => (prefsNext dos n f.left).map fun a => (a, w)
  return ({ f with left := left }, r)

def prefsClose (f : PrefsFileRecord) : Call Res Unit := do
  dosClose f.DOSBase f.fh
  closeLibrary f.DOSBase

/-- `while (prefs_next(&f, &key, &val))`, in so many rounds: the settings it was given.  The caller
writes what it likes into the line before the next call. -/
def readAll (cut : ℕ → Block → Block) (n : ℕ) : ℕ → PrefsFileRecord →
    Call Res (List Setting × PrefsFileRecord)
  | 0, _ => fun _ => none
  | k + 1, f => do
    let (f, r) ← f.next dos n
    match answer f.left r with
    | none => return ([], f)
    | some s =>
      let (l, f) ← readAll cut n k { f with left := ⟨f.left.rest, cut k f.left.line⟩ }
      return (s :: l, f)

/-- **A session**, as `prefs.h` shows it: nothing where the file was not opened, else what it was
given. -/
def session (cut : ℕ → Block → Block) (n k lnType SysBase : ℕ) (f : PrefsFileRecord)
    (path : String) : Call Res (Option (List Setting)) := do
  let (opened, f) ← prefsOpen files lnType f SysBase path
  if !opened then return none
  let (l, f) ← readAll dos cut n k f
  prefsClose f
  return some l

/-! ## What is held -/

section Trade

variable {dos} {n k : ℕ} {f : PrefsFileRecord}

/-- What an opened file has. -/
def PrefsFileRecord.owns (f : PrefsFileRecord) : Multiset Res := {.file f.fh, .library f.DOSBase}

/-- **One call** answers with the first setting of what is left, and the file stays open. -/
theorem next_trades (hf : Fits f.left.rest) (hn : f.left.rest.length < n) :
    Trades f.owns (f.next dos n) fun a own =>
      own = a.1.owns ∧ answer a.1.left a.2 = (settings f.left.rest).head? ∧
        settings a.1.left.rest = (settings f.left.rest).tail ∧ Fits a.1.left.rest ∧
        a.1.left.rest.length ≤ f.left.rest.length := by
  obtain ⟨left, r, hcall, ha, hs, hfit, hle⟩ := prefsNext_eq dos f.left.line hf hn
  refine Trades.need_bind (by simp [PrefsFileRecord.owns])
    (Trades.need_bind (by simp [PrefsFileRecord.owns]) ?_)
  have hstep : Trades f.owns (fun w => (prefsNext dos n f.left).map fun a => (a, w) : Call Res _)
      fun a own => a = (left, r) ∧ own = f.owns :=
    fun w rest hw => ⟨(left, r), w, f.owns, by rw [hcall]; rfl, ⟨rfl, rfl⟩, hw⟩
  refine hstep.bind fun a own h => ?_
  obtain ⟨rfl, rfl⟩ := h
  exact .pure ⟨rfl, ha, hs, hfit, hle⟩

/-- **The loop is given the settings of what is left**, in order. -/
theorem readAll_trades (dos : Dos) (cut : ℕ → Block → Block) (hf : Fits f.left.rest)
    (hn : f.left.rest.length < n)
    (hk : (settings f.left.rest).length < k) :
    Trades f.owns (readAll dos cut n k f) fun a own =>
      own = a.2.owns ∧ a.1 = settings f.left.rest := by
  induction k generalizing f with
  | zero => exact absurd hk (Nat.not_lt_zero _)
  | succ k ih =>
    refine (next_trades hf hn).bind fun a own h => ?_
    obtain ⟨f', r⟩ := a
    obtain ⟨rfl, ha, hs, hfit, hle⟩ := h
    dsimp only at ha hs hfit hle ⊢
    rw [ha]
    cases hset : settings f.left.rest with
    | nil => exact .pure ⟨rfl, rfl⟩
    | cons s l =>
      rw [hset] at hs hk
      rw [List.head?_cons]
      refine (ih (f := { f' with left := ⟨f'.left.rest, cut k f'.left.line⟩ }) hfit
        (hle.trans_lt hn) ?_).bind
        fun a own h => ?_
      · exact hs ▸ Nat.lt_of_succ_lt_succ hk
      · obtain ⟨rfl, hl⟩ := h
        exact .pure ⟨rfl, congrArg (s :: ·) (hl.trans hs)⟩

/-- **Closing the file gives back both.** -/
theorem close_file_trades (f : PrefsFileRecord) :
    Trades f.owns (prefsClose f) fun _ own => own = 0 := by
  refine Trades.bind (Trades.need_bind (by simp [PrefsFileRecord.owns])
    (.give (by simp [PrefsFileRecord.owns])))
    fun _ own hown => ?_
  obtain rfl : own = {.library f.DOSBase} := by
    rw [hown, PrefsFileRecord.owns, Multiset.insert_eq_cons, Multiset.erase_cons_head]
  exact (Trades.give (Multiset.mem_singleton_self _)).mono fun _ own h =>
    h.trans (Multiset.erase_singleton _)

/-! ## A session -/

/-- **Opening a file**: both, for a process that is refused neither; else nothing to close. -/
theorem prefsOpen_trades (files : String → List UInt8) (lnType SysBase : ℕ) (f : PrefsFileRecord)
    (path : String) (w : World Res) :
    ∃ a w', prefsOpen files lnType f SysBase path w = some (a, w') ∧
      (a.1 = true ↔ lnType = NT_PROCESS ∧ w.answers 0 ≠ 0 ∧ w.answers 1 ≠ 0) ∧
      (a.1 = true → a.2.left.rest = files path) ∧
      w'.held = (if a.1 then a.2.owns else 0) + w.held := by
  by_cases ht : lnType = NT_PROCESS
  · by_cases hlib : w.answers 0 = 0
    · refine ⟨(false, f), { w with answers := fun n => w.answers (n + 1) }, ?_,
        iff_of_false Bool.false_ne_true (fun h => h.2.1 hlib),
        fun h => absurd h Bool.false_ne_true, (zero_add _).symm⟩
      rw [prefsOpen, if_neg (not_not_intro ht), bind_apply, openLibrary, ask_bind_apply,
        if_pos hlib]
      rfl
    · have hin : Res.library (w.answers 0) ∈ Res.library (w.answers 0) ::ₘ w.held :=
        Multiset.mem_cons_self _ _
      by_cases hfh : w.answers 1 = 0
      · refine ⟨(false, { f with fh := 0 }), { w with answers := fun n => w.answers (n + 2) }, ?_,
          iff_of_false Bool.false_ne_true (fun h => h.2.2 hfh),
          fun h => absurd h Bool.false_ne_true, (zero_add _).symm⟩
        rw [prefsOpen, if_neg (not_not_intro ht), bind_apply, openLibrary, ask_bind_apply,
          if_neg hlib, take_bind_apply, pure_apply, Option.bind_some, if_neg hlib, bind_apply,
          dosOpen, need_bind_apply hin, ask_bind_apply, if_pos hfh, pure_apply, Option.bind_some,
          if_pos rfl, closeLibrary, give_bind_apply hin, pure_apply, Multiset.erase_cons_head]
      · refine ⟨(true, ⟨SysBase, w.answers 0, w.answers 1, ⟨files path, f.left.line⟩⟩),
          ⟨.file (w.answers 1) ::ₘ .library (w.answers 0) ::ₘ w.held,
            fun n => w.answers (n + 2)⟩, ?_, iff_of_true rfl ⟨ht, hlib, hfh⟩, fun _ => rfl, ?_⟩
        · rw [prefsOpen, if_neg (not_not_intro ht), bind_apply, openLibrary, ask_bind_apply,
            if_neg hlib, take_bind_apply, pure_apply, Option.bind_some, if_neg hlib, bind_apply,
            dosOpen, need_bind_apply hin, ask_bind_apply, if_neg hfh, take_bind_apply, pure_apply,
            Option.bind_some, if_neg hfh, pure_apply]
        · rw [if_pos rfl, PrefsFileRecord.owns, Multiset.insert_eq_cons, Multiset.cons_add,
            Multiset.singleton_add]
  · exact ⟨(false, f), w, by rw [prefsOpen, if_pos ht, pure_apply],
      iff_of_false Bool.false_ne_true fun h => ht h.1, fun h => absurd h Bool.false_ne_true,
      (zero_add _).symm⟩

/-- **A session reads what the file says and leaves nothing behind**: a process that is refused
neither the library nor the file is given the settings of the file's lines, in order; anybody else
is given nothing; and what is held afterwards is what was held before. -/
theorem session_exact (dos : Dos) (files : String → List UInt8) (cut : ℕ → Block → Block)
    (lnType SysBase : ℕ) (f : PrefsFileRecord) (path : String) (hf : Fits (files path))
    (hn : (files path).length < n) (hk : (settings (files path)).length < k) (w : World Res) :
    ∃ w', session dos files cut n k lnType SysBase f path w =
        some (if lnType = NT_PROCESS ∧ w.answers 0 ≠ 0 ∧ w.answers 1 ≠ 0
          then some (settings (files path)) else none, w') ∧
      w'.held = w.held := by
  obtain ⟨⟨opened, f'⟩, w', hopen, hiff, hrest, hheld⟩ :=
    prefsOpen_trades files lnType SysBase f path w
  rw [session, bind_apply, hopen, Option.bind_some]
  cases opened with
  | false =>
    rw [if_neg (mt hiff.mpr Bool.false_ne_true)]
    exact ⟨w', rfl, hheld.trans (zero_add _)⟩
  | true =>
    rw [if_pos (hiff.mp rfl)]
    have hleft : f'.left.rest = files path := hrest rfl
    have hread := readAll_trades dos cut (hleft ▸ hf) (hleft ▸ hn) (hleft ▸ hk)
    rw [hleft] at hread
    have hthen : Trades f'.owns (do
        let (l, f) ← readAll dos cut n k f'
        prefsClose f
        return some l) fun a own => a = some (settings (files path)) ∧ own = 0 := by
      refine hread.bind fun a own h => ?_
      obtain ⟨rfl, hl⟩ := h
      exact (close_file_trades a.2).bind fun _ own hown => .pure ⟨congrArg some hl, hown⟩
    obtain ⟨a, w'', own, hrun, ⟨rfl, rfl⟩, hheld''⟩ := hthen w' w.held hheld
    exact ⟨w'', hrun, hheld''.trans (zero_add _)⟩

end Trade

/-- Two settings, read by a process. -/
theorem session_exact_two : ∃ w',
    session plainDos (fun _ => "a = b\nc = d".toUTF8.toList) (fun _ _ _ => 0x3d) 20 3 13 4
      ⟨0, 0, 0, [], fun _ => 0⟩ "ENV:x.prefs" ⟨0, fun _ => 1⟩ =
        some (some [([0x61], [0x62]), ([0x63], [0x64])], w') ∧ w'.held = 0 := by
  obtain ⟨w', hrun, hheld⟩ := session_exact plainDos (fun _ => "a = b\nc = d".toUTF8.toList)
    (fun _ _ _ => 0x3d) 13 4 ⟨0, 0, 0, [], fun _ => 0⟩ "ENV:x.prefs" (n := 20) (k := 3)
    ⟨by decide +kernel, by decide +kernel⟩ (by decide +kernel) (by decide +kernel) ⟨0, fun _ => 1⟩
  have hsettings : settings "a = b\nc = d".toUTF8.toList =
      [([0x61], [0x62]), ([0x63], [0x64])] := by decide +kernel
  refine ⟨w', hrun.trans ?_, hheld⟩
  rw [if_pos ⟨rfl, Nat.one_ne_zero, Nat.one_ne_zero⟩, hsettings]

end Prefs
