import Emu68Common.Devtree.Lookup
import Emu68Common.Machinery.Held
import Emu68Common.Prefs.Bool
import Emu68Common.Tools.CheckOurs

/-!
# Tools/Emu68Check — `emu68check`, and what the firmware is asked

The Install script asks one question of four and reads the answer off the return code.  The first is
the drivers' own, whether the firmware has the range opcodes (`emu68_probe_dcache_range_ops`); the
others are whose build a file is.  Every answer is exactly the one documented
(`emu68check_answers`), and the key of the device tree that was opened for it is closed.

    RANGEOPS                    /emu68 dcache-range-ops
    BSDSOCKET, OPENPCI, LSPCI   a tag in a file
    anything else               the usage, and RETURN_FAIL
-/

namespace CheckOurs

open Machinery Devtree Text

/-! ## The firmware -/

inductive Emu68ProbeResult where
  | EMU68_PROBE_NO_DEVICETREE
  | EMU68_PROBE_ABSENT
  | EMU68_PROBE_PRESENT
  deriving DecidableEq, Repr

open Emu68ProbeResult

variable {Key : Type}

/-- `DT_OpenKey`: an open key is held. -/
def dtOpenKey (DeviceTreeBase : Resource Key) (path : String) : Call Key (Option Key) := do
  let some key := DeviceTreeBase.openKey path | return none
  take key
  return some key

variable [DecidableEq Key]

def dtCloseKey (key : Key) : Call Key Unit := give key

/-- `DT_FindProperty`, of a key that is open. -/
def dtFindProperty (DeviceTreeBase : Resource Key) (key : Key) (propname : String) :
    Call Key (Option Property) := do
  need key
  return DeviceTreeBase.findProperty (some key) propname

/-- `prop != NULL && DT_GetPropLen(prop) == sizeof(ULONG)`, and its cell is 1. -/
def revisionOne : Option Property → Bool
  | none => false
  | some prop => prop.len == 4 && prop.value 0 == 1

/-- `emu68_probe_dcache_range_ops(SysBase)`, for what `OpenResource` finds. -/
def emu68ProbeDcacheRangeOps (DeviceTreeBase : Option (Resource Key)) :
    Call Key Emu68ProbeResult := do
  let some DeviceTreeBase := DeviceTreeBase | return EMU68_PROBE_NO_DEVICETREE
  let some key ← dtOpenKey DeviceTreeBase "/emu68" | return EMU68_PROBE_ABSENT
  let prop ← dtFindProperty DeviceTreeBase key "dcache-range-ops"
  let res := if revisionOne prop then EMU68_PROBE_PRESENT else EMU68_PROBE_ABSENT
  dtCloseKey key
  return res

/-! ## The command -/

def RETURN_FAIL : ℕ := 20

/-- What the usage error prints. -/
def usage : String :=
  "Usage: emu68check RANGEOPS | BSDSOCKET | OPENPCI | LSPCI\n" ++
  "  RANGEOPS:  RC 0 firmware has the dcache-range-ops capability,\n" ++
  "             5 absent, 10 not running under Emu68\n" ++
  "  BSDSOCKET: RC 0 LIBS:bsdsocket.library is lwip-amiga's,\n" ++
  "             5 another stack's, 10 none\n" ++
  "  OPENPCI:   RC 0 LIBS:openpci.library is the bcmpcie shim,\n" ++
  "             5 another one, 10 none\n" ++
  "  LSPCI:     RC 0 C:lspci is the bcmpcie one,\n" ++
  "             5 another one, 10 none\n"

def checkRangeops (DeviceTreeBase : Option (Resource Key)) : Call Key ℕ := do
  match ← emu68ProbeDcacheRangeOps DeviceTreeBase with
  | EMU68_PROBE_PRESENT => return RETURN_OK
  | EMU68_PROBE_ABSENT => return RETURN_WARN
  | EMU68_PROBE_NO_DEVICETREE => return RETURN_ERROR

/-- What `Open` and `Read` make of the files. -/
abbrev Files : Type := String → Option (List (Option (List UInt8)))

/-- `_Stricmp(argv[1], query) == 0`, in so many rounds. -/
def asks (n : ℕ) (argv1 : Block) (query : String) : Call Key Bool := fun w =>
  (stricmp argv1 (Prefs.constant (Prefs.word query)) n 0 0).map fun r => (r == 0, w)

/-- **`main`**: the return code, and what is printed. -/
def main (n : ℕ) (DeviceTreeBase : Option (Resource Key)) (files : Files) (argc : ℕ)
    (argv1 : Block) :
    Call Key (ℕ × String) := do
  if argc = 2 then
    if ← asks n argv1 "RANGEOPS" then
      return (← checkRangeops DeviceTreeBase, "")
    if ← asks n argv1 "BSDSOCKET" then
      return (checkOurs (files "LIBS:bsdsocket.library") lwipAmiga.toCString, "")
    if ← asks n argv1 "OPENPCI" then
      return (checkOurs (files "LIBS:openpci.library") bcmpcie.toCString, "")
    if ← asks n argv1 "LSPCI" then
      return (checkOurs (files "C:lspci") bcmpcie.toCString, "")
    return (RETURN_FAIL, usage)
  return (RETURN_FAIL, usage)

/-! ## What the answers say -/

/-- **The firmware advertises the range opcodes**, in the one revision there is. -/
def Advertised (tree : Resource Key) : Prop :=
  ∃ key prop, tree.openKey "/emu68" = some key ∧
    tree.findProperty (some key) "dcache-range-ops" = some prop ∧ prop.len = 4 ∧ prop.value 0 = 1

open Classical in
/-- The documented answer about the firmware. -/
noncomputable def rangeopsAnswer : Option (Resource Key) → Emu68ProbeResult
  | none => EMU68_PROBE_NO_DEVICETREE
  | some tree => if Advertised tree then EMU68_PROBE_PRESENT else EMU68_PROBE_ABSENT

/-- The documented return code for it. -/
def rangeopsCode : Emu68ProbeResult → ℕ
  | EMU68_PROBE_PRESENT => RETURN_OK
  | EMU68_PROBE_ABSENT => RETURN_WARN
  | EMU68_PROBE_NO_DEVICETREE => RETURN_ERROR

/-- The pieces of a file that were read: up to its end, or to an error. -/
def pieces : List (Option (List UInt8)) → List (List UInt8)
  | some (c :: buf) :: reads => (c :: buf) :: pieces reads
  | _ => []

/-- The documented answer about a file. -/
def oursAnswer (tag : Tag) : Option (List (Option (List UInt8))) → ℕ
  | none => RETURN_ERROR
  | some reads => if tag.bytes <:+: (pieces reads).flatten then RETURN_OK else RETURN_WARN

/-- A query, in any mix of cases. -/
def Asked (l : List UInt8) (query : String) : Prop := l.map fold = (Prefs.word query).map fold

instance (l : List UInt8) (query : String) : Decidable (Asked l query) :=
  inferInstanceAs (Decidable (_ = _))

/-- The queries about files: the file of each, and the tag that makes it ours. -/
def fileQueries : List (String × String × Tag) :=
  [("BSDSOCKET", "LIBS:bsdsocket.library", lwipAmiga), ("OPENPCI", "LIBS:openpci.library", bcmpcie),
    ("LSPCI", "C:lspci", bcmpcie)]

/-- **The documented return code.** -/
noncomputable def documented (DeviceTreeBase : Option (Resource Key)) (files : Files) (argc : ℕ)
    (l : List UInt8) : ℕ :=
  if argc ≠ 2 then RETURN_FAIL
  else if Asked l "RANGEOPS" then rangeopsCode (rangeopsAnswer DeviceTreeBase)
  else
    match fileQueries.find? (Asked l ·.1) with
    | some (_, path, tag) => oursAnswer tag (files path)
    | none => RETURN_FAIL

/-- A return code, and what is printed beside it. -/
def answer (rc : ℕ) : ℕ × String := (rc, if rc = RETURN_FAIL then usage else "")

/-! ## The firmware's answer -/

omit [DecidableEq Key] in
theorem openKey_trades (tree : Resource Key) (path : String) :
    Trades 0 (dtOpenKey tree path) fun key own =>
      key = tree.openKey path ∧ own = key.elim 0 fun k => {k} := by
  rw [dtOpenKey]
  cases tree.openKey path with
  | none => exact .pure ⟨rfl, rfl⟩
  | some key => exact .take_bind (.pure ⟨rfl, rfl⟩)

theorem findProperty_trades (tree : Resource Key) (key : Key) (propname : String) :
    Trades {key} (dtFindProperty tree key propname) fun prop own =>
      prop = tree.findProperty (some key) propname ∧ own = {key} :=
  Trades.need_bind (Multiset.mem_singleton_self _) (.pure ⟨rfl, rfl⟩)

omit [DecidableEq Key] in
theorem revisionOne_iff {tree : Resource Key} {key : Key}
    (hkey : tree.openKey "/emu68" = some key) :
    revisionOne (tree.findProperty (some key) "dcache-range-ops") = true ↔ Advertised tree := by
  cases hprop : tree.findProperty (some key) "dcache-range-ops" with
  | none =>
    refine iff_of_false Bool.false_ne_true ?_
    rintro ⟨k, prop, hk, hp, -⟩
    obtain rfl := Option.some.inj (hkey.symm.trans hk)
    exact Option.some_ne_none prop (hp.symm.trans hprop)
  | some prop =>
    rw [revisionOne, Bool.and_eq_true, beq_iff_eq, beq_iff_eq]
    refine ⟨fun h => ⟨key, prop, hkey, hprop, h⟩, ?_⟩
    rintro ⟨k, prop', hk, hp, h⟩
    obtain rfl := Option.some.inj (hkey.symm.trans hk)
    obtain rfl := Option.some.inj (hprop.symm.trans hp)
    exact h

/-- **The probe tells what the firmware advertises**, and closes the key it opens. -/
theorem probe_trades (DeviceTreeBase : Option (Resource Key)) :
    Trades 0 (emu68ProbeDcacheRangeOps DeviceTreeBase) fun res own =>
      res = rangeopsAnswer DeviceTreeBase ∧ own = 0 := by
  cases DeviceTreeBase with
  | none => exact .pure ⟨rfl, rfl⟩
  | some tree =>
    refine (openKey_trades tree "/emu68").bind fun key own h => ?_
    obtain ⟨hkey, rfl⟩ := h
    cases key with
    | none =>
      have hno : ¬Advertised tree := by
        rintro ⟨k, -, hk, -⟩
        exact Option.some_ne_none k (hk.symm.trans hkey.symm)
      exact .pure ⟨(if_neg hno).symm, rfl⟩
    | some key =>
      refine (findProperty_trades tree key _).bind fun prop own h => ?_
      obtain ⟨rfl, rfl⟩ := h
      refine .give_bind (Multiset.mem_singleton_self _) (.pure ⟨?_, Multiset.erase_singleton _⟩)
      classical exact if_congr (revisionOne_iff hkey.symm) rfl rfl

/-! ## The files' answer -/

/-- Only the pieces that were read matter. -/
theorem readLoop_pieces (tag : CString) (reads : List (Option (List UInt8))) (matched : ℕ) :
    readLoop tag reads matched = readLoop tag ((pieces reads).map some) matched := by
  induction reads generalizing matched with
  | nil => rfl
  | cons buf reads ih =>
    cases buf with
    | none => rfl
    | some buf =>
      cases buf with
      | nil => rfl
      | cons c buf =>
        rw [readLoop, pieces, List.map_cons, readLoop]
        simp only [ih]

theorem ne_nil_of_mem_pieces (reads : List (Option (List UInt8))) :
    ∀ piece ∈ pieces reads, piece ≠ [] := by
  induction reads with
  | nil => exact fun _ h => absurd h List.not_mem_nil
  | cons buf reads ih =>
    rcases buf with _ | _ | ⟨c, buf⟩
    · exact fun _ h => absurd h List.not_mem_nil
    · exact fun _ h => absurd h List.not_mem_nil
    · exact List.forall_mem_cons.mpr ⟨List.cons_ne_nil _ _, ih⟩

/-- **The scan finds a tag where it was read.** -/
theorem checkOurs_eq (tag : Tag) (fh : Option (List (Option (List UInt8)))) :
    checkOurs fh tag.toCString = oursAnswer tag fh := by
  cases fh with
  | none => rfl
  | some reads =>
    have hrun : readLoop tag.toCString ((pieces reads).map some) 0 = _ :=
      readLoop_eq (List.length_pos_iff.mpr tag.nonempty) (ne_nil_of_mem_pieces reads)
    have hseek := seek_zero tag.fresh tag.nonempty (pieces reads).flatten
    rw [checkOurs, oursAnswer, readLoop_pieces, hrun]
    simp only [← hseek, Option.isNone_iff_eq_none]

/-! ## The command's answer -/

variable {n argc : ℕ} {argv1 : Block} {l : List UInt8}

omit [DecidableEq Key] in
/-- A query is recognised in any mix of cases. -/
theorem asks_trades (hl : argv1.Text 0 l) (hn : l.length < n) {query : String}
    (hq : (0 : UInt8) ∉ Prefs.word query) :
    Trades 0 (asks n argv1 query : Call Key Bool)
      fun b own => (b = true ↔ Asked l query) ∧ own = 0 := by
  obtain ⟨r, hrun, hr⟩ := Prefs.stricmp_constant hl hq hn
  intro w rest hw
  refine ⟨r == 0, w, 0, ?_, ⟨beq_iff_eq.trans hr, rfl⟩, hw⟩
  rw [asks, hrun]
  rfl

theorem rangeops_trades (DeviceTreeBase : Option (Resource Key)) :
    Trades 0 (checkRangeops DeviceTreeBase) fun rc own =>
      rc = rangeopsCode (rangeopsAnswer DeviceTreeBase) ∧ own = 0 := by
  refine (probe_trades DeviceTreeBase).bind fun res own h => ?_
  obtain ⟨rfl, rfl⟩ := h
  cases rangeopsAnswer DeviceTreeBase with
  | EMU68_PROBE_PRESENT => exact .pure ⟨rfl, rfl⟩
  | EMU68_PROBE_ABSENT => exact .pure ⟨rfl, rfl⟩
  | EMU68_PROBE_NO_DEVICETREE => exact .pure ⟨rfl, rfl⟩

theorem rangeopsCode_ne (res : Emu68ProbeResult) : rangeopsCode res ≠ RETURN_FAIL := by
  cases res <;> decide

theorem oursAnswer_ne (tag : Tag) (fh : Option (List (Option (List UInt8)))) :
    oursAnswer tag fh ≠ RETURN_FAIL := by
  rw [oursAnswer.eq_def]
  split
  · decide
  · split <;> decide

omit [DecidableEq Key] in
/-- One question after the other. -/
theorem ask_step (hl : argv1.Text 0 l) (hn : l.length < n) {query : String}
    (hq : (0 : UInt8) ∉ Prefs.word query) {x y : Call Key (ℕ × String)}
    {post : ℕ × String → Multiset Key → Prop} (hx : Asked l query → Trades 0 x post)
    (hy : ¬Asked l query → Trades 0 y post) :
    Trades 0 (asks n argv1 query >>= fun b => if b = true then x else y) post := by
  refine (asks_trades hl hn hq).bind fun b own h => ?_
  obtain ⟨hb, rfl⟩ := h
  split
  · next h => exact hx (hb.mp h)
  · next h => exact hy (mt hb.mpr h)

omit [DecidableEq Key] in
/-- An answer about a file. -/
theorem ours_trades {fh : Option (List (Option (List UInt8)))} (tag : Tag) {rc : ℕ}
    (hrc : rc = oursAnswer tag fh) :
    Trades 0 (pure (checkOurs fh tag.toCString, "") : Call Key (ℕ × String)) fun r own =>
      r = answer rc ∧ own = 0 := by
  subst hrc
  exact .pure ⟨by rw [answer, checkOurs_eq, if_neg (oursAnswer_ne tag fh)], rfl⟩

/-- **The return code is the documented one**, and the usage is printed for nothing else. -/
theorem main_trades (DeviceTreeBase : Option (Resource Key)) (files : Files)
    (hl : argc = 2 → argv1.Text 0 l) (hn : l.length < n) :
    Trades 0 (main n DeviceTreeBase files argc argv1) fun r own =>
      r = answer (documented DeviceTreeBase files argc l) ∧ own = 0 := by
  rw [main, documented]
  by_cases hargc : argc = 2
  · have hl := hl hargc
    rw [if_pos hargc, if_neg (not_not_intro hargc)]
    refine ask_step hl hn (by decide) (fun h => ?_) fun hrange => ?_
    · rw [if_pos h]
      refine (rangeops_trades DeviceTreeBase).bind fun rc own h => ?_
      obtain ⟨rfl, rfl⟩ := h
      exact .pure ⟨by rw [answer, if_neg (rangeopsCode_ne _)], rfl⟩
    rw [if_neg hrange, fileQueries]
    simp only [List.find?_cons, List.find?_nil]
    refine ask_step hl hn (by decide) (fun h => ours_trades lwipAmiga ?_) fun hbsd => ?_
    · rw [decide_eq_true h]
    rw [decide_eq_false hbsd]
    refine ask_step hl hn (by decide) (fun h => ours_trades bcmpcie ?_) fun hpci => ?_
    · rw [decide_eq_true h]
    rw [decide_eq_false hpci]
    refine ask_step hl hn (by decide) (fun h => ours_trades bcmpcie ?_) fun hls => ?_
    · rw [decide_eq_true h]
    rw [decide_eq_false hls]
    exact .pure ⟨rfl, rfl⟩
  · rw [if_neg hargc, if_pos hargc]
    exact .pure ⟨rfl, rfl⟩

/-- **`emu68check` answers as documented**: for any argument, any device tree and any files, the
return code is the documented one, the usage is printed for it alone, and no key is left open. -/
theorem emu68check_answers (DeviceTreeBase : Option (Resource Key)) (files : Files)
    (hl : argc = 2 → argv1.Text 0 l) (hn : l.length < n) (w : World Key) :
    ∃ w', main n DeviceTreeBase files argc argv1 w =
        some (answer (documented DeviceTreeBase files argc l), w') ∧
      w'.held = w.held := by
  obtain ⟨r, w', own, hrun, ⟨rfl, rfl⟩, hheld⟩ :=
    main_trades DeviceTreeBase files hl hn w w.held (zero_add _).symm
  exact ⟨w', hrun, hheld.trans (zero_add _)⟩

/-- `emu68check lspci` on a machine without the file. -/
theorem emu68check_answers_lspci : ∃ w',
    main 6 none (fun _ => none) 2 (Prefs.constant (Prefs.word "lspci"))
        (⟨0, fun _ => 0⟩ : World Unit) = some ((10, ""), w') ∧ w'.held = 0 := by
  obtain ⟨w', hrun, hheld⟩ := emu68check_answers none (fun _ => none)
    (fun _ : 2 = 2 => Prefs.constant_text (w := Prefs.word "lspci") (by decide)) (by decide : _ < 6)
    (⟨0, fun _ => 0⟩ : World Unit)
  have hcode : documented (none : Option (Resource Unit)) (fun _ => none) 2 (Prefs.word "lspci") =
      10 := by decide
  rw [hcode] at hrun
  exact ⟨w', hrun, hheld⟩

end CheckOurs
