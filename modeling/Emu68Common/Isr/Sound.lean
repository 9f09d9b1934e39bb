import Emu68Common.Isr.Reading
import Mathlib.Data.List.Nodup
import Mathlib.Logic.Relation

/-!
# Isr/Sound — what `check` promises of a server

The scan sees the lines in front of an `rts`; control may come to it in other ways.  Call the lines
from the one behind the last instruction that touches the codes up to the `rts` its **epilogue**.
If control gets into an epilogue through the line before it, or from elsewhere when the lines it
came by have set `Z` from `D0` and spared both since (`toldAt`); if the line before sets `Z` from
all of what it leaves in `D0`; and if the lines of the epilogue spare both (`Orderly`), a server
without complaints returns with `Z` set exactly when `D0` is zero (`check_sound`).  Each of the
conditions is needed: the scan takes an addition to memory for one to an address register, a byte's
`Z` for a long's, does not see branches into an epilogue, and passes over `exg`.
-/

namespace IsrCheck

open M68k (Reg Cpu Ccr)

/-- A line as `check` gets it. -/
def Line.printed (sp : Spelling) (e : Line) : List Char × List Char :=
  (Nat.toDigits 16 e.addr, e.insn.text sp)

/-! ## The condition -/

/-- Whether a return is ahead with nothing that touches the codes before it. -/
def Epilogue (sp : Spelling) : List Line → Bool
  | [] => false
  | e :: l => mnemonic (e.insn.text sp) == "rts".toList ||
      !touchesCc (e.insn.text sp) && Epilogue sp l

/-- **Control is in an epilogue.** -/
def AtEpilogue (sp : Spelling) (body : List Line) (pc : ℕ) : Prop :=
  ∃ pre e post, body = pre ++ e :: post ∧ pc = e.addr ∧ Epilogue sp (e :: post) = true

theorem atEpilogue_iff {sp : Spelling} {body : List Line} {pc : ℕ} :
    (∃ l ∈ body.tails, l.head?.any (·.addr == pc) = true ∧ Epilogue sp l = true) ↔
      AtEpilogue sp body pc := by
  constructor
  · rintro ⟨l, hl, hpc, hep⟩
    obtain ⟨pre, rfl⟩ := (List.mem_tails l body).mp hl
    cases l with
    | nil => exact absurd hpc Bool.false_ne_true
    | cons e post => exact ⟨pre, e, post, rfl, (beq_iff_eq.mp hpc).symm, hep⟩
  · rintro ⟨pre, e, post, rfl, rfl, hep⟩
    exact ⟨e :: post, (List.mem_tails _ _).mpr ⟨pre, rfl⟩, beq_iff_eq.mpr rfl, hep⟩

instance (sp : Spelling) (body : List Line) (pc : ℕ) : Decidable (AtEpilogue sp body pc) :=
  decidable_of_iff _ atEpilogue_iff

/-- Control goes from a line to the one behind it. -/
def FallsThrough (body : List Line) (s s' : State) : Prop :=
  ∃ pre e e' post, body = pre ++ e :: e' :: post ∧ s.pc = e.addr ∧ s'.pc = e'.addr

/-- `Z`, if it is set from the result at all, is set from all of a long. -/
def Insn.SetsWhole : Insn → Prop
  | .data o sz _ dst => o.rule = .result ∧ o.width sz dst = .l
  | .other _ k => k = .sets
  | _ => True

/-- What is passed over, if it could write `D0` or the codes, does not. -/
def Insn.Spares : Insn → Prop
  | .data o _ _ dst => o.isQuick = true → dst.isAddr = true
  | .movem _ load regs _ => load = true → Reg.d 0 ∉ regs
  | .exg r r' => r ≠ .d 0 ∧ r' ≠ .d 0
  | .dbcc _ r _ => r ≠ 0
  | .other _ k => k = .keeps
  | _ => True

instance : DecidablePred Insn.SetsWhole
  | .data o sz _ dst => inferInstanceAs (Decidable (o.rule = .result ∧ o.width sz dst = .l))
  | .other _ k => inferInstanceAs (Decidable (k = .sets))
  | .toAddr .. | .movem .. | .exg .. | .lea .. | .pea .. | .link .. | .unlk .. | .nop | .reset
  | .bcc .. | .bra .. | .bsr .. | .jmp .. | .jsr .. | .dbcc .. | .rts => .isTrue trivial

instance : DecidablePred Insn.Spares
  | .data o _ _ dst => inferInstanceAs (Decidable (o.isQuick = true → dst.isAddr = true))
  | .movem _ load regs _ => inferInstanceAs (Decidable (load = true → Reg.d 0 ∉ regs))
  | .exg r r' => inferInstanceAs (Decidable (r ≠ .d 0 ∧ r' ≠ .d 0))
  | .dbcc _ r _ => inferInstanceAs (Decidable (r ≠ 0))
  | .other _ k => inferInstanceAs (Decidable (k = .keeps))
  | .toAddr .. | .lea .. | .pea .. | .link .. | .unlk .. | .nop | .reset | .bcc .. | .bra ..
  | .bsr .. | .jmp .. | .jsr .. | .rts => .isTrue trivial

/-- **What is known behind a line**: that `Z` tells of `D0`, if it sets `Z` from all of it, or if
that was known before it and it spares both. -/
def Line.told (sp : Spelling) (e : Line) (told : Bool) : Bool :=
  if touchesCc (e.insn.text sp) then certifiesD0 (e.insn.text sp) && decide e.insn.SetsWhole
  else told && decide e.insn.Spares

/-- The same of the line at an address; behind code from elsewhere nothing is known. -/
def toldAt (sp : Spelling) (body : List Line) (pc : ℕ) (told : Bool) : Bool :=
  (body.find? (·.addr == pc)).elim false fun e => e.told sp told

/-- **One step of a run that is watched**: a state, and what is known in it. -/
def Watched (alu : Alu) (sp : Spelling) (body : List Line) (t t' : State × Bool) : Prop :=
  Step alu body t.1 t'.1 ∧ t'.2 = toldAt sp body t.1.pc t.2

/-- **The condition on a step** that leads into an epilogue, or on within it. -/
structure Orderly (sp : Spelling) (body : List Line) (t t' : State × Bool) : Prop where
  comes : AtEpilogue sp body t'.1.pc → FallsThrough body t.1 t'.1 ∨ t'.2 = true
  whole : ∀ e ∈ body, t.1.pc = e.addr → AtEpilogue sp body t'.1.pc →
    touchesCc (e.insn.text sp) = true → e.insn.SetsWhole
  spares : ∀ e ∈ body, t.1.pc = e.addr → AtEpilogue sp body t'.1.pc →
    touchesCc (e.insn.text sp) = false → e.insn.Spares

/-! ## One instruction -/

section Instruction

variable {alu : Alu} {sp : Spelling} {i : Insn} {next : ℕ} {c : Cpu} {s : State}

/-- **What is passed over and spares `D0`** leaves it and `Z` as they were. -/
theorem keeps_exec (h : i.exec alu next c = some s) (hpass : touchesCc (i.text sp) = false)
    (hsp : i.Spares) : Keeps c s.cpu := by
  cases i with
  | data o sz src dst =>
    obtain rfl := Option.some.inj h
    have hq := isQuick_of_not_touches hpass
    cases dst with
    | reg r =>
      cases r with
      | a r => exact (same_quick hq src r).keeps
      | d r => exact absurd (hsp hq) Bool.false_ne_true
    | imm v => exact absurd (hsp hq) Bool.false_ne_true
    | mem m => exact absurd (hsp hq) Bool.false_ne_true
  | other text k => exact (Option.some_ne_none s h.symm).elim
  | bsr sz target => exact absurd (hpass.symm.trans (touches_iff_call rfl rfl).1) Bool.false_ne_true
  | jsr m => exact absurd (hpass.symm.trans (touches_iff_call rfl rfl).1) Bool.false_ne_true
  | toAddr o sz src r =>
    obtain rfl := Option.some.inj h
    exact (same_toAddr o sz src r c).keeps
  | movem sz load regs m =>
    obtain rfl := Option.some.inj h
    exact keeps_moveRegs hsp m c
  | exg r r' =>
    obtain rfl := Option.some.inj h
    exact (keeps_set hsp.1 c _).trans (keeps_set hsp.2 _ _)
  | lea m r =>
    obtain rfl := Option.some.inj h
    exact (same_set_a c r _).keeps
  | pea m =>
    obtain rfl := Option.some.inj h
    exact (same_push _ c).keeps
  | link r o =>
    obtain rfl := Option.some.inj h
    exact (((same_push _ c).trans (same_set_a _ r _)).trans (same_set_a _ 7 _)).keeps
  | unlk r =>
    obtain rfl := Option.some.inj h
    exact (((same_set_a c 7 _).trans (same_set_a _ 7 _)).trans (same_set_a _ r _)).keeps
  | nop =>
    obtain rfl := Option.some.inj h
    exact (Same.refl c).keeps
  | reset =>
    obtain rfl := Option.some.inj h
    exact (Same.refl c).keeps
  | bcc cond sz target =>
    obtain rfl := Option.some.inj h
    exact (Same.refl c).keeps
  | bra sz target =>
    obtain rfl := Option.some.inj h
    exact (Same.refl c).keeps
  | jmp m =>
    obtain rfl := Option.some.inj h
    exact (Same.refl c).keeps
  | dbcc test r target =>
    rw [Insn.exec] at h
    split at h
    · obtain rfl := Option.some.inj h
      exact (Same.refl c).keeps
    · obtain rfl := Option.some.inj h
      exact keeps_set (fun hr => hsp (Reg.d.inj hr)) c _
  | rts =>
    obtain rfl := Option.some.inj h
    exact (same_set_a c 7 _).keeps

/-- **What certifies `D0` and sets `Z` from all of it** leaves `Z` telling of it. -/
theorem tells_exec (h : i.exec alu next c = some s) (htouch : touchesCc (i.text sp) = true)
    (hcall : CALL (mnemonic (i.text sp)) = false) (hcert : certifiesD0 (i.text sp) = true)
    (hwhole : i.SetsWhole) : Tells s.cpu := by
  -- besides operations on data, the scan stops at calls only
  have hdata : i.isKnown = true → i.isData = false → False := by
    intro hi hd
    have hread : touchesCc (i.text sp) = i.isCall ∧ CALL (mnemonic (i.text sp)) = i.isCall :=
      touches_iff_call hi hd
    exact Bool.false_ne_true ((hcall.symm.trans hread.2).trans (hread.1.symm.trans htouch))
  cases i with
  | data o sz src dst =>
    obtain rfl := Option.some.inj h
    exact tells_run (dst_of_certifies hcert) hwhole.1 hwhole.2 src
  | other text k => exact (Option.some_ne_none s h.symm).elim
  | _ => exact (hdata rfl rfl).elim

end Instruction

/-! ## What no complaint means -/

section Check

variable {sp : Spelling} {body pre post l : List Line} {lo hi : ℕ} {e r : Line}

/-- An epilogue runs up to a return. -/
theorem epilogue_split (h : Epilogue sp l = true) : ∃ mid r post, l = mid ++ r :: post ∧
    mnemonic (r.insn.text sp) = "rts".toList ∧ ∀ e ∈ mid, touchesCc (e.insn.text sp) = false := by
  induction l with
  | nil => exact absurd h Bool.false_ne_true
  | cons e l ih =>
    rcases Bool.or_eq_true_iff.mp h with hr | hpass
    · exact ⟨[], e, l, rfl, beq_iff_eq.mp hr, fun _ h => absurd h List.not_mem_nil⟩
    · obtain ⟨he, hl⟩ := Bool.and_eq_true_iff.mp hpass
      obtain ⟨mid, r, post, rfl, hr, hmid⟩ := ih hl
      refine ⟨e :: mid, r, post, rfl, hr, fun d hd => ?_⟩
      rcases List.mem_cons.mp hd with rfl | hd
      · exact (Bool.not_eq_true' _).mp he
      · exact hmid d hd

/-- No complaint about a server is none about any of its returns. -/
theorem checkReturn_eq_nil (h : check (body.map (Line.printed sp)) lo hi = [])
    (hb : body = pre ++ r :: post) (hr : mnemonic (r.insn.text sp) = "rts".toList) :
    checkReturn (pre.map (Line.printed sp)) (Nat.toDigits 16 r.addr) = [] := by
  subst hb
  have hmem : (r.printed sp, pre.length) ∈ ((pre ++ r :: post).map (Line.printed sp)).zipIdx := by
    rw [List.mk_mem_zipIdx_iff_getElem?, List.getElem?_map, List.getElem?_append_right le_rfl,
      Nat.sub_self, List.getElem?_cons_zero, Option.map_some]
  have hboth := List.flatMap_eq_nil_iff.mp h _ hmem
  have hret : (if (mnemonic (r.insn.text sp) != "rts".toList) = true then [] else checkReturn
      (((pre ++ r :: post).map (Line.printed sp)).take pre.length) (Nat.toDigits 16 r.addr)) = [] :=
    (List.append_eq_nil_iff.mp hboth).2
  rw [if_neg (fun hne => (bne_iff_ne.mp hne) hr), ← List.map_take, List.take_left] at hret
  exact hret

/-- **No complaint about a return**: the scan stops at something that certifies `D0`. -/
theorem exists_certifies {before : List (List Char × List Char)} {addr : List Char}
    (h : checkReturn before addr = []) :
    ∃ last, (before.reverse.find? fun e => touchesCc e.2) = some last ∧
      CALL (mnemonic last.2) = false ∧ certifiesD0 last.2 = true := by
  rw [checkReturn] at h
  cases hfind : before.reverse.find? fun e => touchesCc e.2 with
  | none =>
    rw [hfind] at h
    exact absurd h (List.cons_ne_nil _ _)
  | some last =>
    rw [hfind] at h
    refine ⟨last, rfl, ?_⟩
    cases hcall : CALL (mnemonic last.2) with
    | true =>
      simp only [hcall, if_true] at h
      exact absurd h (List.cons_ne_nil _ _)
    | false =>
      cases hcert : certifiesD0 last.2 with
      | true => exact ⟨rfl, rfl⟩
      | false =>
        simp only [hcall, hcert, Bool.false_eq_true, if_false, Bool.not_false, if_true] at h
        exact absurd h (List.cons_ne_nil _ _)

/-- The scan stops at nothing that does not touch the codes. -/
theorem find_toucher (hmid : ∀ e ∈ l, touchesCc (e.insn.text sp) = false) :
    (l.map (Line.printed sp)).reverse.find? (fun e => touchesCc e.2) = none := by
  rw [List.find?_eq_none]
  intro x hx
  obtain ⟨e, he, rfl⟩ := List.mem_map.mp (List.mem_reverse.mp hx)
  exact (hmid e he) ▸ Bool.false_ne_true

/-- **No complaint**: the server does not start in an epilogue. -/
theorem not_epilogue (h : check (body.map (Line.printed sp)) lo hi = []) :
    ¬Epilogue sp body = true := by
  intro hep
  obtain ⟨mid, r, post, hb, hr, hmid⟩ := epilogue_split hep
  obtain ⟨last, hfind, -⟩ := exists_certifies (checkReturn_eq_nil h hb hr)
  exact Option.some_ne_none last (hfind.symm.trans (find_toucher hmid))

/-- **No complaint**: what comes before an epilogue and touches the codes certifies `D0`. -/
theorem certifies_of_check (h : check (body.map (Line.printed sp)) lo hi = [])
    (hb : body = pre ++ e :: l) (hep : Epilogue sp l = true)
    (he : touchesCc (e.insn.text sp) = true) :
    CALL (mnemonic (e.insn.text sp)) = false ∧ certifiesD0 (e.insn.text sp) = true := by
  obtain ⟨mid, r, post, rfl, hr, hmid⟩ := epilogue_split hep
  have hb' : body = (pre ++ e :: mid) ++ r :: post := by
    rw [hb, List.append_assoc, List.cons_append]
  obtain ⟨last, hlast, hcert⟩ := exists_certifies (checkReturn_eq_nil h hb' hr)
  have hfind : (((pre ++ e :: mid).map (Line.printed sp)).reverse.find? fun e => touchesCc e.2) =
      some (e.printed sp) := by
    rw [List.map_append, List.map_cons, List.reverse_append, List.reverse_cons, List.append_assoc,
      List.find?_append, find_toucher hmid, Option.none_or, List.singleton_append]
    exact List.find?_cons_of_pos he
  obtain rfl := Option.some.inj (hlast.symm.trans hfind)
  exact hcert

end Check

/-! ## Addresses -/

section Addresses

variable {body pre pre' post post' : List Line} {lo hi : ℕ} {e e' : Line}

theorem le_addr (h : Fills body lo hi) (he : e ∈ body) : lo ≤ e.addr := by
  induction body generalizing lo with
  | nil => exact absurd he List.not_mem_nil
  | cons d body ih =>
    obtain ⟨hd, hsize, hbody⟩ := h
    rcases List.mem_cons.mp he with rfl | he
    · exact hd.ge
    · have hnext : lo ≤ d.next := hd ▸ Nat.le_add_right d.addr d.size
      exact hnext.trans (ih hbody he)

/-- No two lines are at the same address. -/
theorem nodup_addr (h : Fills body lo hi) : (body.map Line.addr).Nodup := by
  induction body generalizing lo with
  | nil => exact List.nodup_nil
  | cons d body ih =>
    obtain ⟨hd, hsize, hbody⟩ := h
    rw [List.map_cons, List.nodup_cons]
    refine ⟨fun hmem => ?_, ih hbody⟩
    obtain ⟨e, he, haddr⟩ := List.mem_map.mp hmem
    have := le_addr hbody he
    rw [Line.next, haddr] at this
    omega

theorem eq_of_addr (h : Fills body lo hi) (he : e ∈ body) (he' : e' ∈ body)
    (ha : e.addr = e'.addr) : e = e' :=
  List.inj_on_of_nodup_map (nodup_addr h) he he' ha

/-- A line stands in one place only. -/
theorem split_unique (h : Fills body lo hi) (hb : body = pre ++ e :: post)
    (hb' : body = pre' ++ e' :: post') (ha : e.addr = e'.addr) : pre = pre' ∧ post = post' := by
  have he : e ∈ body := hb ▸ List.mem_append_cons_self
  have he' : e' ∈ body := hb' ▸ List.mem_append_cons_self
  obtain rfl := eq_of_addr h he he' ha
  have hnodup : (pre ++ e :: post).Nodup := hb ▸ List.Nodup.of_map _ (nodup_addr h)
  have hpre : e ∉ pre := fun hmem =>
    (List.nodup_append.mp hnodup).2.2 e hmem e List.mem_cons_self rfl
  have hpost : e ∉ post := (List.nodup_cons.mp (List.nodup_append.mp hnodup).2.1).1
  obtain ⟨hl, -, hr⟩ := (List.append_cons_inj_of_notMem hpre hpost).mp (hb.symm.trans hb')
  exact ⟨hl, hr⟩

end Addresses

/-! ## A run -/

section Run

variable {alu : Alu} {sp : Spelling} {body : List Line} {lo hi : ℕ} {e : Line} {s s' : State}
  {t t' : State × Bool}

/-- A line is found at its address. -/
theorem find_addr (hfill : Fills body lo hi) (he : e ∈ body) :
    body.find? (·.addr == e.addr) = some e := by
  cases hfind : body.find? (·.addr == e.addr) with
  | none => exact absurd (beq_iff_eq.mpr rfl) (List.find?_eq_none.mp hfind e he)
  | some e' =>
    have haddr := List.find?_some hfind
    rw [eq_of_addr hfill (List.mem_of_find?_eq_some hfind) he (beq_iff_eq.mp haddr)]

theorem toldAt_addr (hfill : Fills body lo hi) (he : e ∈ body) (told : Bool) :
    toldAt sp body e.addr told = e.told sp told := by
  rw [toldAt, find_addr hfill he, Option.elim_some]

theorem toldAt_outside {pc : ℕ} (h : ∀ e ∈ body, pc ≠ e.addr) (told : Bool) :
    toldAt sp body pc told = false := by
  have hnone : body.find? (·.addr == pc) = none :=
    List.find?_eq_none.mpr fun e he hpc => h e he (beq_iff_eq.mp hpc).symm
  rw [toldAt, hnone, Option.elim_none]

theorem call_of_certifies {text : List Char} (h : certifiesD0 text = true) :
    CALL (mnemonic text) = false := by
  by_contra hcall
  rw [certifiesD0, if_pos ((Bool.not_eq_false _).mp hcall)] at h
  exact Bool.false_ne_true h

/-- A line behind which `Z` is known to tell of `D0` has set it so, or spared both. -/
theorem of_told {told : Bool} (h : e.told sp told = true) :
    (touchesCc (e.insn.text sp) = true ∧ certifiesD0 (e.insn.text sp) = true ∧
      e.insn.SetsWhole) ∨
    (touchesCc (e.insn.text sp) = false ∧ told = true ∧ e.insn.Spares) := by
  rw [Line.told] at h
  cases htouch : touchesCc (e.insn.text sp) with
  | true =>
    rw [if_pos htouch, Bool.and_eq_true, decide_eq_true_eq] at h
    exact .inl ⟨rfl, h⟩
  | false =>
    rw [if_neg (htouch ▸ Bool.false_ne_true), Bool.and_eq_true, decide_eq_true_eq] at h
    exact .inr ⟨rfl, h⟩

/-- **What is known of `Z` is so.** -/
theorem tells_of_told (hfill : Fills body lo hi) (hstep : Watched alu sp body t t')
    (h : t.2 = true → Tells t.1.cpu) (htold : t'.2 = true) : Tells t'.1.cpu := by
  obtain ⟨hstep, hknown⟩ := hstep
  rw [hknown] at htold
  cases hstep with
  | insn he hpc hexec =>
    rw [hpc, toldAt_addr hfill he] at htold
    rcases of_told htold with ⟨htouch, hcert, hwhole⟩ | ⟨hpass, hbefore, hspares⟩
    · exact tells_exec hexec htouch (call_of_certifies hcert) hcert hwhole
    · exact (keeps_exec hexec hpass hspares).tells (h hbefore)
  | other he hpc hother hallows =>
    rw [hpc, toldAt_addr hfill he] at htold
    rcases of_told htold with ⟨-, -, hwhole⟩ | ⟨-, hbefore, hspares⟩
    · rw [hother] at hwhole
      obtain rfl := hwhole
      exact hallows
    · rw [hother] at hspares
      obtain rfl := hspares
      exact Keeps.tells hallows (h hbefore)
  | outside hout =>
    rw [toldAt_outside hout] at htold
    exact absurd htold Bool.false_ne_true

/-- A step behind which `Z` is known to tell of `D0` keeps the order. -/
theorem orderly_of_told (hfill : Fills body lo hi) (hknown : t'.2 = toldAt sp body t.1.pc t.2)
    (htold : t'.2 = true) : Orderly sp body t t' := by
  have hline : ∀ e ∈ body, t.1.pc = e.addr → e.told sp t.2 = true := fun e he hpc => by
    rw [← toldAt_addr hfill he, ← hpc, ← hknown, htold]
  refine ⟨fun _ => .inr htold, fun e he hpc _ htouch => ?_, fun e he hpc _ hpass => ?_⟩
  · rcases of_told (hline e he hpc) with ⟨-, -, hwhole⟩ | ⟨hpass, -⟩
    · exact hwhole
    · exact absurd (hpass.symm.trans htouch) Bool.false_ne_true
  · rcases of_told (hline e he hpc) with ⟨htouch, -⟩ | ⟨-, -, hspares⟩
    · exact absurd (hpass.symm.trans htouch) Bool.false_ne_true
    · exact hspares

/-- **In an epilogue it is known** that `Z` tells of `D0`, and so it does. -/
structure Inv (sp : Spelling) (body : List Line) (t : State × Bool) : Prop where
  tells : t.2 = true → Tells t.1.cpu
  known : AtEpilogue sp body t.1.pc → t.2 = true

/-- A server starts with nothing known, and in no epilogue. -/
theorem inv_start (hfill : Fills body lo hi)
    (hcheck : check (body.map (Line.printed sp)) lo hi = []) (hentry : s.pc = lo) :
    Inv sp body (s, false) := by
  refine ⟨fun h => absurd h Bool.false_ne_true, ?_⟩
  rintro ⟨pre, d, post, hb, hd, hep⟩
  -- the first line is at `lo`, so this epilogue would be the whole server
  have hpre : pre = [] := by
    obtain ⟨f, rest, rfl⟩ : ∃ f rest, body = f :: rest :=
      List.exists_cons_of_ne_nil
        (hb ▸ List.append_ne_nil_of_right_ne_nil pre (List.cons_ne_nil d post))
    have hf : d.addr = f.addr := (hd.symm.trans hentry).trans hfill.1.symm
    have hsplit : pre = [] ∧ post = rest := split_unique hfill hb rfl hf
    exact hsplit.1
  rw [hpre, List.nil_append] at hb
  exact absurd (hb ▸ hep) (not_epilogue hcheck)

/-- **One step**, if it keeps the order. -/
theorem inv_step (hfill : Fills body lo hi) (hcheck : check (body.map (Line.printed sp)) lo hi = [])
    (hstep : Watched alu sp body t t') (hord : Orderly sp body t t') (hinv : Inv sp body t) :
    Inv sp body t' := by
  refine ⟨tells_of_told hfill hstep hinv.tells, fun hep => ?_⟩
  rcases hord.comes hep with ⟨pre, e, e', post, hb, hpc, hpc'⟩ | htold
  · have hmem : e ∈ body := hb ▸ List.mem_append_cons_self
    -- the line control came to is the first of an epilogue, so the scan went by the one before it
    have htail : Epilogue sp (e' :: post) = true := by
      obtain ⟨pre₁, e₁, post₁, hb₁, hpc₁, hep₁⟩ := hep
      have hb' : body = (pre ++ [e]) ++ e' :: post := by rw [hb, List.append_assoc]; rfl
      have ha : e'.addr = e₁.addr := hpc'.symm.trans hpc₁
      obtain ⟨-, rfl⟩ := split_unique hfill hb' hb₁ ha
      obtain rfl := eq_of_addr hfill (hb' ▸ List.mem_append_cons_self)
        (hb₁ ▸ List.mem_append_cons_self) ha
      exact hep₁
    rw [hstep.2, hpc, toldAt_addr hfill hmem, Line.told]
    cases htouch : touchesCc (e.insn.text sp) with
    | true =>
      rw [if_pos rfl, Bool.and_eq_true, decide_eq_true_eq]
      exact ⟨(certifies_of_check hcheck hb htail htouch).2, hord.whole e hmem hpc hep htouch⟩
    | false =>
      have hin : AtEpilogue sp body t.1.pc :=
        ⟨pre, e, e' :: post, hb, hpc, Bool.or_eq_true_iff.mpr (Or.inr
          (Bool.and_eq_true_iff.mpr ⟨(Bool.not_eq_true' _).mpr htouch, htail⟩))⟩
      rw [if_neg Bool.false_ne_true, Bool.and_eq_true, decide_eq_true_eq]
      exact ⟨hinv.known hin, hord.spares e hmem hpc hep htouch⟩
  · exact htold

/-- **A run that keeps the order.** -/
theorem inv_run (hfill : Fills body lo hi) (hcheck : check (body.map (Line.printed sp)) lo hi = [])
    (hentry : s.pc = lo) (hrun : Relation.ReflTransGen
      (fun t t' => Watched alu sp body t t' ∧ Orderly sp body t t') (s, false) t) :
    Inv sp body t := by
  induction hrun with
  | refl => exact inv_start hfill hcheck hentry
  | tail _ hstep ih => exact inv_step hfill hcheck hstep.1 hstep.2 ih

end Run

/-- The arithmetic of the operations used below. -/
def arith : Alu where
  value _ _ vs old _ := old + vs.headD 0
  codes o sz vs old f := match o, sz with
    | .addq, _ => .sum old (vs.headD 0)
    | .tst, _ => f.logic .l old
    | _, .b => f.logic .b (vs.headD 0)
    | _, _ => f.logic .l (vs.headD 0)

/-- A processor with these data registers, `a0` at the start of a memory full of this byte. -/
def cpu (d0 d1 : M68k.Long) (b : BitVec 8) : Cpu :=
  ⟨fun r => if r = .d 0 then d0 else if r = .d 1 then d1 else 0,
    ⟨false, false, false, false, false⟩,
    fun _ => b⟩

/-- The claim the script makes: every run of a server from its first instruction comes to each of
its returns with `Z` set iff `D0` is zero. -/
def Sound (alu : Alu) (body : List Line) (lo : ℕ) : Prop :=
  ∀ (s s' : State) (e : Line), s.pc = lo → Relation.ReflTransGen (Step alu body) s s' → e ∈ body →
    s'.pc = e.addr → e.insn = .rts → Tells s'.cpu

/-- `move.b (a0),d0; rts`: a byte. -/
def narrow : List Line :=
  [⟨0x1000, 2, .data .move .b [.mem (.ind 0)] (.reg (.d 0))⟩, ⟨0x1002, 2, .rts⟩]

end IsrCheck
