import Emu68Common.Isr.Check
import Emu68Common.Isr.Exec

/-!
# Isr/Reading — what the scan makes of a printed instruction

A mnemonic is printed in lower case and without blanks, so the scan reads it back
(`mnemonic_text`).  From there on it is a matter of tables: which operations it passes over
(`isQuick_of_not_touches`), that it stops at calls and passes over all other transfers of control
(`touches_iff_call`), and that nothing but `D0` is taken for `d0` (`dst_of_certifies`).
-/

namespace IsrCheck

open M68k (Reg)
open PerfLog (isSpace)

/-! ## Mnemonics -/

section Reads

variable {sp : Spelling} {o : Op} {sz : Size} {src : List Operand} {dst : Operand} {i : Insn}

/-- Whether an instruction is in the table. -/
def Insn.isKnown : Insn → Bool
  | .other _ _ => false
  | _ => true

theorem plain_op (sp : Spelling) (o : Op) (sz : Size) : Plain (o.name sp sz) := by
  cases o with
  | scc test =>
    change Plain (Op.name .mit (.scc test) .b)
    cases test with
    | on c => cases c <;> decide
    | _ => decide
  | _ => cases sz <;> cases sp <;> decide

/-- Calls. -/
def Insn.isCall : Insn → Bool
  | .bsr _ _ | .jsr _ => true
  | _ => false

/-- Whether an instruction is an operation on data. -/
def Insn.isData : Insn → Bool
  | .data _ _ _ _ => true
  | _ => false

/-- The mnemonics the scan passes over. -/
def passes (m : List Char) : Bool := startswith m CC_TRANSPARENT || BRANCH m || DBCC m

/-- A mnemonic that is a call's, or one the scan passes over. -/
def Control (m : List Char) (call : Bool) : Prop :=
  Plain m ∧ CALL m = call ∧ (call || passes m) = true

instance (m : List Char) (call : Bool) : Decidable (Control m call) :=
  inferInstanceAs (Decidable (_ ∧ _))

/-- **All but the operations on data** are calls or passed over. -/
theorem control_name (sp : Spelling) (hi : i.isKnown = true) (hd : i.isData = false) :
    Control (i.name sp) i.isCall := by
  cases i with
  | data o sz src dst => exact absurd hd.symm Bool.false_ne_true
  | other text known => exact absurd hi Bool.false_ne_true
  | bcc c sz target =>
    change Control ("b".toList ++ c.name.toList ++ sz.reach sp) false
    cases c <;> cases sz <;> cases sp <;> decide
  | dbcc test r target =>
    change Control ("db".toList ++ test.name.toList) false
    cases test with
    | on c => cases c <;> decide
    | _ => decide
  | toAddr o sz src r =>
    change Control (o.stem.toList ++ sz.suffix sp) false
    cases o <;> cases sz <;> cases sp <;> decide
  | movem sz load regs m =>
    change Control ("movem".toList ++ sz.suffix sp) false
    cases sz <;> cases sp <;> decide
  | bra sz target =>
    change Control ("bra".toList ++ sz.reach sp) false
    cases sz <;> cases sp <;> decide
  | bsr sz target =>
    change Control ("bsr".toList ++ sz.reach sp) true
    cases sz <;> cases sp <;> decide
  | link r o =>
    change Control ("link".toList ++ Size.w.suffix sp) false
    cases sp <;> decide
  | exg r r' => exact (by decide : Control "exg".toList false)
  | lea m r => exact (by decide : Control "lea".toList false)
  | pea m => exact (by decide : Control "pea".toList false)
  | unlk r => exact (by decide : Control "unlk".toList false)
  | nop => exact (by decide : Control "nop".toList false)
  | reset => exact (by decide : Control "reset".toList false)
  | jmp m => exact (by decide : Control "jmp".toList false)
  | jsr m => exact (by decide : Control "jsr".toList true)
  | rts => exact (by decide : Control "rts".toList false)

theorem plain_name (hi : i.isKnown = true) : Plain (i.name sp) := by
  cases i with
  | data o sz src dst => exact plain_op sp o sz
  | _ => exact (control_name sp hi rfl).1

/-- **The mnemonic is read back.** -/
theorem mnemonic_text (hi : i.isKnown = true) : mnemonic (i.text sp) = i.name sp := by
  have htext : i.text sp = i.name sp ++ (i.args sp).elim [] (List.cons ' ') := by
    cases i with
    | other text known => exact absurd hi Bool.false_ne_true
    | _ => rfl
  rw [htext]
  cases i.args sp with
  | none =>
    rw [Option.elim_none, List.append_nil]
    exact mnemonic_alone (plain_name hi)
  | some args => exact mnemonic_append (plain_name hi) args

/-- A digit is no blank and no comma. -/
theorem isHex_solid {c : Char} (hc : isHex c = true) : isSpace c = false ∧ c ≠ ',' := by
  have hlow : 48 ≤ c.toNat := by
    rcases Bool.or_eq_true_iff.mp hc with h | h
    · exact (Char.isDigit_iff_toNat.mp h).1
    · have ha : 'a' ≤ c := of_decide_eq_true (Bool.and_eq_true_iff.mp h).1
      exact le_trans (by decide) (UInt32.le_iff_toNat_le.mp (Char.le_def.mp ha))
  constructor
  · rw [isSpace, Bool.or_eq_false_iff, Bool.or_eq_false_iff, Bool.and_eq_false_iff,
      Bool.and_eq_false_iff]
    refine ⟨⟨beq_false_of_ne ?_, Or.inr (decide_eq_false (by omega))⟩,
      Or.inr (decide_eq_false (by omega))⟩
    rintro rfl
    exact absurd hlow (by decide)
  · rintro rfl
    exact absurd hlow (by decide)

theorem isHex_toDigits {c : Char} (n : ℕ) (hc : c ∈ Nat.toDigits 16 n) : isHex c = true := by
  induction n using Nat.strong_induction_on with
  | _ n ih =>
    have hdigit : ∀ d < 16, isHex (Nat.digitChar d) = true := by decide
    rw [Nat.toDigits_eq_if (by decide)] at hc
    by_cases hn : n < 16
    · rw [if_pos hn] at hc
      exact List.mem_singleton.mp hc ▸ hdigit n hn
    · rw [if_neg hn] at hc
      rcases List.mem_append.mp hc with hc | hc
      · exact ih (n / 16) (by omega) hc
      · exact List.mem_singleton.mp hc ▸ hdigit _ (Nat.mod_lt n (by decide))

theorem decimal_solid {c : Char} (o : ℤ) (hc : c ∈ decimal o) : isSpace c = false ∧ c ≠ ',' := by
  have hdigits : ∀ n, c ∈ Nat.toDigits 10 n → isSpace c = false ∧ c ≠ ',' := fun n h =>
    isHex_solid (Bool.or_eq_true_iff.mpr (Or.inl
      (Nat.isDigit_of_mem_toDigits (by decide) (by decide) h)))
  cases o with
  | ofNat n => exact hdigits n hc
  | negSucc n =>
    rcases List.mem_cons.mp hc with rfl | hc
    · exact ⟨by decide, by decide⟩
    · exact hdigits (n + 1) hc

/-- A solid last operand is the destination. -/
theorem destination_solid {w y : List Char} {c : Char} (hw : Plain w) (srcs : List (List Char))
    (hy : ∀ d ∈ c :: y, isSpace d = false ∧ d ≠ ',') (hc : (c == '%') = false) :
    destination (w ++ ' ' :: (srcs.flatMap (· ++ [',']) ++ c :: y)) = c :: y := by
  have hhead : (c :: y).dropWhile isSpace = c :: y :=
    List.dropWhile_cons_of_neg ((hy c List.mem_cons_self).1 ▸ Bool.false_ne_true)
  have hlast : (c :: y).rdropWhile isSpace = c :: y := List.rdropWhile_eq_self_iff.mpr fun hl =>
    (hy _ (List.getLast_mem hl)).1 ▸ Bool.false_ne_true
  rw [destination_last hw (fun h => (hy _ h).2 rfl) hhead, hlast,
    List.dropWhile_cons_of_neg (hc ▸ Bool.false_ne_true)]

/-- A register is read back. -/
theorem destination_reg {w : List Char} (hw : Plain w) (srcs : List (List Char)) (sp : Spelling)
    (r : Reg) : destination (w ++ ' ' :: (srcs.flatMap (· ++ [',']) ++ regText sp r)) =
      regName r := by
  have hread : ',' ∉ regText sp r ∧ (regText sp r).dropWhile isSpace = regText sp r ∧
      ((regText sp r).rdropWhile isSpace).dropWhile (· == '%') = regName r := by
    cases r with
    | d i => cases sp <;> revert i <;> decide
    | a i => cases sp <;> revert i <;> decide
  rw [destination_last hw hread.1 hread.2.1, hread.2.2]

/-- Only `D0` is printed as `d0`. -/
theorem eq_d0_of_regName {r : Reg} (h : isDreg0 (regName r) = true) : r = .d 0 := by
  cases r with
  | d i => revert i; decide
  | a i => revert i; decide

/-- **A memory operand ends in a mark** no register ends in, unless it is an absolute address. -/
theorem text_mem (sp : Spelling) (m : Mode) : (∃ a, m = .abs a) ∨
    ∃ l, ∃ c ∈ [')', '@', '+', '-'], m.text sp = l ++ [c] := by
  cases m with
  | abs a => exact Or.inl ⟨a, rfl⟩
  | postinc r =>
    refine Or.inr ?_
    cases sp with
    | mit => exact ⟨_ ++ ['@'], '+', by decide, (List.append_assoc _ ['@'] ['+']).symm⟩
    | motorola => exact ⟨_ ++ [')'], '+', by decide, (List.append_assoc _ [')'] ['+']).symm⟩
  | predec r =>
    refine Or.inr ?_
    cases sp with
    | mit => exact ⟨_ ++ ['@'], '-', by decide, (List.append_assoc _ ['@'] ['-']).symm⟩
    | motorola => exact ⟨_, ')', by decide, rfl⟩
  | ind r =>
    refine Or.inr ?_
    cases sp with
    | mit => exact ⟨_, '@', by decide, rfl⟩
    | motorola => exact ⟨_, ')', by decide, rfl⟩
  | pcDisp a =>
    refine Or.inr ?_
    cases sp with
    | mit => exact ⟨_, ')', by decide, rfl⟩
    | motorola =>
      exact ⟨_ ++ ['(', 'p', 'c'], ')', by decide,
        (List.append_assoc _ ['(', 'p', 'c'] [')']).symm⟩
  | disp o r => cases sp <;> exact Or.inr ⟨_, ')', by decide, rfl⟩
  | index o r x long => cases sp <;> exact Or.inr ⟨_, ')', by decide, rfl⟩
  | pcIndex a x long => cases sp <;> exact Or.inr ⟨_, ')', by decide, rfl⟩
  | memInd o r p => cases sp <;> exact Or.inr ⟨_, ')', by decide, rfl⟩

/-- What ends in a mark is not `d0`. -/
theorem not_d0_of_mark {l : List Char} {c : Char} (hc : c ∈ [')', '@', '+', '-']) :
    isDreg0 (l ++ [c]) = false := by
  have hmarks : ([')', '@', '+', '-'].all fun c => "d0".toList.getLast? != some c &&
      "d0:d1".toList.getLast? != some c) = true := by decide
  obtain ⟨h₀, h₁⟩ := Bool.and_eq_true_iff.mp (List.all_eq_true.mp hmarks c hc)
  have hlast : ∀ w : List Char, w.getLast? ≠ some c → (l ++ [c] == w) = false :=
    fun w hw => beq_false_of_ne fun h => hw (h ▸ List.getLast?_concat)
  rw [isDreg0, hlast _ (bne_iff_ne.mp h₀), hlast _ (bne_iff_ne.mp h₁), Bool.or_false]

/-- A number is not `d0`. -/
theorem not_d0_of_ne {l : List Char} {c : Char} (hc : (c == 'd') = false) :
    isDreg0 (c :: l) = false := by
  have hhead : ∀ w : List Char, (c :: l == 'd' :: w) = false :=
    fun w => beq_false_of_ne fun h => ne_of_beq_false hc (List.cons.inj h).1
  exact Bool.or_eq_false_iff.mpr ⟨hhead ['0'], hhead ['0', ':', 'd', '1']⟩

theorem text_data : (Insn.data o sz src dst).text sp =
    o.name sp sz ++ ' ' :: ((src.map (Operand.text sp)).flatMap (· ++ [',']) ++ dst.text sp) := rfl

/-- **Only `D0` is taken for `D0`.** -/
theorem dst_eq_d0 (h : isDreg0 (destination ((Insn.data o sz src dst).text sp)) = true) :
    dst = .reg (.d 0) := by
  have hw := plain_op sp o sz
  rw [text_data] at h
  -- a last operand that starts with a character of its own is not `d0`
  have hsolid : ∀ (c : Char) (y : List Char), dst.text sp = c :: y →
      (∀ d ∈ c :: y, isSpace d = false ∧ d ≠ ',') → (c == '%') = false → (c == 'd') = false →
      False := by
    intro c y htext hy hc hd
    rw [htext, destination_solid hw _ hy hc, not_d0_of_ne hd] at h
    exact Bool.false_ne_true h
  cases dst with
  | reg r =>
    rw [Operand.text, destination_reg hw] at h
    rw [eq_d0_of_regName h]
  | imm v =>
    refine (hsolid '#' _ rfl (fun d hd => ?_) (by decide) (by decide)).elim
    rcases List.mem_cons.mp hd with rfl | hd
    · exact ⟨by decide, by decide⟩
    · exact decimal_solid _ hd
  | mem m =>
    rcases text_mem sp m with ⟨a, rfl⟩ | ⟨l, c, hc, htext⟩
    · refine (hsolid '0' ('x' :: Nat.toDigits 16 a.toNat) (by cases sp <;> rfl) (fun d hd => ?_)
        (by decide) (by decide)).elim
      rcases List.mem_cons.mp hd with rfl | hd
      · exact ⟨by decide, by decide⟩
      rcases List.mem_cons.mp hd with rfl | hd
      · exact ⟨by decide, by decide⟩
      · exact isHex_solid (isHex_toDigits _ hd)
    · have hmarks : ([')', '@', '+', '-'].all fun c =>
          !isSpace c && (c != ',' && !(c == '%'))) = true := by decide
      obtain ⟨h₁, h₂₃⟩ := Bool.and_eq_true_iff.mp (List.all_eq_true.mp hmarks c hc)
      obtain ⟨h₂, h₃⟩ := Bool.and_eq_true_iff.mp h₂₃
      rw [Bool.not_eq_true'] at h₁ h₃
      obtain ⟨z, hz⟩ := destination_concat hw h₁ h₂ h₃
        ((src.map (Operand.text sp)).flatMap (· ++ [',']) ++ l)
      rw [Operand.text, htext, ← List.append_assoc, hz, not_d0_of_mark hc] at h
      exact absurd h Bool.false_ne_true

/-- **What certifies `D0` has it for a destination.** -/
theorem dst_of_certifies (h : certifiesD0 ((Insn.data o sz src dst).text sp) = true) :
    dst = .reg (.d 0) := by
  rw [certifiesD0] at h
  split at h
  · exact absurd h Bool.false_ne_true
  · exact dst_eq_d0 (Bool.and_eq_true_iff.mp h).2

/-! ## What the scan takes an instruction for -/

/-- **No other operation is passed over.** -/
theorem isQuick_of_not_touches (h : touchesCc ((Insn.data o sz src dst).text sp) = false) :
    o.isQuick = true := by
  have hm : mnemonic ((Insn.data o sz src dst).text sp) = o.name sp sz := mnemonic_text rfl
  have hname : o.isQuick = false →
      (passes (o.name sp sz) || startswith (o.name sp sz) ["addq", "subq"]) = false := by
    cases o with
    | scc test =>
      intro _
      change (passes (Op.name .mit (.scc test) .b) ||
        startswith (Op.name .mit (.scc test) .b) ["addq", "subq"]) = false
      cases test with
      | on c => cases c <;> decide
      | _ => decide
    | _ => cases sz <;> cases sp <;> decide
  by_contra hq
  obtain ⟨hpass, hquick⟩ := Bool.or_eq_false_iff.mp (hname (Bool.eq_false_iff.mpr hq))
  rw [passes] at hpass
  rw [touchesCc, hm] at h
  simp only [hpass, hquick, Bool.false_eq_true, if_false, ite_self] at h
  exact Bool.false_ne_true h.symm

/-- **Of the other instructions, the scan stops at calls**, and knows them for calls. -/
theorem touches_iff_call (hi : i.isKnown = true) (hd : i.isData = false) :
    touchesCc (i.text sp) = i.isCall ∧ CALL (mnemonic (i.text sp)) = i.isCall := by
  obtain ⟨-, hcall, hpass⟩ := control_name sp hi hd
  rw [touchesCc, mnemonic_text hi, hcall]
  refine ⟨?_, rfl⟩
  cases hc : i.isCall with
  | true => rfl
  | false =>
    rw [hc, Bool.false_or] at hpass
    rw [if_neg Bool.false_ne_true]
    exact if_pos hpass

end Reads

end IsrCheck
