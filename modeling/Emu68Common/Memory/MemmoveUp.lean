import Emu68Common.Memory.Memmove

/-!
# Memory/MemmoveUp — the paths that go up

Upwards every piece is read before a store can reach it, as `dst` lies below the source or past its
end (`Up`).  The three loops share one shape: `hi` bytes are moved, `a0` and `a1` stand `hi` above
`dst` and `src`.  The last long is saved first (`d0`) and stored last.

    .Lblock ──▸ .Llong ──▸ .Llast ──▸ .Ldone        .Lbyte ──▸ .Ldone
-/

namespace Memmove

open M68k Machinery

variable {c₀ c : Cpu} {dst src n : Long} {m : Memory} {hi : ℕ}

/-- The cases where going up is safe. -/
def Up (dst src n : Long) : Prop :=
  dst.toNat < src.toNat ∨ src.toNat + n.toNat ≤ dst.toNat

/-- `a0` and `a1` stand `hi` above the two regions' starts, and so many bytes are moved. -/
structure Rising (c₀ : Cpu) (dst src n : Long) (m : Memory) (hi : ℕ) (c : Cpu) : Prop
    extends Moving c₀ dst src n m (Set.Ico 0 hi) c where
  a0 : c.regs (.a 0) = dst + BitVec.ofNat 32 hi
  a1 : c.regs (.a 1) = src + BitVec.ofNat 32 hi

/-- **One piece up.** -/
theorem Rising.next {c' : Cpu} {k : ℕ} (hcall : Call c₀ dst src n) (hup : Up dst src n)
    (h : Rising c₀ dst src n m hi c) (hk : hi + k ≤ n.toNat)
    (he : c'.mem = c.mem.store (c.regs (.a 0)) k fun i => c.mem (c.regs (.a 1) + BitVec.ofNat 32 i))
    (h0 : c'.regs (.a 0) = c.regs (.a 0) + BitVec.ofNat 32 k)
    (h1 : c'.regs (.a 1) = c.regs (.a 1) + BitVec.ofNat 32 k) :
    Rising c₀ dst src n m (hi + k) c' where
  toMoving := by
    rw [h.a0, h.a1] at he
    have hI := Mem.intact_up hcall.src_fits hup hcall.dst_fits hk
    rw [← Set.Ico_union_Ico_eq_Ico (Nat.zero_le hi) (Nat.le_add_right hi k)]
    exact h.toMoving.piece hI hk he
  a0 := by rw [h0, h.a0, BitVec.add_assoc, ← BitVec.ofNat_add]
  a1 := by rw [h1, h.a1, BitVec.add_assoc, ← BitVec.ofNat_add]

/-! ## The long loop and the last long -/

/-- **At `.Llong`**: `d1` is the address of the last long, `d0` the long itself. -/
structure LongUp (c₀ : Cpu) (dst src n : Long) (m : Memory) (hi : ℕ) (c : Cpu) : Prop
    extends Rising c₀ dst src n m hi c where
  keeps : Keeps c₀ c
  d0 : c.regs (.d 0) = m.readLong (src + BitVec.ofNat 32 (n.toNat - 4))
  d1 : c.regs (.d 1) = src + BitVec.ofNat 32 (n.toNat - 4)

/-- **`.Llast`**: the saved long goes where the move ends. -/
theorem llast (hcall : Call c₀ dst src n) (h : LongUp c₀ dst src n m hi c)
    (h4 : 4 ≤ n.toNat) (hlo : n.toNat - 4 ≤ hi) (hhi : hi ≤ n.toNat) :
    ∃ s, Reaches memmove (past memmove .Llast 0 c) s ∧ Returns c₀ dst src n s := by
  let c' := runOps [.sub a1 1, .move .l d0 (Loc.index 0 0 1)] c
  have haddr : c.regs (.a 0) + (c.regs (.d 1) - c.regs (.a 1))
      = dst + BitVec.ofNat 32 (n.toNat - 4) := by
    rw [h.a0, h.a1, h.d1]
    ring
  have hmem : c'.mem = c.mem.store (dst + BitVec.ofNat 32 (n.toNat - 4)) 4
      fun i => m (src + BitVec.ofNat 32 (n.toNat - 4 + i)) := by
    rw [← haddr]
    simp only [BitVec.ofNat_add, ← BitVec.add_assoc]
    rw [← Mem.writeLong_readLong, ← h.d0]
    simp [c']
  have hmoved := h.toMoving.saved (o := n.toNat - 4) (by omega) hmem
  rw [Set.Ico_union_Ico' (by omega) (by omega), show min 0 (n.toNat - 4) = 0 by omega,
    show max hi (n.toNat - 4 + 4) = n.toNat by omega] at hmoved
  obtain ⟨s, hs, hret⟩ := ldone hcall hmoved (h.keeps.of_eq (by simp [c', kept]))
  have hbody : Reaches memmove (past memmove .Llast 0 c) (past memmove .Ldone 0 c') :=
    reaches_block memmove .Llast 0 [.sub a1 1, .move .l d0 (Loc.index 0 0 1)] c rfl rfl
  exact ⟨s, hbody.trans hs, hret⟩

/-- **`.Llong`**: longs up to the last one, then `.Llast`. -/
theorem llong (hcall : Call c₀ dst src n) (hup : Up dst src n) (h : LongUp c₀ dst src n m hi c)
    (hhi : hi + 4 ≤ n.toNat) :
    ∃ s, Reaches memmove (past memmove .Llong 0 c) s ∧ Returns c₀ dst src n s := by
  -- the measure is what is left to move
  refine reaches_loop (fun k s => ∃ hi c, s = past memmove .Llong 0 c ∧ k = n.toNat - hi ∧
    hi + 4 ≤ n.toNat ∧ LongUp c₀ dst src n m hi c) ?_ ⟨hi, c, rfl, rfl, hhi, h⟩
  rintro k s ⟨hi, c, rfl, rfl, hhi, h⟩
  let c' := runOps [.move .l (Loc.postinc 1) (Loc.postinc 0), .cmp a1 (.d 1)] c
  have hbody : Reaches memmove (past memmove .Llong 0 c) (past memmove .Llong 2 c') :=
    reaches_block memmove .Llong 0 _ c rfl rfl
  have hnext : LongUp c₀ dst src n m (hi + 4) c' :=
    { toRising := h.toRising.next hcall hup hhi
        (by rw [← Mem.writeLong_readLong]; simp [c']) (by simp [c']) (by simp [c'])
      keeps := h.keeps.of_eq (by simp [c', kept])
      d0 := by rw [← h.d0]; simp [c']
      d1 := by rw [← h.d1]; simp [c'] }
  have hccr : Cond.holds .hi c'.ccr = true ↔ (c'.regs (.a 1)).toNat < (c'.regs (.d 1)).toNat := by
    rw [← holds_hi_compare c.ccr]
    simp [c', Ccr.compare, Ccr.logic, Cond.holds]
  rw [hnext.a1, hnext.d1, toNat_add_of_fits (by have := hcall.src_fits; omega),
    toNat_add_of_fits (by have := hcall.src_fits; omega), Nat.add_lt_add_iff_left] at hccr
  by_cases hmore : hi + 4 < n.toNat - 4
  · refine ⟨_, hbody.trans (reaches_taken memmove .Llong 2 .hi rfl (hccr.mpr hmore)),
      Or.inr ⟨_, ?_, hi + 4, c', rfl, rfl, by omega, hnext⟩⟩
    omega
  · obtain ⟨s, hs, hret⟩ := llast hcall hnext (by omega) (by omega) hhi
    have hexit : Reaches memmove (past memmove .Llong 2 c') (past memmove .Llast 0 c') :=
      reaches_not_taken memmove .Llong 2 .hi rfl (mt hccr.mp hmore)
    exact ⟨s, (hbody.trans hexit).trans hs, Or.inl hret⟩

/-! ## Fewer than four bytes -/

/-- **At `.Lbyte`**: `d0` counts what is left. -/
structure ByteUp (c₀ : Cpu) (dst src n : Long) (m : Memory) (hi : ℕ) (c : Cpu) : Prop
    extends Rising c₀ dst src n m hi c where
  keeps : Keeps c₀ c
  d0 : c.regs (.d 0) = BitVec.ofNat 32 (n.toNat - hi)

/-- **`.Lbyte`**: byte after byte until `d0` is used up. -/
theorem lbyte (hcall : Call c₀ dst src n) (hup : Up dst src n) (h : ByteUp c₀ dst src n m hi c)
    (hhi : hi < n.toNat) :
    ∃ s, Reaches memmove (past memmove .Lbyte 0 c) s ∧ Returns c₀ dst src n s := by
  refine reaches_loop (fun k s => ∃ hi c, s = past memmove .Lbyte 0 c ∧ k = n.toNat - hi ∧
    hi < n.toNat ∧ ByteUp c₀ dst src n m hi c) ?_ ⟨hi, c, rfl, rfl, hhi, h⟩
  rintro k s ⟨hi, c, rfl, rfl, hhi, h⟩
  let c' := runOps [.move .b (Loc.postinc 1) (Loc.postinc 0), .sub (.imm 1) 0] c
  have hbody : Reaches memmove (past memmove .Lbyte 0 c) (past memmove .Lbyte 2 c') :=
    reaches_block memmove .Lbyte 0 _ c rfl rfl
  have hnext : ByteUp c₀ dst src n m (hi + 1) c' :=
    { toRising := h.toRising.next hcall hup hhi
        (by rw [← writeByte_load]; simp [c']) (by simp [c']) (by simp [c'])
      keeps := h.keeps.of_eq (by simp [c', kept])
      d0 := by
        rw [show n.toNat - (hi + 1) = n.toNat - hi - 1 by omega, ← ofNat_pred (by omega), ← h.d0]
        simp [c'] }
  have hone : c.regs (.d 0) ≠ 1 ↔ n.toNat - hi ≠ 1 := by
    have := n.isLt
    rw [h.d0, ne_eq, ne_eq, not_iff_not]
    refine ⟨fun he => ?_, fun he => by rw [he]; rfl⟩
    have := congrArg BitVec.toNat he
    rwa [BitVec.toNat_ofNat, Nat.mod_eq_of_lt (by omega)] at this
  have hccr : Cond.holds .ne c'.ccr = true ↔ n.toNat - hi ≠ 1 := by
    rw [← hone, ← holds_ne_subtract c.ccr]
    simp [c', Ccr.subtract, Ccr.compare, Ccr.logic, Cond.holds]
  by_cases hmore : n.toNat - hi = 1
  · have hdone : hi + 1 = n.toNat := by omega
    rw [hdone] at hnext
    obtain ⟨s, hs, hret⟩ := ldone hcall hnext.toMoving hnext.keeps
    have hexit : Reaches memmove (past memmove .Lbyte 2 c') (past memmove .Ldone 0 c') :=
      (reaches_not_taken memmove .Lbyte 2 .ne rfl fun he => hccr.mp he hmore).trans
        (reaches_bra memmove .Lbyte 3 rfl)
    exact ⟨s, (hbody.trans hexit).trans hs, Or.inl hret⟩
  · refine ⟨_, hbody.trans (reaches_taken memmove .Lbyte 2 .ne rfl (hccr.mpr hmore)),
      Or.inr ⟨_, ?_, hi + 1, c', rfl, rfl, by omega, hnext⟩⟩
    omega

/-- **`.Ltiny`**: bytes, or nothing at all. -/
theorem ltiny (hcall : Call c₀ dst src n) (hup : Up dst src n) (h : ByteUp c₀ dst src n m 0 c) :
    ∃ s, Reaches memmove (past memmove .Ltiny 0 c) s ∧ Returns c₀ dst src n s := by
  let c' := runOps [.tst 0] c
  have hbody : Reaches memmove (past memmove .Ltiny 0 c) (past memmove .Ltiny 1 c') :=
    reaches_block memmove .Ltiny 0 _ c rfl rfl
  have hnext : ByteUp c₀ dst src n m 0 c' :=
    { toMoving := h.toMoving.of_mem rfl
      a0 := h.a0
      a1 := h.a1
      keeps := h.keeps
      d0 := h.d0 }
  have hccr : Cond.holds .eq c'.ccr = true ↔ n.toNat = 0 := by
    have hd0 : c.regs (.d 0) = n := by
      rw [h.d0, Nat.sub_zero, BitVec.ofNat_toNat, BitVec.setWidth_eq]
    refine (holds_eq_logic c.ccr (c.regs (.d 0))).trans ?_
    rw [hd0]
    exact ⟨fun e => by rw [e]; rfl, fun e => BitVec.eq_of_toNat_eq e⟩
  by_cases h0 : n.toNat = 0
  · have hmoved : Moving c₀ dst src n m (Set.Ico 0 n.toNat) c' := by
      rw [h0]
      exact hnext.toMoving
    obtain ⟨s, hs, hret⟩ := ldone hcall hmoved hnext.keeps
    have hexit : Reaches memmove (past memmove .Ltiny 1 c') (past memmove .Ldone 0 c') :=
      reaches_taken memmove .Ltiny 1 .eq rfl (hccr.mpr h0)
    exact ⟨s, (hbody.trans hexit).trans hs, hret⟩
  · obtain ⟨s, hs, hret⟩ := lbyte hcall hup hnext (by omega)
    have hfall : Reaches memmove (past memmove .Ltiny 1 c') (past memmove .Lbyte 0 c') :=
      reaches_not_taken memmove .Ltiny 1 .eq rfl (mt hccr.mp h0)
    exact ⟨s, (hbody.trans hfall).trans hs, hret⟩

/-! ## Blocks -/

/-- Eight longs through the carrying registers are 32 bytes copied. -/
theorem store_carried (c : Cpu) (a : Addr) :
    c.mem.writeLongs a (carriedRegs.map ((Op.movemIn (.postinc 1) carriedRegs).effect c).regs)
      = c.mem.store a 32 fun i => c.mem (c.regs (.a 1) + BitVec.ofNat 32 i) := by
  rw [movemIn_postinc_map c 1 (by decide) (by decide)]
  exact Mem.writeLongs_readLongs c.mem c.mem a (c.regs (.a 1)) (by decide)

/-- **At `.Lblock`**: the saved registers are on the stack, `a3` is where the whole blocks end. -/
structure BlockUp (c₀ : Cpu) (dst src n : Long) (hi : ℕ) (c : Cpu) : Prop
    extends Rising c₀ dst src n (pushed c₀) hi c where
  stack : OnStack c₀ c
  d0 : c.regs (.d 0) = (pushed c₀).readLong (src + BitVec.ofNat 32 (n.toNat - 4))
  a3 : c.regs (.a 3) = src + BitVec.ofNat 32 (n.toNat / 64 * 64)

/-- The eight carrying registers and `a1` are all that `movem.l (%a1)+` writes. -/
theorem movemIn_up_regs {q : Reg} (hq : q ∉ carriedRegs) (h1 : q ≠ .a 1) :
    ((Op.movemIn (.postinc 1) carriedRegs).effect c).regs q = c.regs q :=
  movemIn_postinc_regs c 1 hq h1

/-- The lower half of a block. -/
def upLow : List Op := [.movemIn (.postinc 1) carriedRegs, .movemOut carriedRegs (.ind 0)]

/-- The upper half of a block. -/
def upHigh : List Op := [.movemIn (.postinc 1) carriedRegs, .movemOut carriedRegs (.disp 32 0)]

/-- On to the next block. -/
def upNext : List Op := [.lea (.disp 64 0) 0, .cmp a3 (.a 1)]

theorem holds_ne_upNext (c : Cpu) :
    Cond.holds .ne (runOps upNext c).ccr = true
      ↔ (runOps upNext c).regs (.a 1) ≠ (runOps upNext c).regs (.a 3) := by
  rw [← holds_ne_compare c.ccr]
  simp [upNext]

/-- What half a block does: 32 bytes, read whole before they are stored. -/
structure HalfUp (o : Long) (c c' : Cpu) : Prop where
  mem : c'.mem = c.mem.store (c.regs (.a 0) + o) 32
    fun i => c.mem (c.regs (.a 1) + BitVec.ofNat 32 i)
  a1 : c'.regs (.a 1) = c.regs (.a 1) + BitVec.ofNat 32 32
  regs : ∀ q ∉ carriedRegs, q ≠ .a 1 → c'.regs q = c.regs q

theorem halfUp_low (c : Cpu) : HalfUp 0 c (runOps upLow c) where
  mem := by
    rw [← store_carried]
    simp [upLow, movemIn_up_regs (show Reg.a 0 ∉ carriedRegs by decide)]
  a1 := movemIn_postinc_self c 1 carriedRegs
  regs _ hq h1 := movemIn_up_regs hq h1

theorem halfUp_high (c : Cpu) : HalfUp 32 c (runOps upHigh c) where
  mem := by
    rw [← store_carried]
    simp [upHigh, movemIn_up_regs (show Reg.a 0 ∉ carriedRegs by decide)]
  a1 := movemIn_postinc_self c 1 carriedRegs
  regs _ hq h1 := movemIn_up_regs hq h1

/-- **One block up**: two halves, then both pointers stand at the next block. -/
theorem blockUp_next (hcall : Call c₀ dst src n) (hup : Up dst src n)
    (h : BlockUp c₀ dst src n hi c) (hhi : hi + 64 ≤ n.toNat) :
    BlockUp c₀ dst src n (hi + 64) (runOps upNext (runOps upHigh (runOps upLow c))) := by
  have hlow := halfUp_low c
  generalize runOps upLow c = c₁ at hlow
  have hhigh := halfUp_high c₁
  generalize runOps upHigh c₁ = c₂ at hhigh
  have hregs : ∀ q ∉ carriedRegs, q ≠ .a 1 → c₂.regs q = c.regs q := fun q hq h1 =>
    (hhigh.regs q hq h1).trans (hlow.regs q hq h1)
  have hregs' : ∀ q ∉ carriedRegs, q ≠ .a 1 → q ≠ .a 0 → (runOps upNext c₂).regs q = c.regs q := by
    intro q hq h1 h0
    rw [← hregs q hq h1]
    simp [upNext, h0]
  have ha1 : c₁.regs (.a 1) = src + BitVec.ofNat 32 (hi + 32) := by
    rw [BitVec.ofNat_add, ← BitVec.add_assoc, ← h.a1, hlow.a1]
  have hm₁ : c₁.mem = c.mem.store (dst + BitVec.ofNat 32 hi) 32
      fun i => c.mem (src + BitVec.ofNat 32 hi + BitVec.ofNat 32 i) := by
    rw [← h.a0, ← h.a1, hlow.mem, add_zero]
  have hm₂ : c₂.mem = c₁.mem.store (dst + BitVec.ofNat 32 (hi + 32)) 32
      fun i => c₁.mem (src + BitVec.ofNat 32 (hi + 32) + BitVec.ofNat 32 i) := by
    rw [← ha1, BitVec.ofNat_add, ← BitVec.add_assoc, ← h.a0,
      ← hlow.regs (.a 0) (by decide) (by decide), hhigh.mem]
    rfl
  have hmv₁ := h.toMoving.piece
    (Mem.intact_up hcall.src_fits hup hcall.dst_fits (show hi + 32 ≤ n.toNat by omega))
    (by omega) hm₁
  rw [Set.Ico_union_Ico_eq_Ico (Nat.zero_le hi) (Nat.le_add_right hi 32)] at hmv₁
  have hmv₂ := hmv₁.piece
    (Mem.intact_up hcall.src_fits hup hcall.dst_fits (show hi + 32 + 32 ≤ n.toNat by omega))
    (by omega) hm₂
  rw [Set.Ico_union_Ico_eq_Ico (Nat.zero_le _) (Nat.le_add_right _ 32)] at hmv₂
  refine ⟨⟨hmv₂.of_mem (by simp [upNext]), ?_, ?_⟩, ⟨?_, fun r hr => ?_⟩, ?_, ?_⟩
  · rw [BitVec.ofNat_add, ← BitVec.add_assoc, ← h.a0, ← hregs (.a 0) (by decide) (by decide)]
    simp [upNext]
  · have : (runOps upNext c₂).regs (.a 1) = c₂.regs (.a 1) := by simp [upNext]
    rw [this, hhigh.a1, ha1, BitVec.add_assoc, ← BitVec.ofNat_add]
  · exact (hregs' (.a 7) (by decide) (by decide) (by decide)).trans h.stack.stack
  · have hr' : r ∉ carriedRegs ∧ r ≠ .a 1 ∧ r ≠ .a 0 := by revert hr; revert r; decide
    exact (hregs' r hr'.1 hr'.2.1 hr'.2.2).trans (h.stack.untouched r hr)
  · exact (hregs' (.d 0) (by decide) (by decide) (by decide)).trans h.d0
  · exact (hregs' (.a 3) (by decide) (by decide) (by decide)).trans h.a3

/-- What follows the blocks, once the registers are back. -/
def upRest : List Op :=
  [.move .l (Loc.disp 8 sp) d1, .add (Loc.disp 12 sp) (.d 1), .sub (.imm 4) 1, .cmp a1 (.d 1)]

theorem upRest_regs (c : Cpu) {q : Reg} (hq : q ≠ .d 1) : (runOps upRest c).regs q = c.regs q := by
  simp [upRest, hq]

theorem upRest_mem (c : Cpu) : (runOps upRest c).mem = c.mem := rfl

theorem upRest_d1 (c : Cpu) : (runOps upRest c).regs (.d 1)
    = c.mem.readLong (c.regs (.a 7) + 8#32) + c.mem.readLong (c.regs (.a 7) + 12#32) - 4#32 := by
  simp [upRest]

theorem holds_hi_upRest (c : Cpu) :
    Cond.holds .hi (runOps upRest c).ccr = true
      ↔ ((runOps upRest c).regs (.a 1)).toNat < ((runOps upRest c).regs (.d 1)).toNat :=
  holds_hi_compare _ _ _

/-- **After the blocks**: the registers come back, and the rest is `.Llong`'s or already moved. -/
theorem lblock_exit (hcall : Call c₀ dst src n) (hup : Up dst src n)
    (h : BlockUp c₀ dst src n (n.toNat / 64 * 64) c) (h64 : 64 ≤ n.toNat) :
    ∃ s, Reaches memmove (past memmove .Lblock 7 c) s ∧ Returns c₀ dst src n s := by
  have hkeep := h.stack.pop hcall h.toMoving
  have hpop : ∀ q ∉ savedRegs, q ≠ .a 7 →
      ((Op.movemIn (.postinc sp) savedRegs).effect c).regs q = c.regs q :=
    fun q hq h7 => movemIn_postinc_regs c sp hq h7
  have hmem : ((Op.movemIn (.postinc sp) savedRegs).effect c).mem = c.mem :=
    movemIn_postinc_mem c sp savedRegs
  have hrun : Reaches memmove (past memmove .Lblock 7 c)
      (past memmove .Lblock 8 ((Op.movemIn (.postinc sp) savedRegs).effect c)) :=
    reaches_block memmove .Lblock 7 [.movemIn (.postinc sp) savedRegs] c rfl rfl
  generalize (Op.movemIn (.postinc sp) savedRegs).effect c = c₁ at hkeep hpop hmem hrun
  have hbody : Reaches memmove (past memmove .Lblock 8 c₁)
      (past memmove .Lblock 12 (runOps upRest c₁)) :=
    reaches_block memmove .Lblock 8 upRest c₁ rfl rfl
  have hmoving := h.toMoving.of_mem hmem
  have hregs : ∀ q ∉ savedRegs, q ≠ .a 7 → q ≠ .d 1 → (runOps upRest c₁).regs q = c.regs q :=
    fun q hq h7 h1 => (upRest_regs c₁ h1).trans (hpop q hq h7)
  have hlong : LongUp c₀ dst src n (pushed c₀) (n.toNat / 64 * 64) (runOps upRest c₁) :=
    { toMoving := hmoving.of_mem (upRest_mem c₁)
      a0 := (hregs (.a 0) (by decide) (by decide) (by decide)).trans h.a0
      a1 := (hregs (.a 1) (by decide) (by decide) (by decide)).trans h.a1
      keeps := hkeep.of_eq fun r hr => upRest_regs c₁ (by revert hr; revert r; decide)
      d0 := (hregs (.d 0) (by decide) (by decide) (by decide)).trans h.d0
      d1 := by
        rw [upRest_d1, hkeep.sp, hmoving.readLong_src hcall, hmoving.readLong_n hcall]
        bv_omega }
  have hccr := holds_hi_upRest c₁
  generalize runOps upRest c₁ = c₂ at hbody hlong hccr
  rw [hlong.a1, hlong.d1, toNat_add_of_fits (by have := hcall.src_fits; omega),
    toNat_add_of_fits (by have := hcall.src_fits; omega), Nat.add_lt_add_iff_left] at hccr
  by_cases hmore : n.toNat / 64 * 64 < n.toNat - 4
  · obtain ⟨s, hs, hret⟩ := llong hcall hup hlong (by omega)
    have hjump : Reaches memmove (past memmove .Lblock 12 c₂) (past memmove .Llong 0 c₂) :=
      reaches_taken memmove .Lblock 12 .hi rfl (hccr.mpr hmore)
    exact ⟨s, (hrun.trans (hbody.trans hjump)).trans hs, hret⟩
  · obtain ⟨s, hs, hret⟩ := llast hcall hlong (by omega) (by omega) (by omega)
    have hjump : Reaches memmove (past memmove .Lblock 12 c₂) (past memmove .Llast 0 c₂) :=
      (reaches_not_taken memmove .Lblock 12 .hi rfl (mt hccr.mp hmore)).trans
        (reaches_bra memmove .Lblock 13 rfl)
    exact ⟨s, (hrun.trans (hbody.trans hjump)).trans hs, hret⟩

/-- **`.Lblock`**: block after block until `a1` stands at `a3`. -/
theorem lblock (hcall : Call c₀ dst src n) (hup : Up dst src n) {j : ℕ}
    (h : BlockUp c₀ dst src n (64 * j) c) (hj : j < n.toNat / 64) :
    ∃ s, Reaches memmove (past memmove .Lblock 0 c) s ∧ Returns c₀ dst src n s := by
  refine reaches_loop (fun k s => ∃ j c, s = past memmove .Lblock 0 c ∧ k = n.toNat / 64 - j ∧
    j < n.toNat / 64 ∧ BlockUp c₀ dst src n (64 * j) c) ?_ ⟨j, c, rfl, rfl, hj, h⟩
  rintro k s ⟨j, c, rfl, rfl, hj, h⟩
  have hbody : Reaches memmove (past memmove .Lblock 0 c)
      (past memmove .Lblock 6 (runOps upNext (runOps upHigh (runOps upLow c)))) :=
    ((reaches_block memmove .Lblock 0 upLow c rfl rfl).trans
      (reaches_block memmove .Lblock 2 upHigh _ rfl rfl)).trans
        (reaches_block memmove .Lblock 4 upNext _ rfl rfl)
  have hnext := blockUp_next hcall hup h (by omega)
  have hccr := holds_ne_upNext (runOps upHigh (runOps upLow c))
  generalize runOps upNext (runOps upHigh (runOps upLow c)) = c' at hbody hnext hccr
  rw [hnext.a1, hnext.a3, ne_eq, ← BitVec.toNat_inj,
    toNat_add_of_fits (by have := hcall.src_fits; omega),
    toNat_add_of_fits (by have := hcall.src_fits; omega)] at hccr
  rw [show 64 * j + 64 = 64 * (j + 1) by omega] at hnext
  by_cases hmore : j + 1 = n.toNat / 64
  · rw [hmore, Nat.mul_comm] at hnext
    obtain ⟨s, hs, hret⟩ := lblock_exit hcall hup hnext (by omega)
    have hexit : Reaches memmove (past memmove .Lblock 6 c') (past memmove .Lblock 7 c') :=
      reaches_not_taken memmove .Lblock 6 .ne rfl fun he => hccr.mp he (by omega)
    exact ⟨s, (hbody.trans hexit).trans hs, Or.inl hret⟩
  · refine ⟨_, hbody.trans (reaches_taken memmove .Lblock 6 .ne rfl (hccr.mpr (by omega))),
      Or.inr ⟨_, ?_, j + 1, c', rfl, rfl, by omega, hnext⟩⟩
    omega

/-- Rounding down to whole blocks, as `and.l` with `-64` does it. -/
theorem and_neg_64 (n : Long) : (-64 : Long) &&& n = BitVec.ofNat 32 (n.toNat / 64 * 64) := by
  have hn := n.isLt
  refine BitVec.eq_of_toNat_eq ?_
  rw [BitVec.toNat_and, BitVec.toNat_ofNat, Nat.mod_eq_of_lt (by omega)]
  refine Nat.eq_of_testBit_eq fun i => ?_
  have h64 : (-64 : Long).toNat = (2 ^ 26 - 1) * 2 ^ 6 := by decide
  rw [Nat.testBit_and, h64, show (64 : ℕ) = 2 ^ 6 from rfl, Nat.testBit_mul_two_pow,
    Nat.testBit_mul_two_pow, Nat.testBit_two_pow_sub_one, Nat.testBit_div_two_pow]
  by_cases h6 : 6 ≤ i
  · rw [Nat.sub_add_cancel h6]
    by_cases h32 : i < 32
    · simp [h6, show i - 6 < 26 by omega]
    · have : n.toNat.testBit i = false :=
        Nat.testBit_lt_two_pow (lt_of_lt_of_le hn (Nat.pow_le_pow_right (by omega) (by omega)))
      simp [this]
  · simp [h6]

/-- The block path's preparations, once the registers are saved. -/
def upPrepare : List Op :=
  [.moveq (-64) 1, .and d0 1, .lea (.index 0 1 1) 3, .move .l (Loc.index (-4) 1 0) d0]

theorem upPrepare_regs (c : Cpu) {q : Reg} (hq : q ≠ .d 0 ∧ q ≠ .d 1 ∧ q ≠ .a 3) :
    (runOps upPrepare c).regs q = c.regs q := by
  simp [upPrepare, hq]

theorem upPrepare_mem (c : Cpu) : (runOps upPrepare c).mem = c.mem := by simp [upPrepare]

theorem upPrepare_d0 (c : Cpu) :
    (runOps upPrepare c).regs (.d 0)
      = c.mem.readLong (c.regs (.a 1) + c.regs (.d 0) + displacement (-4)) := by
  simp [upPrepare]

theorem upPrepare_a3 (c : Cpu) :
    (runOps upPrepare c).regs (.a 3)
      = c.regs (.a 1) + BitVec.ofNat 32 ((c.regs (.d 0)).toNat / 64 * 64) := by
  rw [← and_neg_64]
  simp [upPrepare]

/-- **`.Lbig`**: the registers go on the stack, the last long into `d0`. -/
theorem lbig (hcall : Call c₀ dst src n) (hup : Up dst src n) (h : Loaded c₀ dst src n c)
    (h64 : 64 ≤ n.toNat) :
    ∃ s, Reaches memmove (past memmove .Lbig 0 c) s ∧ Returns c₀ dst src n s := by
  obtain ⟨hpush, hsp, hregs⟩ := push h
  have hrun : Reaches memmove (past memmove .Lbig 0 c)
      (past memmove .Lbig 1 ((Op.movemOut savedRegs (.predec sp)).effect c)) :=
    reaches_block memmove .Lbig 0 [.movemOut savedRegs (.predec sp)] c rfl rfl
  generalize (Op.movemOut savedRegs (.predec sp)).effect c = c₁ at hpush hsp hregs hrun
  have hbody : Reaches memmove (past memmove .Lbig 1 c₁)
      (past memmove .Lbig 5 (runOps upPrepare c₁)) :=
    reaches_block memmove .Lbig 1 upPrepare c₁ rfl rfl
  have hd0 : c₁.regs (.d 0) = n := (hregs _ (by decide)).trans h.d0
  have ha0 : c₁.regs (.a 0) = dst := (hregs _ (by decide)).trans h.a0
  have ha1 : c₁.regs (.a 1) = src := (hregs _ (by decide)).trans h.a1
  have hlast : src + n + displacement (-4) = src + BitVec.ofNat 32 (n.toNat - 4) := by
    rw [← add_ofNat_displacement src (show 4 ≤ n.toNat by omega), ofNat_toNat_self]
    rfl
  have hstart : BlockUp c₀ dst src n (64 * 0) (runOps upPrepare c₁) := by
    refine ⟨⟨⟨offStack_pushed c₀, ?_, ?_⟩, ?_, ?_⟩, ⟨?_, fun r hr => ?_⟩, ?_, ?_⟩
    · exact Set.Ico_subset_Ico le_rfl (Nat.zero_le _)
    · rw [upPrepare_mem, hpush, Nat.mul_zero, Set.Ico_self, Mem.moved_empty]
    · rw [upPrepare_regs c₁ (by decide), ha0, Nat.mul_zero]
      exact (BitVec.add_zero dst).symm
    · rw [upPrepare_regs c₁ (by decide), ha1, Nat.mul_zero]
      exact (BitVec.add_zero src).symm
    · rw [upPrepare_regs c₁ (by decide), hsp]
    · have hr' : (r ≠ .d 0 ∧ r ≠ .d 1 ∧ r ≠ .a 3) ∧ r ≠ .a 7 ∧ r ∈ kept := by
        revert hr; revert r; decide
      rw [upPrepare_regs c₁ hr'.1, hregs r hr'.2.1, h.keeps r hr'.2.2]
    · rw [upPrepare_d0, hpush, ha1, hd0, hlast]
    · rw [upPrepare_a3, ha1, hd0]
  obtain ⟨s, hs, hret⟩ := lblock hcall hup hstart (by omega)
  exact ⟨s, (hrun.trans hbody).trans hs, hret⟩

/-- **Going up**, from the test of the length on. -/
theorem going_up (hcall : Call c₀ dst src n) (hup : Up dst src n) (h : Loaded c₀ dst src n c) :
    ∃ s, Reaches memmove (past memmove .memmove 8 c) s ∧ Returns c₀ dst src n s := by
  let c₁ := runOps [.cmp (.imm MEMMOVE_SMALL) (.d 0)] c
  have htest : Reaches memmove (past memmove .memmove 8 c) (past memmove .memmove 9 c₁) :=
    reaches_block memmove .memmove 8 _ c rfl rfl
  have hbig : Cond.holds .cc c₁.ccr = true ↔ 64 ≤ n.toNat := by
    rw [← h.d0]
    exact holds_cc_compare c.ccr _ _
  have h₁ : Loaded c₀ dst src n c₁ := ⟨h.mem, h.keeps, h.a0, h.a1, h.d0⟩
  by_cases h64 : 64 ≤ n.toNat
  · obtain ⟨s, hs, hret⟩ := lbig hcall hup h₁ h64
    exact ⟨s, (htest.trans
      (reaches_taken memmove .memmove 9 .cc rfl (hbig.mpr h64))).trans hs, hret⟩
  replace htest := htest.trans (reaches_not_taken memmove .memmove 9 .cc rfl (mt hbig.mp h64))
  let c₂ := runOps [.move .l d0 d1, .sub (.imm 4) 1] c₁
  have hsub : Reaches memmove (past memmove .memmove 10 c₁) (past memmove .memmove 12 c₂) :=
    reaches_block memmove .memmove 10 _ c₁ rfl rfl
  have htiny : Cond.holds .cs c₂.ccr = true ↔ n.toNat < 4 := by
    rw [← h₁.d0]
    exact holds_cs_subtract (c₁.ccr.logic .l _) _ _
  by_cases h4 : n.toNat < 4
  · have hstart : ByteUp c₀ dst src n c₀.mem 0 c₂ :=
      { off := fun _ _ => rfl
        sub := by simp
        mem := by simp [c₂, h₁.mem]
        a0 := by simp [c₂, h₁.a0]
        a1 := by simp [c₂, h₁.a1]
        keeps := h₁.keeps.of_eq (by simp [c₂, kept])
        d0 := by simp [c₂, h₁.d0] }
    obtain ⟨s, hs, hret⟩ := ltiny hcall hup hstart
    have hjump := reaches_taken memmove .memmove 12 .cs rfl (htiny.mpr h4)
    exact ⟨s, (htest.trans (hsub.trans hjump)).trans hs, hret⟩
  let c₃ := runOps [.move .l (Loc.index 0 1 1) d0, .add a1 (.d 1)] c₂
  have hload : Reaches memmove (past memmove .memmove 13 c₂) (past memmove .memmove 15 c₃) :=
    reaches_block memmove .memmove 13 _ c₂ rfl rfl
  have hlast : src + (n - 4) = src + BitVec.ofNat 32 (n.toNat - 4) := by bv_omega
  have hstart : LongUp c₀ dst src n c₀.mem 0 c₃ :=
    { off := fun _ _ => rfl
      sub := by simp
      mem := by simp [c₃, c₂, h₁.mem]
      a0 := by simp [c₃, c₂, h₁.a0]
      a1 := by simp [c₃, c₂, h₁.a1]
      keeps := h₁.keeps.of_eq (by simp [c₃, c₂, kept])
      d0 := by rw [← hlast]; simp [c₃, c₂, h₁.mem, h₁.a1, h₁.d0]
      d1 := by rw [← hlast, BitVec.add_comm]; simp [c₃, c₂, h₁.a1, h₁.d0] }
  obtain ⟨s, hs, hret⟩ := llong hcall hup hstart (by omega)
  have hfall := reaches_not_taken memmove .memmove 12 .cs rfl (mt htiny.mp h4)
  exact ⟨s, (htest.trans (hsub.trans (hfall.trans hload))).trans hs, hret⟩

end Memmove
