import Emu68Common.Memory.Memmove

/-!
# Memory/MemmoveDown — the paths that go down

`dst` lies inside the source, so the move starts at the end: the bytes from `lo` on are moved, `a0`
and `a1` stand `lo` above `dst` and `src`.  The mirror of `Memory/MemmoveUp`: the *first* long is
the one saved up front and stored last.

    .Ldown_block ──▸ .Ldown_long ──▸ .Ldown_last        .Ldown_tiny
-/

namespace Memmove

open M68k Machinery

variable {c₀ c : Cpu} {dst src n : Long} {m : Memory} {lo : ℕ}

/-- The case where going down is needed, and safe. -/
def Down (dst src n : Long) : Prop :=
  src.toNat < dst.toNat ∧ dst.toNat < src.toNat + n.toNat

/-- `a0` and `a1` stand `lo` above the two regions' starts, and the bytes from there on are
moved. -/
structure Falling (c₀ : Cpu) (dst src n : Long) (m : Memory) (lo : ℕ) (c : Cpu) : Prop
    extends Moving c₀ dst src n m (Set.Ico lo n.toNat) c where
  a0 : c.regs (.a 0) = dst + BitVec.ofNat 32 lo
  a1 : c.regs (.a 1) = src + BitVec.ofNat 32 lo

/-- **One piece down.** -/
theorem Moving.below {c' : Cpu} {k : ℕ} (hcall : Call c₀ dst src n) (hdown : Down dst src n)
    (h : Moving c₀ dst src n m (Set.Ico lo n.toNat) c) (hk : k ≤ lo) (hlo : lo ≤ n.toNat)
    (he : c'.mem = c.mem.store (dst + BitVec.ofNat 32 (lo - k)) k
      fun i => c.mem (src + BitVec.ofNat 32 (lo - k) + BitVec.ofNat 32 i)) :
    Moving c₀ dst src n m (Set.Ico (lo - k) n.toNat) c' := by
  have hI := Mem.intact_down (o := lo - k) (k := k) hcall.src_fits hdown.1 hcall.dst_fits (by omega)
  rw [Nat.sub_add_cancel hk] at hI
  have := h.piece hI (by omega) he
  rwa [Nat.sub_add_cancel hk, Set.union_comm,
    Set.Ico_union_Ico_eq_Ico (Nat.sub_le lo k) hlo] at this

theorem Falling.next {c' : Cpu} {k : ℕ} (hcall : Call c₀ dst src n) (hdown : Down dst src n)
    (h : Falling c₀ dst src n m lo c) (hk : k ≤ lo) (hlo : lo ≤ n.toNat)
    (he : c'.mem = c.mem.store (c.regs (.a 0) - BitVec.ofNat 32 k) k
      fun i => c.mem (c.regs (.a 1) - BitVec.ofNat 32 k + BitVec.ofNat 32 i))
    (h0 : c'.regs (.a 0) = c.regs (.a 0) - BitVec.ofNat 32 k)
    (h1 : c'.regs (.a 1) = c.regs (.a 1) - BitVec.ofNat 32 k) :
    Falling c₀ dst src n m (lo - k) c' where
  toMoving := by
    rw [h.a0, h.a1, sub_ofNat_add dst hk, sub_ofNat_add src hk] at he
    exact h.toMoving.below hcall hdown hk hlo he
  a0 := by rw [h0, h.a0, sub_ofNat_add dst hk]
  a1 := by rw [h1, h.a1, sub_ofNat_add src hk]

/-! ## The long loop and the first long -/

/-- **At `.Ldown_long`**: `d1` is the end of the first long, `d0` the long itself. -/
structure LongDown (c₀ : Cpu) (dst src n : Long) (m : Memory) (lo : ℕ) (c : Cpu) : Prop
    extends Falling c₀ dst src n m lo c where
  keeps : Keeps c₀ c
  d0 : c.regs (.d 0) = m.readLong src
  d1 : c.regs (.d 1) = src + BitVec.ofNat 32 4

/-- **`.Ldown_last`**: the saved long goes where the move ends, which is where `dst` starts. -/
theorem ldown_last (hcall : Call c₀ dst src n) (h : LongDown c₀ dst src n m lo c)
    (h4 : 4 ≤ n.toNat) (hlo : lo ≤ 4) :
    ∃ s, Reaches memmove (past memmove .Ldown_last 0 c) s ∧ Returns c₀ dst src n s := by
  let c' := runOps [.move .l (Loc.disp 4 sp) a0, .move .l d0 (Loc.ind 0), .move .l a0 d0] c
  have hdst : c.mem.readLong (c.regs (.a 7) + 4#32) = dst := by
    rw [h.keeps.sp]
    exact h.toMoving.readLong_dst hcall
  have hmem : c'.mem = c.mem.store (dst + BitVec.ofNat 32 0) 4
      fun i => m (src + BitVec.ofNat 32 (0 + i)) := by
    simp only [Nat.zero_add]
    rw [← Mem.writeLong_readLong, ← h.d0]
    simp [c', hdst]
  have hmoved := h.toMoving.saved (o := 0) (by omega) hmem
  rw [Set.Ico_union_Ico' (by omega) (by omega), show min lo 0 = 0 by omega,
    show max n.toNat (0 + 4) = n.toNat by omega] at hmoved
  have hbody : Reaches memmove (past memmove .Ldown_last 0 c) (past memmove .Ldown_last 3 c') :=
    reaches_block memmove .Ldown_last 0 _ c rfl rfl
  refine ⟨_, hbody, ⟨target memmove .Ldown_last + 3, rfl, rfl⟩, ⟨m, hmoved⟩,
    h.keeps.of_eq ?_, ?_, ?_⟩
  · simp [c', kept]
  · simp [c', hdst]
  · simp [c', hdst]

/-- **`.Ldown_long`**: longs down to the first one, then `.Ldown_last`. -/
theorem ldown_long (hcall : Call c₀ dst src n) (hdown : Down dst src n)
    (h : LongDown c₀ dst src n m lo c) (h4 : 4 ≤ lo) (hlo : lo ≤ n.toNat) :
    ∃ s, Reaches memmove (past memmove .Ldown_long 0 c) s ∧ Returns c₀ dst src n s := by
  refine reaches_loop (fun k s => ∃ c, s = past memmove .Ldown_long 0 c ∧ 4 ≤ k ∧ k ≤ n.toNat ∧
    LongDown c₀ dst src n m k c) ?_ ⟨c, rfl, h4, hlo, h⟩
  rintro lo s ⟨c, rfl, h4, hlo, h⟩
  let c' := runOps [.move .l (Loc.predec 1) (Loc.predec 0), .cmp a1 (.d 1)] c
  have hbody : Reaches memmove (past memmove .Ldown_long 0 c) (past memmove .Ldown_long 2 c') :=
    reaches_block memmove .Ldown_long 0 _ c rfl rfl
  have hnext : LongDown c₀ dst src n m (lo - 4) c' :=
    { toFalling := h.toFalling.next hcall hdown h4 hlo
        (by rw [← Mem.writeLong_readLong]; simp [c']) (by simp [c']) (by simp [c'])
      keeps := h.keeps.of_eq (by simp [c', kept])
      d0 := by rw [← h.d0]; simp [c']
      d1 := by rw [← h.d1]; simp [c'] }
  have hccr : Cond.holds .cs c'.ccr = true ↔ (c'.regs (.d 1)).toNat < (c'.regs (.a 1)).toNat := by
    rw [← holds_cs_compare c.ccr]
    simp [c', Ccr.compare, Ccr.logic, Cond.holds]
  have hfits := hcall.src_fits
  rw [hnext.a1, hnext.d1, toNat_add_of_fits (by omega), toNat_add_of_fits (by omega),
    Nat.add_lt_add_iff_left] at hccr
  by_cases hmore : 4 < lo - 4
  · exact ⟨_, hbody.trans (reaches_taken memmove .Ldown_long 2 .cs rfl (hccr.mpr hmore)),
      Or.inr ⟨lo - 4, by omega, c', rfl, by omega, by omega, hnext⟩⟩
  · obtain ⟨s, hs, hret⟩ := ldown_last hcall hnext (by omega) (by omega)
    have hexit : Reaches memmove (past memmove .Ldown_long 2 c') (past memmove .Ldown_last 0 c') :=
      reaches_not_taken memmove .Ldown_long 2 .cs rfl (mt hccr.mp hmore)
    exact ⟨s, (hbody.trans hexit).trans hs, Or.inl hret⟩

/-! ## Two or three bytes -/

/-- **At `.Ldown_tiny`**: `a0` and `a1` never move, `d0` counts what is left. -/
structure ByteDown (c₀ : Cpu) (dst src n : Long) (m : Memory) (lo : ℕ) (c : Cpu) : Prop
    extends Moving c₀ dst src n m (Set.Ico lo n.toNat) c where
  keeps : Keeps c₀ c
  a0 : c.regs (.a 0) = dst
  a1 : c.regs (.a 1) = src
  d0 : c.regs (.d 0) = BitVec.ofNat 32 lo

/-- One byte, and one less to go. -/
def tinyDown : List Op :=
  [.move .b (Loc.index (-1) 1 0) (Loc.index (-1) 0 0), .sub (.imm 1) 0]

theorem tinyDown_mem (c : Cpu) :
    (runOps tinyDown c).mem = c.mem.store (c.regs (.a 0) + c.regs (.d 0) + displacement (-1)) 1
      fun i => c.mem (c.regs (.a 1) + c.regs (.d 0) + displacement (-1) + BitVec.ofNat 32 i) := by
  rw [← writeByte_load]
  rfl

theorem tinyDown_regs (c : Cpu) {q : Reg} (hq : q ≠ .d 0) :
    (runOps tinyDown c).regs q = c.regs q := by
  simp only [tinyDown, runOps_cons, runOps_nil, effect_sub, effect_move, Ea.read, Place.write,
    Place.flag, Loc.resolve, Cpu.setCcr_regs, Cpu.set_regs, Cpu.setMem_regs, hq, if_false]

theorem tinyDown_d0 (c : Cpu) : (runOps tinyDown c).regs (.d 0) = c.regs (.d 0) - 1 := rfl

theorem holds_ne_tinyDown (c : Cpu) :
    Cond.holds .ne (runOps tinyDown c).ccr = true ↔ c.regs (.d 0) ≠ 1 := by
  exact holds_ne_subtract _ (c.regs (.d 0)) 1

/-- **`.Ldown_tiny`**: byte after byte from the end. -/
theorem ldown_tiny (hcall : Call c₀ dst src n) (hdown : Down dst src n)
    (h : ByteDown c₀ dst src n m lo c) (h1 : 1 ≤ lo) (hlo : lo ≤ n.toNat) :
    ∃ s, Reaches memmove (past memmove .Ldown_tiny 0 c) s ∧ Returns c₀ dst src n s := by
  refine reaches_loop (fun k s => ∃ c, s = past memmove .Ldown_tiny 0 c ∧ 1 ≤ k ∧ k ≤ n.toNat ∧
    ByteDown c₀ dst src n m k c) ?_ ⟨c, rfl, h1, hlo, h⟩
  rintro lo s ⟨c, rfl, h1, hlo, h⟩
  have hbody : Reaches memmove (past memmove .Ldown_tiny 0 c)
      (past memmove .Ldown_tiny 2 (runOps tinyDown c)) :=
    reaches_block memmove .Ldown_tiny 0 tinyDown c rfl rfl
  have hmem := tinyDown_mem c
  have hpred := fun a => add_ofNat_displacement a h1
  rw [Nat.cast_one] at hpred
  rw [h.a0, h.a1, h.d0, hpred, hpred] at hmem
  have hone : c.regs (.d 0) ≠ 1 ↔ lo ≠ 1 := by
    have := n.isLt
    rw [h.d0, ne_eq, ne_eq, not_iff_not]
    refine ⟨fun he => ?_, fun he => by rw [he]; rfl⟩
    have := congrArg BitVec.toNat he
    rwa [BitVec.toNat_ofNat, Nat.mod_eq_of_lt (by omega)] at this
  have hccr := (holds_ne_tinyDown c).trans hone
  have hnext : ByteDown c₀ dst src n m (lo - 1) (runOps tinyDown c) :=
    { toMoving := h.toMoving.below hcall hdown h1 hlo hmem
      keeps := h.keeps.of_eq fun r hr => tinyDown_regs c (by revert hr; revert r; decide)
      a0 := (tinyDown_regs c (by decide)).trans h.a0
      a1 := (tinyDown_regs c (by decide)).trans h.a1
      d0 := by rw [tinyDown_d0, h.d0, ofNat_pred h1] }
  generalize runOps tinyDown c = c' at hbody hccr hnext
  by_cases hmore : lo = 1
  · have hexit : Reaches memmove (past memmove .Ldown_tiny 2 c') (past memmove .Ldown_tiny 3 c') :=
      reaches_not_taken memmove .Ldown_tiny 2 .ne rfl fun he => hccr.mp he hmore
    have hret : Reaches memmove (past memmove .Ldown_tiny 3 c')
        (past memmove .Ldown_tiny 4 (runOps [.move .l a0 d0] c')) :=
      reaches_block memmove .Ldown_tiny 3 [.move .l a0 d0] c' rfl rfl
    rw [hmore] at hnext
    refine ⟨_, (hbody.trans hexit).trans hret, Or.inl ⟨⟨target memmove .Ldown_tiny + 4, rfl, rfl⟩,
      ⟨m, hnext.toMoving.of_mem ?_⟩, hnext.keeps.of_eq ?_, ?_, ?_⟩⟩
    · simp
    · simp [kept]
    · simpa using hnext.a0
    · simpa using hnext.a0
  · exact ⟨_, hbody.trans (reaches_taken memmove .Ldown_tiny 2 .ne rfl (hccr.mpr hmore)),
      Or.inr ⟨lo - 1, by omega, c', rfl, by omega, by omega, hnext⟩⟩

/-! ## Blocks -/

/-- **At `.Ldown_block`**: the saved registers are on the stack, `a3` is where the whole blocks
start. -/
structure BlockDown (c₀ : Cpu) (dst src n : Long) (lo : ℕ) (c : Cpu) : Prop
    extends Falling c₀ dst src n (pushed c₀) lo c where
  stack : OnStack c₀ c
  d0 : c.regs (.d 0) = (pushed c₀).readLong src
  a3 : c.regs (.a 3) = src + BitVec.ofNat 32 (n.toNat % 64)

/-- Half a block, read at a displacement from `a1`. -/
def downHalf (o : ℤ) : List Op :=
  [.movemIn (.disp o 1) carriedRegs, .movemOut carriedRegs (.predec 0)]

/-- On to the block below. -/
def downNext : List Op := [.lea (.disp (-64) 1) 1, .cmp a3 (.a 1)]

/-- What half a block does: 32 bytes, read whole before they are stored. -/
structure HalfDown (o : ℤ) (c c' : Cpu) : Prop where
  mem : c'.mem = c.mem.store (c.regs (.a 0) - BitVec.ofNat 32 32) 32
    fun i => c.mem (c.regs (.a 1) + displacement o + BitVec.ofNat 32 i)
  a0 : c'.regs (.a 0) = c.regs (.a 0) - BitVec.ofNat 32 32
  regs : ∀ q ∉ carriedRegs, q ≠ .a 0 → c'.regs q = c.regs q

theorem halfDown (o : ℤ) (c : Cpu) : HalfDown o c (runOps (downHalf o) c) where
  mem := by
    rw [downHalf, runOps_cons, runOps_cons, runOps_nil, movemOut_predec_mem, movemIn_disp_mem,
      movemIn_disp_regs c 1 o (show Reg.a 0 ∉ carriedRegs by decide),
      movemIn_disp_map c 1 o (by decide),
      Mem.pushLongs_eq_writeLongs _ _ _ (by rw [Mem.length_readLongs]; decide),
      Mem.length_readLongs]
    exact Mem.writeLongs_readLongs c.mem c.mem _ _ (by decide)
  a0 := by
    rw [downHalf, runOps_cons, runOps_cons, runOps_nil, movemOut_predec_regs, if_pos rfl,
      movemIn_disp_regs c 1 o (show Reg.a 0 ∉ carriedRegs by decide)]
    rfl
  regs q hq h0 := by
    rw [downHalf, runOps_cons, runOps_cons, runOps_nil, movemOut_predec_regs, if_neg h0,
      movemIn_disp_regs c 1 o hq]

theorem downNext_regs (c : Cpu) {q : Reg} (hq : q ≠ .a 1) :
    (runOps downNext c).regs q = c.regs q := by
  simp only [downNext, runOps_cons, runOps_nil, effect_lea, effect_cmp, Ea.read, a3,
    Cpu.setCcr_regs, Cpu.set_regs, hq, if_false]

theorem downNext_a1 (c : Cpu) :
    (runOps downNext c).regs (.a 1) = c.regs (.a 1) + displacement (-64) := rfl

theorem downNext_mem (c : Cpu) : (runOps downNext c).mem = c.mem := rfl

theorem holds_ne_downNext (c : Cpu) :
    Cond.holds .ne (runOps downNext c).ccr = true
      ↔ (runOps downNext c).regs (.a 1) ≠ (runOps downNext c).regs (.a 3) :=
  holds_ne_compare c.ccr _ _

/-- **One block down**: two halves, the upper one first. -/
theorem blockDown_next (hcall : Call c₀ dst src n) (hdown : Down dst src n)
    (h : BlockDown c₀ dst src n (lo + 64) c) (hlo : lo + 64 ≤ n.toNat) :
    BlockDown c₀ dst src n lo
      (runOps downNext (runOps (downHalf (-64)) (runOps (downHalf (-32)) c))) := by
  have hhigh := halfDown (-32) c
  generalize runOps (downHalf (-32)) c = c₁ at hhigh
  have hlow := halfDown (-64) c₁
  generalize runOps (downHalf (-64)) c₁ = c₂ at hlow
  have hregs : ∀ q ∉ carriedRegs, q ≠ .a 0 → c₂.regs q = c.regs q := fun q hq h0 =>
    (hlow.regs q hq h0).trans (hhigh.regs q hq h0)
  have hregs' : ∀ q ∉ carriedRegs, q ≠ .a 0 → q ≠ .a 1 →
      (runOps downNext c₂).regs q = c.regs q := fun q hq h0 h1 =>
    (downNext_regs c₂ h1).trans (hregs q hq h0)
  have h32 : ∀ a : Long, a + BitVec.ofNat 32 (lo + 64) + displacement (-32)
      = a + BitVec.ofNat 32 (lo + 32) := fun a => add_ofNat_displacement (k := 32) a (by omega)
  have h64 : ∀ a : Long, a + BitVec.ofNat 32 (lo + 64) + displacement (-64)
      = a + BitVec.ofNat 32 lo := fun a => add_ofNat_displacement (k := 64) a (by omega)
  have ha0 : c₁.regs (.a 0) = dst + BitVec.ofNat 32 (lo + 32) := by
    rw [hhigh.a0, h.a0, sub_ofNat_add dst (show 32 ≤ lo + 64 by omega)]
    rfl
  have ha0' : c₂.regs (.a 0) = dst + BitVec.ofNat 32 lo := by
    rw [hlow.a0, ha0, sub_ofNat_add dst (show 32 ≤ lo + 32 by omega)]
    rfl
  have hm₁ : c₁.mem = c.mem.store (dst + BitVec.ofNat 32 (lo + 32)) 32
      fun i => c.mem (src + BitVec.ofNat 32 (lo + 32) + BitVec.ofNat 32 i) := by
    rw [← ha0, hhigh.a0, hhigh.mem, h.a1, h32]
  have hm₂ : c₂.mem = c₁.mem.store (dst + BitVec.ofNat 32 lo) 32
      fun i => c₁.mem (src + BitVec.ofNat 32 lo + BitVec.ofNat 32 i) := by
    rw [← ha0', hlow.a0, hlow.mem, hhigh.regs (.a 1) (by decide) (by decide), h.a1, h64]
  have hmv₁ := h.toMoving.below (k := 32) hcall hdown (by omega) hlo hm₁
  have hmv₂ := hmv₁.below (k := 32) hcall hdown (by omega) (by omega) hm₂
  refine ⟨⟨hmv₂.of_mem (downNext_mem c₂), ?_, ?_⟩, ⟨?_, fun r hr => ?_⟩, ?_, ?_⟩
  · rw [downNext_regs c₂ (by decide), ha0']
  · rw [downNext_a1, hregs (.a 1) (by decide) (by decide), h.a1, h64]
  · exact (hregs' (.a 7) (by decide) (by decide) (by decide)).trans h.stack.stack
  · have hr' : r ∉ carriedRegs ∧ r ≠ .a 0 ∧ r ≠ .a 1 := by revert hr; revert r; decide
    exact (hregs' r hr'.1 hr'.2.1 hr'.2.2).trans (h.stack.untouched r hr)
  · exact (hregs' (.d 0) (by decide) (by decide) (by decide)).trans h.d0
  · exact (hregs' (.a 3) (by decide) (by decide) (by decide)).trans h.a3

/-- What follows the blocks, once the registers are back. -/
def downRest : List Op := [.move .l (Loc.disp 8 sp) d1, .add (.imm 4) (.d 1), .cmp a1 (.d 1)]

theorem downRest_regs (c : Cpu) {q : Reg} (hq : q ≠ .d 1) :
    (runOps downRest c).regs q = c.regs q := by simp [downRest, hq]

theorem downRest_mem (c : Cpu) : (runOps downRest c).mem = c.mem := rfl

theorem downRest_d1 (c : Cpu) : (runOps downRest c).regs (.d 1)
    = c.mem.readLong (c.regs (.a 7) + 8#32) + 4#32 := by simp [downRest]

theorem holds_cs_downRest (c : Cpu) :
    Cond.holds .cs (runOps downRest c).ccr = true
      ↔ ((runOps downRest c).regs (.d 1)).toNat < ((runOps downRest c).regs (.a 1)).toNat :=
  holds_cs_compare _ _ _

/-- **After the blocks**: the registers come back, and the rest is `.Ldown_long`'s or already
moved. -/
theorem ldown_block_exit (hcall : Call c₀ dst src n) (hdown : Down dst src n)
    (h : BlockDown c₀ dst src n (n.toNat % 64) c) (h64 : 64 ≤ n.toNat) :
    ∃ s, Reaches memmove (past memmove .Ldown_block 7 c) s ∧ Returns c₀ dst src n s := by
  have hkeep := h.stack.pop hcall h.toMoving
  have hpop : ∀ q ∉ savedRegs, q ≠ .a 7 →
      ((Op.movemIn (.postinc sp) savedRegs).effect c).regs q = c.regs q :=
    fun q hq h7 => movemIn_postinc_regs c sp hq h7
  have hmem : ((Op.movemIn (.postinc sp) savedRegs).effect c).mem = c.mem :=
    movemIn_postinc_mem c sp savedRegs
  have hrun : Reaches memmove (past memmove .Ldown_block 7 c)
      (past memmove .Ldown_block 8 ((Op.movemIn (.postinc sp) savedRegs).effect c)) :=
    reaches_block memmove .Ldown_block 7 [.movemIn (.postinc sp) savedRegs] c rfl rfl
  generalize (Op.movemIn (.postinc sp) savedRegs).effect c = c₁ at hkeep hpop hmem hrun
  have hbody : Reaches memmove (past memmove .Ldown_block 8 c₁)
      (past memmove .Ldown_block 11 (runOps downRest c₁)) :=
    reaches_block memmove .Ldown_block 8 downRest c₁ rfl rfl
  have hmoving := h.toMoving.of_mem hmem
  have hregs : ∀ q ∉ savedRegs, q ≠ .a 7 → q ≠ .d 1 → (runOps downRest c₁).regs q = c.regs q :=
    fun q hq h7 h1 => (downRest_regs c₁ h1).trans (hpop q hq h7)
  have hlong : LongDown c₀ dst src n (pushed c₀) (n.toNat % 64) (runOps downRest c₁) :=
    { toMoving := hmoving.of_mem (downRest_mem c₁)
      a0 := (hregs (.a 0) (by decide) (by decide) (by decide)).trans h.a0
      a1 := (hregs (.a 1) (by decide) (by decide) (by decide)).trans h.a1
      keeps := hkeep.of_eq fun r hr => downRest_regs c₁ (by revert hr; revert r; decide)
      d0 := (hregs (.d 0) (by decide) (by decide) (by decide)).trans h.d0
      d1 := by rw [downRest_d1, hkeep.sp, hmoving.readLong_src hcall] }
  have hccr := holds_cs_downRest c₁
  generalize runOps downRest c₁ = c₂ at hbody hlong hccr
  have hfits := hcall.src_fits
  rw [hlong.a1, hlong.d1, toNat_add_of_fits (by omega), toNat_add_of_fits (by omega),
    Nat.add_lt_add_iff_left] at hccr
  by_cases hmore : 4 < n.toNat % 64
  · obtain ⟨s, hs, hret⟩ := ldown_long hcall hdown hlong (by omega) (by omega)
    have hjump : Reaches memmove (past memmove .Ldown_block 11 c₂)
        (past memmove .Ldown_long 0 c₂) :=
      reaches_taken memmove .Ldown_block 11 .cs rfl (hccr.mpr hmore)
    exact ⟨s, (hrun.trans (hbody.trans hjump)).trans hs, hret⟩
  · obtain ⟨s, hs, hret⟩ := ldown_last hcall hlong (by omega) (by omega)
    have hjump : Reaches memmove (past memmove .Ldown_block 11 c₂)
        (past memmove .Ldown_last 0 c₂) :=
      (reaches_not_taken memmove .Ldown_block 11 .cs rfl (mt hccr.mp hmore)).trans
        (reaches_bra memmove .Ldown_block 12 rfl)
    exact ⟨s, (hrun.trans (hbody.trans hjump)).trans hs, hret⟩

/-- **`.Ldown_block`**: block after block until `a1` stands at `a3`. -/
theorem ldown_block (hcall : Call c₀ dst src n) (hdown : Down dst src n) {j : ℕ}
    (h : BlockDown c₀ dst src n (n.toNat % 64 + 64 * (j + 1)) c) (hj : j < n.toNat / 64) :
    ∃ s, Reaches memmove (past memmove .Ldown_block 0 c) s ∧ Returns c₀ dst src n s := by
  refine reaches_loop (fun j s => ∃ c, s = past memmove .Ldown_block 0 c ∧ j < n.toNat / 64 ∧
    BlockDown c₀ dst src n (n.toNat % 64 + 64 * (j + 1)) c) ?_ ⟨c, rfl, hj, h⟩
  rintro j s ⟨c, rfl, hj, h⟩
  have hbody : Reaches memmove (past memmove .Ldown_block 0 c) (past memmove .Ldown_block 6
      (runOps downNext (runOps (downHalf (-64)) (runOps (downHalf (-32)) c)))) :=
    ((reaches_block memmove .Ldown_block 0 (downHalf (-32)) c rfl rfl).trans
      (reaches_block memmove .Ldown_block 2 (downHalf (-64)) _ rfl rfl)).trans
        (reaches_block memmove .Ldown_block 4 downNext _ rfl rfl)
  have hlo : n.toNat % 64 + 64 * j + 64 ≤ n.toNat := by omega
  have hnext := blockDown_next hcall hdown (by exact h) hlo
  have hccr := holds_ne_downNext (runOps (downHalf (-64)) (runOps (downHalf (-32)) c))
  generalize runOps downNext (runOps (downHalf (-64)) (runOps (downHalf (-32)) c)) = c'
    at hbody hnext hccr
  have hfits := hcall.src_fits
  rw [hnext.a1, hnext.a3, ne_eq, ← BitVec.toNat_inj, toNat_add_of_fits (by omega),
    toNat_add_of_fits (by omega)] at hccr
  by_cases hmore : j = 0
  · subst hmore
    obtain ⟨s, hs, hret⟩ := ldown_block_exit hcall hdown hnext (by omega)
    have hexit : Reaches memmove (past memmove .Ldown_block 6 c')
        (past memmove .Ldown_block 7 c') :=
      reaches_not_taken memmove .Ldown_block 6 .ne rfl fun he => hccr.mp he (by omega)
    exact ⟨s, (hbody.trans hexit).trans hs, Or.inl hret⟩
  · obtain ⟨i, rfl⟩ := Nat.exists_eq_succ_of_ne_zero hmore
    exact ⟨_, hbody.trans (reaches_taken memmove .Ldown_block 6 .ne rfl (hccr.mpr (by omega))),
      Or.inr ⟨i, by omega, c', rfl, by omega, hnext⟩⟩

/-- What does not fill a block, as `and.l` with `63` counts it. -/
theorem and_63 (n : Long) : (63#32 : Long) &&& n = BitVec.ofNat 32 (n.toNat % 64) := by
  refine BitVec.eq_of_toNat_eq ?_
  rw [BitVec.toNat_and, BitVec.toNat_ofNat, BitVec.toNat_ofNat, Nat.mod_eq_of_lt (by omega),
    Nat.mod_eq_of_lt (by omega), Nat.and_comm]
  exact Nat.and_two_pow_sub_one_eq_mod n.toNat 6

/-- The block path's preparations, once the registers are saved. -/
def downPrepare : List Op :=
  [.moveq 63 1, .and d0 1, .lea (.index 0 1 1) 3, .lea (.index 0 1 0) 2, .add d0 (.a 0),
    .move .l (Loc.ind 1) d0, .move .l a2 a1]

theorem downPrepare_regs (c : Cpu) {q : Reg}
    (hq : q ≠ .d 0 ∧ q ≠ .d 1 ∧ q ≠ .a 0 ∧ q ≠ .a 1 ∧ q ≠ .a 2 ∧ q ≠ .a 3) :
    (runOps downPrepare c).regs q = c.regs q := by
  simp [downPrepare, hq]

theorem downPrepare_mem (c : Cpu) : (runOps downPrepare c).mem = c.mem := by simp [downPrepare]

theorem downPrepare_d0 (c : Cpu) :
    (runOps downPrepare c).regs (.d 0) = c.mem.readLong (c.regs (.a 1)) := by simp [downPrepare]

theorem downPrepare_a0 (c : Cpu) :
    (runOps downPrepare c).regs (.a 0) = c.regs (.a 0) + c.regs (.d 0) := by simp [downPrepare]

theorem downPrepare_a1 (c : Cpu) :
    (runOps downPrepare c).regs (.a 1) = c.regs (.a 1) + c.regs (.d 0) := by simp [downPrepare]

theorem downPrepare_a3 (c : Cpu) :
    (runOps downPrepare c).regs (.a 3)
      = c.regs (.a 1) + BitVec.ofNat 32 ((c.regs (.d 0)).toNat % 64) := by
  rw [← and_63]
  simp [downPrepare]

/-- **`.Ldown_big`**: the registers go on the stack, the first long into `d0`. -/
theorem ldown_big (hcall : Call c₀ dst src n) (hdown : Down dst src n) (h : Loaded c₀ dst src n c)
    (h64 : 64 ≤ n.toNat) :
    ∃ s, Reaches memmove (past memmove .Ldown_big 0 c) s ∧ Returns c₀ dst src n s := by
  obtain ⟨hpush, hsp, hregs⟩ := push h
  have hrun : Reaches memmove (past memmove .Ldown_big 0 c)
      (past memmove .Ldown_big 1 ((Op.movemOut savedRegs (.predec sp)).effect c)) :=
    reaches_block memmove .Ldown_big 0 [.movemOut savedRegs (.predec sp)] c rfl rfl
  generalize (Op.movemOut savedRegs (.predec sp)).effect c = c₁ at hpush hsp hregs hrun
  have hbody : Reaches memmove (past memmove .Ldown_big 1 c₁)
      (past memmove .Ldown_big 8 (runOps downPrepare c₁)) :=
    reaches_block memmove .Ldown_big 1 downPrepare c₁ rfl rfl
  have hd0 : c₁.regs (.d 0) = n := (hregs _ (by decide)).trans h.d0
  have ha0 : c₁.regs (.a 0) = dst := (hregs _ (by decide)).trans h.a0
  have ha1 : c₁.regs (.a 1) = src := (hregs _ (by decide)).trans h.a1
  have hall : n.toNat % 64 + 64 * (n.toNat / 64 - 1 + 1) = n.toNat := by omega
  have hn := ofNat_toNat_self n
  have hstart : BlockDown c₀ dst src n (n.toNat % 64 + 64 * (n.toNat / 64 - 1 + 1))
      (runOps downPrepare c₁) := by
    rw [hall]
    refine ⟨⟨⟨offStack_pushed c₀, ?_, ?_⟩, ?_, ?_⟩, ⟨?_, fun r hr => ?_⟩, ?_, ?_⟩
    · rw [Set.Ico_self]
      exact Set.empty_subset _
    · rw [downPrepare_mem, hpush, Set.Ico_self, Mem.moved_empty]
    · rw [downPrepare_a0, ha0, hd0, hn]
    · rw [downPrepare_a1, ha1, hd0, hn]
    · rw [downPrepare_regs c₁ (by decide), hsp]
    · have hr' : (r ≠ .d 0 ∧ r ≠ .d 1 ∧ r ≠ .a 0 ∧ r ≠ .a 1 ∧ r ≠ .a 2 ∧ r ≠ .a 3)
          ∧ r ≠ .a 7 ∧ r ∈ kept := by
        revert hr; revert r; decide
      rw [downPrepare_regs c₁ hr'.1, hregs r hr'.2.1, h.keeps r hr'.2.2]
    · rw [downPrepare_d0, hpush, ha1]
    · rw [downPrepare_a3, ha1, hd0]
  obtain ⟨s, hs, hret⟩ := ldown_block hcall hdown hstart (by omega)
  exact ⟨s, (hrun.trans hbody).trans hs, hret⟩

/-- The test for less than a long. -/
def downTest : List Op := [.moveq 4 1, .cmp d1 (.d 0)]

theorem downTest_regs (c : Cpu) {q : Reg} (hq : q ≠ .d 1) :
    (runOps downTest c).regs q = c.regs q := by simp [downTest, hq]

theorem downTest_mem (c : Cpu) : (runOps downTest c).mem = c.mem := rfl

theorem holds_cs_downTest (c : Cpu) :
    Cond.holds .cs (runOps downTest c).ccr = true ↔ (c.regs (.d 0)).toNat < 4 :=
  holds_cs_compare _ _ _

/-- To the ends of both regions, with the first long in `d0`. -/
def downLoad : List Op :=
  [.move .l (Loc.ind 1) d1, .add d0 (.a 0), .add d0 (.a 1), .move .l d1 d0,
    .move .l (Loc.disp 8 sp) d1, .add (.imm 4) (.d 1)]

theorem downLoad_spec (c : Cpu) : (runOps downLoad c).mem = c.mem ∧
    (runOps downLoad c).regs (.a 0) = c.regs (.a 0) + c.regs (.d 0) ∧
    (runOps downLoad c).regs (.a 1) = c.regs (.a 1) + c.regs (.d 0) ∧
    (runOps downLoad c).regs (.d 0) = c.mem.readLong (c.regs (.a 1)) ∧
    (runOps downLoad c).regs (.d 1) = c.mem.readLong (c.regs (.a 7) + 8#32) + 4#32 ∧
    ∀ r ∈ kept, (runOps downLoad c).regs r = c.regs r := by
  simp [downLoad, sp, kept]

/-- **Going down**, from the test of the length on. -/
theorem going_down (hcall : Call c₀ dst src n) (hdown : Down dst src n)
    (h : Loaded c₀ dst src n c) :
    ∃ s, Reaches memmove (past memmove .Ldown 0 c) s ∧ Returns c₀ dst src n s := by
  have hn := ofNat_toNat_self n
  let c₁ := runOps [.cmp (.imm MEMMOVE_SMALL) (.d 0)] c
  have htest : Reaches memmove (past memmove .Ldown 0 c) (past memmove .Ldown 1 c₁) :=
    reaches_block memmove .Ldown 0 _ c rfl rfl
  have hbig : Cond.holds .cc c₁.ccr = true ↔ 64 ≤ n.toNat := by
    rw [← h.d0]
    exact holds_cc_compare c.ccr _ _
  have h₁ : Loaded c₀ dst src n c₁ := ⟨h.mem, h.keeps, h.a0, h.a1, h.d0⟩
  by_cases h64 : 64 ≤ n.toNat
  · obtain ⟨s, hs, hret⟩ := ldown_big hcall hdown h₁ h64
    exact ⟨s, (htest.trans (reaches_taken memmove .Ldown 1 .cc rfl (hbig.mpr h64))).trans hs, hret⟩
  replace htest := htest.trans (reaches_not_taken memmove .Ldown 1 .cc rfl (mt hbig.mp h64))
  have hcmp : Reaches memmove (past memmove .Ldown 2 c₁)
    (past memmove .Ldown 4 (runOps downTest c₁)) :=
    reaches_block memmove .Ldown 2 downTest c₁ rfl rfl
  have htiny := holds_cs_downTest c₁
  rw [h₁.d0] at htiny
  have h₂ : Loaded c₀ dst src n (runOps downTest c₁) :=
    { mem := (downTest_mem c₁).trans h₁.mem
      keeps := h₁.keeps.of_eq fun r hr => downTest_regs c₁ (by revert hr; revert r; decide)
      a0 := (downTest_regs c₁ (by decide)).trans h₁.a0
      a1 := (downTest_regs c₁ (by decide)).trans h₁.a1
      d0 := (downTest_regs c₁ (by decide)).trans h₁.d0 }
  generalize runOps downTest c₁ = c₂ at hcmp htiny h₂
  by_cases h4 : n.toNat < 4
  · have hstart : ByteDown c₀ dst src n c₀.mem n.toNat c₂ :=
      { off := fun _ _ => rfl
        sub := by simp
        mem := by rw [h₂.mem, Set.Ico_self, Mem.moved_empty]
        a0 := h₂.a0
        a1 := h₂.a1
        keeps := h₂.keeps
        d0 := h₂.d0.trans hn.symm }
    have hpos : 1 ≤ n.toNat := by have := hdown; rw [Down] at this; omega
    obtain ⟨s, hs, hret⟩ := ldown_tiny hcall hdown hstart hpos le_rfl
    have hjump := reaches_taken memmove .Ldown 4 .cs rfl (htiny.mpr h4)
    exact ⟨s, (htest.trans (hcmp.trans hjump)).trans hs, hret⟩
  have hload : Reaches memmove (past memmove .Ldown 5 c₂)
      (past memmove .Ldown 11 (runOps downLoad c₂)) :=
    reaches_block memmove .Ldown 5 downLoad c₂ rfl rfl
  obtain ⟨hmem, ha0, ha1, hd0, hd1, hkept⟩ := downLoad_spec c₂
  have hstart : LongDown c₀ dst src n c₀.mem n.toNat (runOps downLoad c₂) :=
    { off := fun _ _ => rfl
      sub := by simp
      mem := by rw [hmem, h₂.mem, Set.Ico_self, Mem.moved_empty]
      a0 := by rw [ha0, h₂.a0, h₂.d0, hn]
      a1 := by rw [ha1, h₂.a1, h₂.d0, hn]
      keeps := h₂.keeps.of_eq hkept
      d0 := by rw [hd0, h₂.mem, h₂.a1]
      d1 := by rw [hd1, h₂.mem, h₂.keeps (.a 7) (by decide), hcall.src_arg] }
  obtain ⟨s, hs, hret⟩ := ldown_long hcall hdown hstart (by omega) le_rfl
  have hfall := reaches_not_taken memmove .Ldown 4 .cs rfl (mt htiny.mp h4)
  exact ⟨s, (htest.trans (hcmp.trans (hfall.trans hload))).trans hs, hret⟩

end Memmove
