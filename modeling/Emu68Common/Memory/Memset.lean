import Emu68Common.Memory.Fill
import Emu68Common.Memory.MemmoveUp
import Emu68Common.Memory.MemmoveDown

/-!
# Memory/Memset — `memset` fills with one byte

`memset` is `memset_movem.S`, line by line.  The byte argument is broadcast to a long (`pattern`),
all four of whose bytes it is (`longByte_pattern`), so a store of any number of longs fills with
that byte.  The sizes and the overlapping last pieces are `memcpy`'s (`memset_correct`).

    .Lbig ──▸ .Lblock ──▸ .Ldone        .Llong ──▸ .Ldone        .Ltiny ──▸ .Ldone
-/

namespace Memset

open M68k Machinery Fill
open Memmove (d0 d1 a0 a1 a2 a3 sp savedRegs carriedRegs frame kept Keeps Filling OnStack pushed)

/-! ## The listing -/

/-- The labels of `memset_movem.S`. -/
inductive Label where
  | memset | Llong | Ldone | Ltiny | Lbig | Lblock
  deriving DecidableEq, Repr

/-- Below this the long loop, from here on blocks. -/
def MEMSET_SMALL : Long := 64

def d2 : Place := .reg (.d 2)
def d3 : Place := .reg (.d 3)
def d4 : Place := .reg (.d 4)
def d5 : Place := .reg (.d 5)
def d6 : Place := .reg (.d 6)
def d7 : Place := .reg (.d 7)

/-- **`memset_movem.S`.** -/
def memset : List (Line Label) := [
  lab .memset (Op.move .l (Loc.disp 4 sp) a0),
  ln (Op.moveq 0 1),
  ln (Op.move .b (Loc.disp 11 sp) d1),
  ln (Op.mulu (.imm 0x01010101) 1),
  ln (Op.move .l (Loc.disp 12 sp) d0),
  ln (Op.cmp (.imm MEMSET_SMALL) (.d 0)),
  ln (.branch .cc .Lbig),
  ln (Op.sub (.imm 4) 0),
  ln (.branch .cs .Ltiny),
  ln (Op.lea (.index 0 0 0) 1),
  lab .Llong (Op.move .l d1 (Loc.postinc 0)),
  ln (Op.cmp a0 (.a 1)),
  ln (.branch .hi .Llong),
  ln (Op.move .l d1 (Loc.ind 1)),
  lab .Ldone (Op.move .l (Loc.disp 4 sp) d0),
  ln (Op.move .l d0 a0),
  ln .rts,
  lab .Ltiny (Op.add (.imm 4) (.d 0)),
  ln (.branch .eq .Ldone),
  ln (Op.move .b d1 (Loc.ind 0)),
  ln (Op.move .b d1 (Loc.index (-1) 0 0)),
  ln (Op.lsr 1 0),
  ln (Op.move .b d1 (Loc.index 0 0 0)),
  ln (.bra .Ldone),
  lab .Lbig (Op.movemOut savedRegs (.predec sp)),
  ln (Op.move .l d1 d2),
  ln (Op.move .l d1 d3),
  ln (Op.move .l d1 d4),
  ln (Op.move .l d1 d5),
  ln (Op.move .l d1 d6),
  ln (Op.move .l d1 d7),
  ln (Op.move .l d1 a2),
  ln (Op.moveq (-64) 2),
  ln (Op.and d0 2),
  ln (Op.lea (.index 0 0 2) 3),
  ln (Op.move .l d1 d2),
  lab .Lblock (Op.movemOut carriedRegs (.ind 0)),
  ln (Op.movemOut carriedRegs (.disp 32 0)),
  ln (Op.lea (.disp 64 0) 0),
  ln (Op.cmp a3 (.a 0)),
  ln (.branch .ne .Lblock),
  ln (Op.and (.imm 63) 0),
  ln (Op.sub (.imm 64) 0),
  ln (Op.add d0 (.a 0)),
  ln (Op.movemOut carriedRegs (.ind 0)),
  ln (Op.movemOut carriedRegs (.disp 32 0)),
  ln (Op.movemIn (.postinc sp) savedRegs),
  ln (.bra .Ldone)]

/-! ## A call -/

/-- **A call of `memset(dst, v, n)`**: the arguments on the stack, the region below `2³²` and off
the stack words. -/
structure Call (c : Cpu) (dst v n : Long) : Prop where
  dst_arg : c.mem.readLong (c.regs (.a 7) + 4#32) = dst
  c_arg : c.mem.readLong (c.regs (.a 7) + 8#32) = v
  n_arg : c.mem.readLong (c.regs (.a 7) + 12#32) = n
  dst_fits : dst.toNat + n.toNat < 2 ^ 32
  dst_apart : Mem.Apart dst n.toNat (frame c) 48

/-- The byte a call fills with: the low one of its `int`. -/
def fillByte (v : Long) : BitVec 8 := v.setWidth 8

/-- The byte in every lane of a long. -/
def pattern (v : Long) : Long := (fillByte v).setWidth 32 * 0x01010101

/-- What the region is filled with. -/
def bytes (v : Long) (_ : ℕ) : BitVec 8 := fillByte v

/-- **Each byte of the pattern is the byte.** -/
theorem longByte_pattern (v : Long) {i : ℕ} (hi : i < 4) :
    Mem.longByte (pattern v) i = fillByte v := by
  rw [pattern]
  generalize fillByte v = b
  obtain rfl | rfl | rfl | rfl : i = 0 ∨ i = 1 ∨ i = 2 ∨ i = 3 := by omega
  all_goals
    revert b
    decide +kernel

theorem setWidth_pattern (v : Long) : (pattern v).setWidth 8 = fillByte v := by
  rw [pattern]
  generalize fillByte v = b
  revert b
  decide +kernel

/-- Longs that are all the pattern are bytes that are all the byte. -/
theorem longBytes_pattern (v : Long) {vs : List Long} (h : ∀ u ∈ vs, u = pattern v) {i : ℕ}
    (hi : i < 4 * vs.length) : Mem.longBytes vs i = fillByte v := by
  have hlt : i / 4 < vs.length := by omega
  rw [Mem.longBytes, List.getD_eq_getElem?_getD, List.getElem?_eq_getElem hlt, Option.getD_some,
    h _ (List.getElem_mem hlt), longByte_pattern v (Nat.mod_lt _ (by omega))]

variable {c₀ c c' : Cpu} {dst v n : Long} {m : Memory} {P : Set ℕ} {hi o k : ℕ}

/-- The low byte of the `int` is the last of its four. -/
theorem c_byte (hcall : Call c₀ dst v n) : c₀.mem (c₀.regs (.a 7) + 11#32) = fillByte v := by
  have hbyte := Mem.longByte_readLong c₀.mem (c₀.regs (.a 7) + 8#32) 3 (by omega)
  rw [hcall.c_arg, BitVec.add_assoc] at hbyte
  exact hbyte.symm.trans (BitVec.setWidth_eq_extractLsb' (by omega)).symm

/-- The return, from `.Ldone`. -/
theorem done (hcall : Call c₀ dst v n)
    (h : Filling c₀ dst (bytes v) n.toNat m (Set.Ico 0 n.toNat) c) (hk : Keeps c₀ c) :
    ∃ s, Reaches memset (past memset .Ldone 0 c) s ∧ Returns memset c₀ dst (bytes v) n.toNat s := by
  obtain ⟨s, hs, hret⟩ := ldone memset hcall.dst_apart hcall.dst_arg (Set.subset_univ _)
    Label.Ldone rfl h hk
  exact ⟨s, hs.reaches, hret⟩

/-- What the paths find in the registers once the arguments are loaded. -/
structure Loaded (c₀ : Cpu) (dst v len : Long) (c : Cpu) : Prop where
  mem : c.mem = c₀.mem
  keeps : Keeps c₀ c
  a0 : c.regs (.a 0) = dst
  d1 : c.regs (.d 1) = pattern v
  d0 : c.regs (.d 0) = len

/-! ## Fewer than four bytes -/

/-- The low byte of the pattern is the byte. -/
theorem gives_d1 (h1 : c.regs (.d 1) = pattern v) : Gives Set.univ d1 c (fillByte v) where
  read := by
    simp only [d1, Ea.read, h1, Size.low]
    rw [setWidth_pattern]
  inside := inside_none

/-- **`.Ltiny`**: with `d0` back at `n`, three bytes or nothing at all. -/
theorem ltiny (hcall : Call c₀ dst v n) (h : Loaded c₀ dst v (n - 4#32) c) (h4 : n.toNat < 4) :
    ∃ s, Reaches memset (past memset .Ltiny 0 c) s ∧ Returns memset c₀ dst (bytes v) n.toNat s := by
  let c₁ := runOps [.add (.imm 4) (.d 0)] c
  have hadd : Reaches memset (past memset .Ltiny 0 c) (past memset .Ltiny 1 c₁) :=
    reaches_block memset .Ltiny 0 _ c rfl rfl
  have h₁ : Loaded c₀ dst v n c₁ :=
    { mem := h.mem
      keeps := h.keeps.of_eq (by simp [c₁, kept])
      a0 := by simp [c₁, h.a0]
      d1 := by simp [c₁, h.d1]
      d0 := by simp [c₁, h.d0] }
  have hzero : Cond.holds .eq c₁.ccr = true ↔ n.toNat = 0 := by
    refine (holds_eq_sum _ _).trans ?_
    change c.regs (.d 0) + 4#32 = 0 ↔ _
    rw [h.d0, BitVec.sub_add_cancel]
    exact BitVec.toNat_inj.symm
  have hstart : Filling c₀ dst (bytes v) n.toNat c₀.mem ∅ c₁ := Filling.start h₁.mem
  by_cases h0 : n.toNat = 0
  · have hfill : Filling c₀ dst (bytes v) n.toNat c₀.mem (Set.Ico 0 n.toNat) c₁ := by
      rw [h0, Set.Ico_self, ← h0]
      exact hstart
    obtain ⟨s, hs, hret⟩ := done hcall hfill h₁.keeps
    have hjump := reaches_taken memset .Ltiny 1 .eq rfl (hzero.mpr h0)
    exact ⟨s, (hadd.trans hjump).trans hs, hret⟩
  · have hd0 : c₁.regs (.d 0) = BitVec.ofNat 32 n.toNat :=
      h₁.d0.trans (Memmove.ofNat_toNat_self n).symm
    obtain ⟨hfill, hregs, -⟩ := tiny_filled (R := Set.univ) d1 d1 d1 hstart
      (by omega) h4 h₁.a0 hd0 (gives_d1 h₁.d1) (fun _ _ _ hr => gives_d1 (hr ▸ h₁.d1))
      (fun _ _ _ hr _ => gives_d1 ((hr (.d 1) (by decide)).trans h₁.d1))
    have hbytes : Reaches memset (past memset .Ltiny 2 c₁)
        (past memset .Ltiny 6 (runOps (tiny d1 d1 d1) c₁)) :=
      reaches_block memset .Ltiny 2 _ c₁ rfl rfl
    generalize runOps (tiny d1 d1 d1) c₁ = c₂ at hfill hregs hbytes
    obtain ⟨s, hs, hret⟩ := done hcall hfill
      (h₁.keeps.of_eq fun r hr => hregs r (by revert hr; revert r; decide))
    have hfall := reaches_not_taken memset .Ltiny 1 .eq rfl (mt hzero.mp h0)
    have hjump := reaches_bra memset .Ltiny 6 (c := c₂) rfl
    exact ⟨s, (hadd.trans (hfall.trans (hbytes.trans hjump))).trans hs, hret⟩

/-! ## Longs -/

/-- **At `.Llong`**: `a0` stands `hi` above the start, `a1` at the last long. -/
structure LongUp (c₀ : Cpu) (dst v n : Long) (hi : ℕ) (c : Cpu) : Prop
    extends Filling c₀ dst (bytes v) n.toNat c₀.mem (Set.Ico 0 hi) c where
  keeps : Keeps c₀ c
  a0 : c.regs (.a 0) = dst + BitVec.ofNat 32 hi
  a1 : c.regs (.a 1) = dst + BitVec.ofNat 32 (n.toNat - 4)
  d1 : c.regs (.d 1) = pattern v

/-- **A long of the pattern** is four bytes filled. -/
theorem long_piece (h : Filling c₀ dst (bytes v) n.toNat m P c) (ho : o + 4 ≤ n.toNat)
    (he : c'.mem = c.mem.writeLong (dst + BitVec.ofNat 32 o) (pattern v)) :
    Filling c₀ dst (bytes v) n.toNat m (P ∪ Set.Ico o (o + 4)) c' :=
  h.piece n.isLt.le ho he fun _ hi => longByte_pattern v hi

/-- **The long that ends at `n`.** -/
theorem llast (hcall : Call c₀ dst v n) (h : LongUp c₀ dst v n hi c) (h4 : 4 ≤ n.toNat)
    (hlo : n.toNat - 4 ≤ hi) (hhi : hi ≤ n.toNat) :
    ∃ s, Reaches memset (past memset .Llong 3 c) s
      ∧ Returns memset c₀ dst (bytes v) n.toNat s := by
  let c' := runOps [.move .l d1 (Loc.ind 1)] c
  have hrun : Reaches memset (past memset .Llong 3 c) (past memset .Ldone 0 c') :=
    reaches_block memset .Llong 3 [.move .l d1 (Loc.ind 1)] c rfl rfl
  have hfill : Filling c₀ dst (bytes v) n.toNat c₀.mem _ c' :=
    long_piece h.toFilling (Nat.sub_add_cancel h4).le (by rw [← h.a1, ← h.d1]; simp [c'])
  rw [last_cover h4 hlo hhi] at hfill
  obtain ⟨s, hs, hret⟩ := done hcall hfill (h.keeps.of_eq (by simp [c', kept]))
  exact ⟨s, hrun.trans hs, hret⟩

/-- **`.Llong`**: longs while below the last one, then the last one. -/
theorem llong (hcall : Call c₀ dst v n) (h : LongUp c₀ dst v n hi c) (hhi : hi + 4 ≤ n.toNat) :
    ∃ s, Reaches memset (past memset .Llong 0 c) s
      ∧ Returns memset c₀ dst (bytes v) n.toNat s := by
  -- the measure is what is left to fill
  refine reaches_loop (fun k s => ∃ hi c, s = past memset .Llong 0 c ∧ k = n.toNat - hi ∧
    hi + 4 ≤ n.toNat ∧ LongUp c₀ dst v n hi c) ?_ ⟨hi, c, rfl, rfl, hhi, h⟩
  rintro k s ⟨hi, c, rfl, rfl, hhi, h⟩
  let c' := runOps [.move .l d1 (Loc.postinc 0), .cmp a0 (.a 1)] c
  have hbody : Reaches memset (past memset .Llong 0 c) (past memset .Llong 2 c') :=
    reaches_block memset .Llong 0 _ c rfl rfl
  have hfill : Filling c₀ dst (bytes v) n.toNat c₀.mem _ c' :=
    long_piece h.toFilling hhi (by rw [← h.a0, ← h.d1]; simp [c'])
  rw [Set.Ico_union_Ico_eq_Ico (Nat.zero_le hi) (Nat.le_add_right hi 4)] at hfill
  have hnext : LongUp c₀ dst v n (hi + 4) c' :=
    { toFilling := hfill
      keeps := h.keeps.of_eq (by simp [c', kept])
      a0 := by rw [BitVec.ofNat_add, ← BitVec.add_assoc, ← h.a0]; simp [c']
      a1 := by rw [← h.a1]; simp [c']
      d1 := by rw [← h.d1]; simp [c'] }
  have hccr : Cond.holds .hi c'.ccr = true ↔ (c'.regs (.a 0)).toNat < (c'.regs (.a 1)).toNat := by
    rw [← holds_hi_compare c.ccr]
    simp [c', Ccr.compare, Ccr.logic, Cond.holds]
  have hfits := hcall.dst_fits
  rw [hnext.a0, hnext.a1, Memmove.toNat_add_of_fits (by omega),
    Memmove.toNat_add_of_fits (by omega), Nat.add_lt_add_iff_left] at hccr
  by_cases hmore : hi + 4 < n.toNat - 4
  · refine ⟨_, hbody.trans (reaches_taken memset .Llong 2 .hi rfl (hccr.mpr hmore)),
      Or.inr ⟨_, ?_, hi + 4, c', rfl, rfl, by omega, hnext⟩⟩
    omega
  · obtain ⟨s, hs, hret⟩ := llast hcall hnext (by omega) (by omega) hhi
    have hexit := reaches_not_taken memset .Llong 2 .hi rfl (mt hccr.mp hmore)
    exact ⟨s, (hbody.trans hexit).trans hs, Or.inl hret⟩

/-! ## Blocks -/

/-- What half a block does: 32 bytes of the pattern at `a0 + o`. -/
theorem carried_store (hd : ∀ r ∈ carriedRegs, c.regs r = pattern v) (a : Addr) :
    c.mem.writeLongs a (carriedRegs.map c.regs) = c.mem.store a 32 (bytes v) := by
  have hlen : (carriedRegs.map c.regs).length = 8 := rfl
  have hall : ∀ u ∈ carriedRegs.map c.regs, u = pattern v := by
    intro u hu
    obtain ⟨r, hr, rfl⟩ := List.mem_map.mp hu
    exact hd r hr
  rw [Mem.writeLongs_eq_store _ _ _ (by rw [hlen]; decide), hlen]
  exact Mem.store_congr fun i hi => longBytes_pattern v hall (by rw [hlen]; exact hi)

/-- The two halves of a block. -/
def block : List Op := [.movemOut carriedRegs (.ind 0), .movemOut carriedRegs (.disp 32 0)]

theorem block_regs (c : Cpu) : (runOps block c).regs = c.regs := rfl

/-- **One block**, at the offset `o` that `a0` stands at. -/
theorem block_piece (h : Filling c₀ dst (bytes v) n.toNat m P c)
    (hd : ∀ r ∈ carriedRegs, c.regs r = pattern v) (ho : o + 64 ≤ n.toNat)
    (h0 : c.regs (.a 0) = dst + BitVec.ofNat 32 o) :
    Filling c₀ dst (bytes v) n.toNat m (P ∪ Set.Ico o (o + 64)) (runOps block c) := by
  let c₁ := (Op.movemOut carriedRegs (.ind 0)).effect c
  have hm₁ : c₁.mem = c.mem.store (dst + BitVec.ofNat 32 o) 32 (bytes v) := by
    rw [← h0, ← carried_store hd]
    rfl
  have hm₂ : (runOps block c).mem = c₁.mem.store (dst + BitVec.ofNat 32 (o + 32)) 32 (bytes v) := by
    rw [BitVec.ofNat_add, ← BitVec.add_assoc, ← h0, ← carried_store (c := c₁) hd]
    simp [block, c₁]
  have hfill := (h.piece n.isLt.le (show o + 32 ≤ n.toNat by omega) hm₁ fun _ _ => rfl).piece
    n.isLt.le (show o + 32 + 32 ≤ n.toNat by omega) hm₂ fun _ _ => rfl
  rwa [Set.union_assoc, Set.Ico_union_Ico_eq_Ico (Nat.le_add_right _ _) (Nat.le_add_right _ _)]
    at hfill

/-- **At `.Lblock`**: the pattern in every register a block is stored from, the saved registers on
the stack, `a3` where the whole blocks end. -/
structure BlockUp (c₀ : Cpu) (dst v n : Long) (hi : ℕ) (c : Cpu) : Prop
    extends Filling c₀ dst (bytes v) n.toNat (pushed c₀) (Set.Ico 0 hi) c where
  stack : OnStack c₀ c
  carried : ∀ r ∈ carriedRegs, c.regs r = pattern v
  a0 : c.regs (.a 0) = dst + BitVec.ofNat 32 hi
  a3 : c.regs (.a 3) = dst + BitVec.ofNat 32 (n.toNat / 64 * 64)
  d0 : c.regs (.d 0) = n

/-- On to the next block. -/
def next : List Op := [.lea (.disp 64 0) 0, .cmp a3 (.a 0)]

theorem next_regs (c : Cpu) {q : Reg} (hq : q ≠ .a 0) : (runOps next c).regs q = c.regs q := by
  simp [next, hq]

theorem next_a0 (c : Cpu) :
    (runOps next c).regs (.a 0) = c.regs (.a 0) + BitVec.ofNat 32 64 := by simp [next]

theorem holds_ne_next (c : Cpu) :
    Cond.holds .ne (runOps next c).ccr = true
      ↔ (runOps next c).regs (.a 0) ≠ (runOps next c).regs (.a 3) := by
  rw [← holds_ne_compare c.ccr]
  simp [next]

/-- **One block up.** -/
theorem blockUp_next (h : BlockUp c₀ dst v n hi c) (hhi : hi + 64 ≤ n.toNat) :
    BlockUp c₀ dst v n (hi + 64) (runOps next (runOps block c)) := by
  have hfill := block_piece h.toFilling h.carried hhi h.a0
  rw [Set.Ico_union_Ico_eq_Ico (Nat.zero_le hi) (Nat.le_add_right hi 64)] at hfill
  have hregs := block_regs c
  generalize runOps block c = c₁ at hfill hregs ⊢
  have hkeep : ∀ q ≠ .a 0, (runOps next c₁).regs q = c.regs q := fun q hq =>
    (next_regs c₁ hq).trans (congrFun hregs q)
  exact
    { toFilling := hfill.of_mem rfl
      stack := ⟨(hkeep _ (by decide)).trans h.stack.stack, fun r hr =>
        (hkeep r (by revert hr; revert r; decide)).trans (h.stack.untouched r hr)⟩
      carried := fun r hr => (hkeep r (by revert hr; revert r; decide)).trans (h.carried r hr)
      a0 := by rw [next_a0, hregs, h.a0, BitVec.add_assoc, ← BitVec.ofNat_add]
      a3 := (hkeep _ (by decide)).trans h.a3
      d0 := (hkeep _ (by decide)).trans h.d0 }

/-- Back to the start of the block that ends at `n`. -/
def back : List Op := [.and (.imm 63) 0, .sub (.imm 64) 0, .add d0 (.a 0)]

theorem back_regs (c : Cpu) {q : Reg} (hq : q ≠ .d 0 ∧ q ≠ .a 0) :
    (runOps back c).regs q = c.regs q := by
  simp [back, hq]

theorem back_mem (c : Cpu) : (runOps back c).mem = c.mem := rfl

theorem back_a0 (c : Cpu) :
    (runOps back c).regs (.a 0) = c.regs (.a 0) + ((c.regs (.d 0) &&& 63#32) - 64#32) := by
  simp [back]

/-- **After the blocks**: the block that ends at `n`, and the registers come back. -/
theorem lblock_exit (hcall : Call c₀ dst v n) (h64 : 64 ≤ n.toNat)
    (h : BlockUp c₀ dst v n (n.toNat / 64 * 64) c) :
    ∃ s, Reaches memset (past memset .Lblock 5 c) s
      ∧ Returns memset c₀ dst (bytes v) n.toNat s := by
  have hback : Reaches memset (past memset .Lblock 5 c) (past memset .Lblock 8 (runOps back c)) :=
    reaches_block memset .Lblock 5 back c rfl rfl
  have hfill := h.toFilling.of_mem (back_mem c)
  have ha0 := back_a0 c
  rw [h.a0, h.d0, add_back dst h64] at ha0
  have hregs : ∀ q, q ≠ .d 0 ∧ q ≠ .a 0 → (runOps back c).regs q = c.regs q := fun q => back_regs c
  generalize runOps back c = c₁ at hback hfill ha0 hregs
  have hcarried : ∀ r ∈ carriedRegs, c₁.regs r = pattern v := fun r hr =>
    (hregs r (by revert hr; revert r; decide)).trans (h.carried r hr)
  have hlast := block_piece hfill hcarried (Nat.sub_add_cancel h64).le ha0
  rw [last_cover h64 (by omega) (by omega)] at hlast
  have hblock : Reaches memset (past memset .Lblock 8 c₁)
      (past memset .Lblock 10 (runOps block c₁)) :=
    reaches_block memset .Lblock 8 block c₁ rfl rfl
  have hstack : OnStack c₀ (runOps block c₁) := by
    rw [← block_regs c₁] at hregs
    exact ⟨(hregs _ (by decide)).trans h.stack.stack, fun r hr =>
      (hregs r (by revert hr; revert r; decide)).trans (h.stack.untouched r hr)⟩
  generalize runOps block c₁ = c₂ at hlast hblock hstack
  obtain ⟨s, hs, hret⟩ := lrestore memset hcall.dst_apart hcall.dst_arg
    (Set.subset_univ _) Label.Lblock Label.Ldone 10 rfl rfl rfl hlast hstack
  exact ⟨s, (hback.trans hblock).trans hs.reaches, hret⟩

/-- **`.Lblock`**: block after block until `a0` stands at `a3`. -/
theorem lblock (hcall : Call c₀ dst v n) {j : ℕ} (h : BlockUp c₀ dst v n (64 * j) c)
    (hj : j < n.toNat / 64) :
    ∃ s, Reaches memset (past memset .Lblock 0 c) s
      ∧ Returns memset c₀ dst (bytes v) n.toNat s := by
  refine reaches_loop (fun k s => ∃ j c, s = past memset .Lblock 0 c ∧ k = n.toNat / 64 - j ∧
    j < n.toNat / 64 ∧ BlockUp c₀ dst v n (64 * j) c) ?_ ⟨j, c, rfl, rfl, hj, h⟩
  rintro k s ⟨j, c, rfl, rfl, hj, h⟩
  have hnext := blockUp_next h (by omega)
  have hbody : Reaches memset (past memset .Lblock 0 c)
      (past memset .Lblock 4 (runOps next (runOps block c))) :=
    (reaches_block memset .Lblock 0 block c rfl rfl).trans
      (reaches_block memset .Lblock 2 next _ rfl rfl)
  have hccr := holds_ne_next (runOps block c)
  generalize runOps next (runOps block c) = c' at hbody hnext hccr
  have hfits := hcall.dst_fits
  rw [hnext.a0, hnext.a3, ne_eq, ← BitVec.toNat_inj, Memmove.toNat_add_of_fits (by omega),
    Memmove.toNat_add_of_fits (by omega)] at hccr
  rw [show 64 * j + 64 = 64 * (j + 1) by omega] at hnext
  by_cases hmore : j + 1 = n.toNat / 64
  · rw [hmore, Nat.mul_comm] at hnext
    obtain ⟨s, hs, hret⟩ := lblock_exit hcall (by omega) hnext
    have hexit := reaches_not_taken memset .Lblock 4 .ne (c := c') rfl
      fun he => hccr.mp he (by omega)
    exact ⟨s, (hbody.trans hexit).trans hs, Or.inl hret⟩
  · refine ⟨_, hbody.trans (reaches_taken memset .Lblock 4 .ne rfl (hccr.mpr (by omega))),
      Or.inr ⟨_, ?_, j + 1, c', rfl, rfl, by omega, hnext⟩⟩
    omega

/-- The pattern into the registers a block is stored from. -/
def spread : List Op :=
  [.move .l d1 d2, .move .l d1 d3, .move .l d1 d4, .move .l d1 d5, .move .l d1 d6, .move .l d1 d7,
    .move .l d1 a2]

/-- The end of the whole blocks into `a3`; `d2` is scratch for it, then holds the pattern again. -/
def measure : List Op := [.moveq (-64) 2, .and d0 2, .lea (.index 0 0 2) 3, .move .l d1 d2]

theorem spread_carried (c : Cpu) : ∀ r ∈ carriedRegs, (runOps spread c).regs r = c.regs (.d 1) := by
  simp [spread, carriedRegs, d2, d3, d4, d5, d6, d7]

theorem spread_regs (c : Cpu) {q : Reg} (hq : q ∉ carriedRegs) :
    (runOps spread c).regs q = c.regs q := by
  simp only [carriedRegs, List.mem_cons, List.not_mem_nil, or_false, not_or] at hq
  simp [spread, d2, d3, d4, d5, d6, d7, hq]

theorem spread_mem (c : Cpu) : (runOps spread c).mem = c.mem := rfl

theorem measure_regs (c : Cpu) {q : Reg} (hq : q ≠ .d 2 ∧ q ≠ .a 3) :
    (runOps measure c).regs q = c.regs q := by
  simp [measure, d2, hq]

theorem measure_mem (c : Cpu) : (runOps measure c).mem = c.mem := rfl

theorem measure_d2 (c : Cpu) : (runOps measure c).regs (.d 2) = c.regs (.d 1) := by
  simp [measure, d2]

theorem measure_a3 (c : Cpu) :
    (runOps measure c).regs (.a 3)
      = c.regs (.a 0) + BitVec.ofNat 32 ((c.regs (.d 0)).toNat / 64 * 64) := by
  rw [← Memmove.and_neg_64]
  simp [measure, d2]

/-- **`.Lbig`**: the registers go on the stack, the pattern into them, `a3` to the end of the whole
blocks. -/
theorem lbig (hcall : Call c₀ dst v n) (h : Loaded c₀ dst v n c) (h64 : 64 ≤ n.toNat) :
    ∃ s, Reaches memset (past memset .Lbig 0 c) s
      ∧ Returns memset c₀ dst (bytes v) n.toNat s := by
  obtain ⟨hpush, hsp, hregs⟩ := Memmove.push_saved h.mem h.keeps
  have hrun : Reaches memset (past memset .Lbig 0 c)
      (past memset .Lbig 1 ((Op.movemOut savedRegs (.predec sp)).effect c)) :=
    reaches_block memset .Lbig 0 [.movemOut savedRegs (.predec sp)] c rfl rfl
  generalize (Op.movemOut savedRegs (.predec sp)).effect c = c₁ at hpush hsp hregs hrun
  have hspread : Reaches memset (past memset .Lbig 1 c₁) (past memset .Lbig 8 (runOps spread c₁)) :=
    reaches_block memset .Lbig 1 spread c₁ rfl rfl
  have hcarried : ∀ r ∈ carriedRegs, (runOps spread c₁).regs r = pattern v := fun r hr => by
    rw [spread_carried c₁ r hr, hregs _ (by decide), h.d1]
  have hkeep : ∀ q ∉ carriedRegs, q ≠ .a 7 → (runOps spread c₁).regs q = c.regs q := fun q hq h7 =>
    (spread_regs c₁ hq).trans (hregs q h7)
  have hstack : (runOps spread c₁).regs (.a 7) = frame c₀ := (spread_regs c₁ (by decide)).trans hsp
  have hmem := (spread_mem c₁).trans hpush
  generalize runOps spread c₁ = c₂ at hspread hcarried hkeep hstack hmem
  have hmeasure : Reaches memset (past memset .Lbig 8 c₂)
      (past memset .Lblock 0 (runOps measure c₂)) :=
    reaches_block memset .Lbig 8 measure c₂ rfl rfl
  have ha0 : c₂.regs (.a 0) = dst := (hkeep _ (by decide) (by decide)).trans h.a0
  have hd0 : c₂.regs (.d 0) = n := (hkeep _ (by decide) (by decide)).trans h.d0
  have hstart : BlockUp c₀ dst v n (64 * 0) (runOps measure c₂) := by
    refine ⟨⟨Memmove.offStack_pushed c₀, ?_, ?_⟩, ⟨?_, fun r hr => ?_⟩, fun r hr => ?_, ?_, ?_, ?_⟩
    · exact Set.Ico_subset_Ico le_rfl (Nat.zero_le _)
    · rw [measure_mem, hmem, Nat.mul_zero, Set.Ico_self, Mem.patched_empty]
    · rw [measure_regs c₂ (by decide), hstack]
    · have hr' : (r ≠ .d 2 ∧ r ≠ .a 3) ∧ r ∉ carriedRegs ∧ r ≠ .a 7 ∧ r ∈ kept := by
        revert hr; revert r; decide
      rw [measure_regs c₂ hr'.1, hkeep r hr'.2.1 hr'.2.2.1, h.keeps r hr'.2.2.2]
    · by_cases h2 : r = .d 2
      · rw [h2, measure_d2, hcarried _ (by decide)]
      · rw [measure_regs c₂ ⟨h2, ne_of_mem_of_not_mem hr (by decide)⟩, hcarried r hr]
    · rw [measure_regs c₂ (by decide), ha0, Nat.mul_zero]
      exact (BitVec.add_zero dst).symm
    · rw [measure_a3, ha0, hd0]
    · rw [measure_regs c₂ (by decide), hd0]
  obtain ⟨s, hs, hret⟩ := lblock hcall hstart (by omega)
  exact ⟨s, (hrun.trans (hspread.trans hmeasure)).trans hs, hret⟩

/-! ## The whole routine -/

/-- A byte moved into a cleared register is the byte, zero-extended. -/
theorem merge_zero (b : BitVec 8) :
    (BitVec.extractLsb' 8 24 (0 : Long)) ++ (b.setWidth 32).setWidth 8 = b.setWidth 32 := by
  revert b
  decide +kernel

theorem displacement_11 : displacement 11 = 11#32 := displacement_natCast 11

/-- The region and the byte into registers. -/
def entry : List Op :=
  [.move .l (Loc.disp 4 sp) a0, .moveq 0 1, .move .b (Loc.disp 11 sp) d1]

theorem entry_spec (c : Cpu) : (runOps entry c).mem = c.mem ∧
    (runOps entry c).regs (.a 0) = c.mem.readLong (c.regs (.a 7) + 4#32) ∧
    (runOps entry c).regs (.d 1) = (c.mem (c.regs (.a 7) + 11#32)).setWidth 32 ∧
    ∀ r ∈ kept, (runOps entry c).regs r = c.regs r := by
  rw [← merge_zero, ← displacement_11]
  simp [entry, sp, kept]

/-- The length into its register. -/
def length : List Op := [.move .l (Loc.disp 12 sp) d0]

theorem length_spec (c : Cpu) : (runOps length c).mem = c.mem ∧
    (runOps length c).regs (.d 0) = c.mem.readLong (c.regs (.a 7) + 12#32) ∧
    ∀ q ≠ .d 0, (runOps length c).regs q = c.regs q := by
  simp +contextual [length, sp]

/-- **The arguments loaded**, the byte broadcast on the way. -/
theorem entry_loaded (hcall : Call c dst v n) :
    ∃ c', Reaches memset ⟨.line 0, c⟩ (past memset .memset 5 c') ∧ Loaded c dst v n c' := by
  obtain ⟨hmem, ha0, hd1, hkept⟩ := entry_spec c
  have hrun : Reaches memset ⟨.line 0, c⟩ (past memset .memset 3 (runOps entry c)) :=
    reaches_block memset .memset 0 entry c rfl rfl
  rw [hcall.dst_arg] at ha0
  rw [c_byte hcall] at hd1
  generalize runOps entry c = c₁ at hmem ha0 hd1 hkept hrun
  have hmul : Reaches memset (past memset .memset 3 c₁)
      (past memset .memset 4 ((Op.mulu (.imm 0x01010101) 1).effect c₁)) :=
    reaches_block memset .memset 3 [.mulu (.imm 0x01010101) 1] c₁ rfl rfl
  have hmem₂ := (mulu_mem c₁ 0x01010101 1).trans hmem
  have hd1₂ := mulu_self c₁ 0x01010101 1
  have hregs₂ : ∀ q ≠ .d 1, ((Op.mulu (.imm 0x01010101) 1).effect c₁).regs q = c₁.regs q :=
    fun q hq => mulu_regs c₁ 0x01010101 hq
  generalize (Op.mulu (.imm 0x01010101) 1).effect c₁ = c₂ at hmul hmem₂ hd1₂ hregs₂
  have hkeep₂ : Keeps c c₂ := fun r hr =>
    (hregs₂ r (by revert hr; revert r; decide)).trans (hkept r hr)
  have hlen : Reaches memset (past memset .memset 4 c₂)
      (past memset .memset 5 (runOps length c₂)) :=
    reaches_block memset .memset 4 length c₂ rfl rfl
  obtain ⟨hmem₃, hd0₃, hregs₃⟩ := length_spec c₂
  rw [hmem₂, hkeep₂.sp, hcall.n_arg] at hd0₃
  generalize runOps length c₂ = c₃ at hlen hmem₃ hd0₃ hregs₃
  refine ⟨c₃, hrun.trans (hmul.trans hlen), hmem₃.trans hmem₂, hkeep₂.of_eq fun r hr => ?_, ?_, ?_,
    hd0₃⟩
  · exact hregs₃ r (by revert hr; revert r; decide)
  · rw [hregs₃ _ (by decide), hregs₂ _ (by decide), ha0]
  · rw [hregs₃ _ (by decide), hd1₂, hd1, pattern]

/-- **Every call gets to an `rts`**, the region filled. -/
theorem memset_returns (hcall : Call c dst v n) :
    ∃ s, Reaches memset ⟨.line 0, c⟩ s ∧ Returns memset c dst (bytes v) n.toNat s := by
  obtain ⟨c₀, hrun, hload⟩ := entry_loaded hcall
  let c₁ := runOps [.cmp (.imm MEMSET_SMALL) (.d 0)] c₀
  have htest : Reaches memset (past memset .memset 5 c₀) (past memset .memset 6 c₁) :=
    reaches_block memset .memset 5 _ c₀ rfl rfl
  have hbig : Cond.holds .cc c₁.ccr = true ↔ 64 ≤ n.toNat := by
    rw [← hload.d0]
    exact holds_cc_compare c₀.ccr _ _
  have h₁ : Loaded c dst v n c₁ := ⟨hload.mem, hload.keeps, hload.a0, hload.d1, hload.d0⟩
  by_cases h64 : 64 ≤ n.toNat
  · obtain ⟨s, hs, hret⟩ := lbig hcall h₁ h64
    have hjump := reaches_taken memset .memset 6 .cc rfl (hbig.mpr h64)
    exact ⟨s, (hrun.trans (htest.trans hjump)).trans hs, hret⟩
  have hfall := reaches_not_taken memset .memset 6 .cc rfl (mt hbig.mp h64)
  let c₂ := runOps [.sub (.imm 4) 0] c₁
  have hsub : Reaches memset (past memset .memset 7 c₁) (past memset .memset 8 c₂) :=
    reaches_block memset .memset 7 _ c₁ rfl rfl
  replace hrun := hrun.trans (htest.trans (hfall.trans hsub))
  have htiny : Cond.holds .cs c₂.ccr = true ↔ n.toNat < 4 := by
    rw [← h₁.d0]
    exact holds_cs_subtract c₁.ccr _ _
  have h₂ : Loaded c dst v (n - 4#32) c₂ :=
    { mem := h₁.mem
      keeps := h₁.keeps.of_eq (by simp [c₂, kept])
      a0 := by simp [c₂, h₁.a0]
      d1 := by simp [c₂, h₁.d1]
      d0 := by simp [c₂, h₁.d0] }
  by_cases h4 : n.toNat < 4
  · obtain ⟨s, hs, hret⟩ := ltiny hcall h₂ h4
    have hjump := reaches_taken memset .memset 8 .cs rfl (htiny.mpr h4)
    exact ⟨s, (hrun.trans hjump).trans hs, hret⟩
  replace hrun := hrun.trans (reaches_not_taken memset .memset 8 .cs rfl (mt htiny.mp h4))
  let c₃ := runOps [.lea (.index 0 0 0) 1] c₂
  have hlea : Reaches memset (past memset .memset 9 c₂) (past memset .memset 10 c₃) :=
    reaches_block memset .memset 9 _ c₂ rfl rfl
  have hlast : n - 4#32 = BitVec.ofNat 32 (n.toNat - 4) := by bv_omega
  have hstart : LongUp c dst v n 0 c₃ :=
    { toFilling := by rw [Set.Ico_self]; exact Filling.start h₂.mem
      keeps := h₂.keeps.of_eq (by simp [c₃, kept])
      a0 := by simp [c₃, h₂.a0]
      a1 := by rw [← hlast]; simp [c₃, h₂.a0, h₂.d0]
      d1 := by simp [c₃, h₂.d1] }
  obtain ⟨s, hs, hret⟩ := llong hcall hstart (by omega)
  exact ⟨s, (hrun.trans hlea).trans hs, hret⟩

/-- The low byte of an `int`, as a number. -/
theorem toNat_fillByte (v : Long) : ((fillByte v).toNat : ℤ) = v.toInt % 256 := by
  rw [fillByte, BitVec.toNat_setWidth, BitVec.toInt_eq_toNat_bmod, Int.bmod_def]
  have := v.isLt
  split <;> omega

/-- **`memset` is correct.**  The call runs back to its caller; there every byte of the region is
the `int` modulo `256`, nothing outside it and the 32 pushed bytes has changed, `d0` and `a0` hold
`dst`, the registers a call must give back hold what they held, and the stack pointer stands above
the return address. -/
theorem memset_correct (hcall : Call c dst v n) :
    ∃ c' : Cpu, Reaches memset ⟨.line 0, c⟩
        ⟨.out (c.mem.readLong (c.regs (.a 7))), c'.set (.a 7) (c.regs (.a 7) + 4)⟩
      ∧ (∀ j < n.toNat, ((c'.mem (dst + BitVec.ofNat 32 j)).toNat : ℤ) = v.toInt % 256)
      ∧ (∀ x, ¬ Mem.InRun dst n.toNat x → ¬ Mem.InRun (frame c) 32 x → c'.mem x = c.mem x)
      ∧ c'.regs (.d 0) = dst ∧ c'.regs (.a 0) = dst
      ∧ ∀ r ∈ kept, c'.regs r = c.regs r := by
  obtain ⟨⟨pc, c'⟩, hreach, hret⟩ := memset_returns hcall
  have hrts := hret.reading_rts hcall.dst_apart (Set.subset_univ _)
  refine ⟨c', hreach.trans hrts.reaches, fun j hj => ?_,
    fun x hdst hstack => hret.apply_off hdst hstack, hret.d0, hret.a0, hret.keeps⟩
  rw [hret.apply_dst hj n.isLt.le, bytes, toNat_fillByte]

/-- Three bytes at `0x3000`, to be filled with `-1`. -/
def threeBytes : Cpu where
  regs := fun r => if r = .a 7 then 0x1000 else 0
  ccr := ⟨false, false, false, false, false⟩
  mem := fun x =>
    if x = 0x1006 then 0x30 else if 0x1008 ≤ x ∧ x < 0x100c then 0xff
    else if x = 0x100f then 3 else 0

theorem call_threeBytes : Call threeBytes 0x3000 0xffffffff 3 where
  dst_arg := by decide
  c_arg := by decide
  n_arg := by decide
  dst_fits := by decide
  dst_apart x := by
    have : frame threeBytes = 0xfe0 := by decide
    rw [this, Mem.InRun, Mem.InRun]
    bv_omega

theorem memset_correct_threeBytes :
    ∃ c' : Cpu, Reaches memset ⟨.line 0, threeBytes⟩ ⟨.out 0, c'.set (.a 7) 0x1004⟩
      ∧ c'.mem 0x3002 = 0xff := by
  obtain ⟨c', hreach, hbytes, -⟩ := memset_correct call_threeBytes
  have hret : threeBytes.mem.readLong (threeBytes.regs (.a 7)) = 0 := by decide
  rw [hret] at hreach
  exact ⟨c', hreach, BitVec.eq_of_toNat_eq (Int.ofNat_inj.mp (hbytes 2 (by decide)))⟩

end Memset
