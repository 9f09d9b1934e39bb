import Emu68Common.M68k.Run
import Emu68Common.Machinery.Blit

/-!
# Memory/Memmove — the `memmove` listing, and what a call of it is

`memmove` is `memmove_movem.S`, line by line.  A call (`Call`) finds its return address and three
arguments on the stack; the block paths push 32 bytes below them.  `OffStack` memories are those
that differ from the memory at entry in these pushed bytes only, which is all the stack traffic
does, so the bytes a path moves are always bytes of the memory at entry.
-/

namespace Memmove

open M68k Machinery

/-! ## The listing -/

/-- The labels of `memmove_movem.S`. -/
inductive Label where
  | memmove | Llong | Llast | Ldone | Ltiny | Lbyte | Lbig | Lblock
  | Ldown | Ldown_long | Ldown_last | Ldown_tiny | Ldown_big | Ldown_block
  deriving DecidableEq, Repr

def d0 : Place := .reg (.d 0)
def d1 : Place := .reg (.d 1)
def a0 : Place := .reg (.a 0)
def a1 : Place := .reg (.a 1)
def a2 : Place := .reg (.a 2)
def a3 : Place := .reg (.a 3)

/-- The stack pointer, `a7`. -/
abbrev sp : Fin 8 := 7

/-- Below this the long loop, from here on blocks. -/
def MEMMOVE_SMALL : Long := 64

/-- `d2-d7/a2-a3`: what a block path saves. -/
def savedRegs : List Reg := [.d 2, .d 3, .d 4, .d 5, .d 6, .d 7, .a 2, .a 3]

/-- `d1-d7/a2`: what a block is carried in. -/
def carriedRegs : List Reg := [.d 1, .d 2, .d 3, .d 4, .d 5, .d 6, .d 7, .a 2]

/-- **`memmove_movem.S`.** -/
def memmove : List (Line Label) := [
  lab .memmove (Op.move .l (Loc.disp 4 sp) a0),
  ln (Op.move .l (Loc.disp 8 sp) a1),
  ln (Op.move .l (Loc.disp 12 sp) d0),
  ln (Op.move .l a0 d1),
  ln (Op.sub a1 1),
  ln (.branch .eq .Ldone),
  ln (Op.cmp d0 (.d 1)),
  ln (.branch .cs .Ldown),
  ln (Op.cmp (.imm MEMMOVE_SMALL) (.d 0)),
  ln (.branch .cc .Lbig),
  ln (Op.move .l d0 d1),
  ln (Op.sub (.imm 4) 1),
  ln (.branch .cs .Ltiny),
  ln (Op.move .l (Loc.index 0 1 1) d0),
  ln (Op.add a1 (.d 1)),
  lab .Llong (Op.move .l (Loc.postinc 1) (Loc.postinc 0)),
  ln (Op.cmp a1 (.d 1)),
  ln (.branch .hi .Llong),
  lab .Llast (Op.sub a1 1),
  ln (Op.move .l d0 (Loc.index 0 0 1)),
  lab .Ldone (Op.move .l (Loc.disp 4 sp) d0),
  ln (Op.move .l d0 a0),
  ln .rts,
  lab .Ltiny (Op.tst 0),
  ln (.branch .eq .Ldone),
  lab .Lbyte (Op.move .b (Loc.postinc 1) (Loc.postinc 0)),
  ln (Op.sub (.imm 1) 0),
  ln (.branch .ne .Lbyte),
  ln (.bra .Ldone),
  lab .Lbig (Op.movemOut savedRegs (.predec sp)),
  ln (Op.moveq (-64) 1),
  ln (Op.and d0 1),
  ln (Op.lea (.index 0 1 1) 3),
  ln (Op.move .l (Loc.index (-4) 1 0) d0),
  lab .Lblock (Op.movemIn (.postinc 1) carriedRegs),
  ln (Op.movemOut carriedRegs (.ind 0)),
  ln (Op.movemIn (.postinc 1) carriedRegs),
  ln (Op.movemOut carriedRegs (.disp 32 0)),
  ln (Op.lea (.disp 64 0) 0),
  ln (Op.cmp a3 (.a 1)),
  ln (.branch .ne .Lblock),
  ln (Op.movemIn (.postinc sp) savedRegs),
  ln (Op.move .l (Loc.disp 8 sp) d1),
  ln (Op.add (Loc.disp 12 sp) (.d 1)),
  ln (Op.sub (.imm 4) 1),
  ln (Op.cmp a1 (.d 1)),
  ln (.branch .hi .Llong),
  ln (.bra .Llast),
  lab .Ldown (Op.cmp (.imm MEMMOVE_SMALL) (.d 0)),
  ln (.branch .cc .Ldown_big),
  ln (Op.moveq 4 1),
  ln (Op.cmp d1 (.d 0)),
  ln (.branch .cs .Ldown_tiny),
  ln (Op.move .l (Loc.ind 1) d1),
  ln (Op.add d0 (.a 0)),
  ln (Op.add d0 (.a 1)),
  ln (Op.move .l d1 d0),
  ln (Op.move .l (Loc.disp 8 sp) d1),
  ln (Op.add (.imm 4) (.d 1)),
  lab .Ldown_long (Op.move .l (Loc.predec 1) (Loc.predec 0)),
  ln (Op.cmp a1 (.d 1)),
  ln (.branch .cs .Ldown_long),
  lab .Ldown_last (Op.move .l (Loc.disp 4 sp) a0),
  ln (Op.move .l d0 (Loc.ind 0)),
  ln (Op.move .l a0 d0),
  ln .rts,
  lab .Ldown_tiny (Op.move .b (Loc.index (-1) 1 0) (Loc.index (-1) 0 0)),
  ln (Op.sub (.imm 1) 0),
  ln (.branch .ne .Ldown_tiny),
  ln (Op.move .l a0 d0),
  ln .rts,
  lab .Ldown_big (Op.movemOut savedRegs (.predec sp)),
  ln (Op.moveq 63 1),
  ln (Op.and d0 1),
  ln (Op.lea (.index 0 1 1) 3),
  ln (Op.lea (.index 0 1 0) 2),
  ln (Op.add d0 (.a 0)),
  ln (Op.move .l (Loc.ind 1) d0),
  ln (Op.move .l a2 a1),
  lab .Ldown_block (Op.movemIn (.disp (-32) 1) carriedRegs),
  ln (Op.movemOut carriedRegs (.predec 0)),
  ln (Op.movemIn (.disp (-64) 1) carriedRegs),
  ln (Op.movemOut carriedRegs (.predec 0)),
  ln (Op.lea (.disp (-64) 1) 1),
  ln (Op.cmp a3 (.a 1)),
  ln (.branch .ne .Ldown_block),
  ln (Op.movemIn (.postinc sp) savedRegs),
  ln (Op.move .l (Loc.disp 8 sp) d1),
  ln (Op.add (.imm 4) (.d 1)),
  ln (Op.cmp a1 (.d 1)),
  ln (.branch .cs .Ldown_long),
  ln (.bra .Ldown_last)]

/-! ## A call -/

/-- The registers a call must give back: `d2-d7`, `a2-a6` and the stack pointer. -/
def kept : List Reg :=
  [.d 2, .d 3, .d 4, .d 5, .d 6, .d 7, .a 2, .a 3, .a 4, .a 5, .a 6, .a 7]

/-- Where the pushed bytes start: 32 below the return address.  The return address and the three
arguments follow them, so the stack words of a call are the 48 bytes from here. -/
def frame (c : Cpu) : Addr := c.regs (.a 7) - 32

/-- **A call of `memmove(dst, src, n)`**: the arguments on the stack, both regions below `2³²` and
off the stack words. -/
structure Call (c : Cpu) (dst src n : Long) : Prop where
  dst_arg : c.mem.readLong (c.regs (.a 7) + 4#32) = dst
  src_arg : c.mem.readLong (c.regs (.a 7) + 8#32) = src
  n_arg : c.mem.readLong (c.regs (.a 7) + 12#32) = n
  dst_fits : dst.toNat + n.toNat < 2 ^ 32
  src_fits : src.toNat + n.toNat < 2 ^ 32
  dst_apart : Mem.Apart dst n.toNat (frame c) 48
  src_apart : Mem.Apart src n.toNat (frame c) 48

/-- A memory that differs from the one at entry in the pushed bytes only. -/
def OffStack (c₀ : Cpu) (m : Memory) : Prop :=
  ∀ x, ¬ Mem.InRun (frame c₀) 32 x → m x = c₀.mem x

/-- **In the middle of filling a region** of `n` bytes at `dst`: the bytes at the offsets of `P` are
those of `f`, in a memory `m` that differs from the one at entry on the stack only. -/
structure Filling (c₀ : Cpu) (dst : Addr) (f : ℕ → BitVec 8) (n : ℕ) (m : Memory) (P : Set ℕ)
    (c : Cpu) : Prop where
  off : OffStack c₀ m
  sub : P ⊆ Set.Ico 0 n
  mem : c.mem = m.patched dst f P

/-- **In the middle of the move**: the bytes at the offsets of `P` are moved, from a memory `m` that
differs from the one at entry on the stack only. -/
structure Moving (c₀ : Cpu) (dst src n : Long) (m : Memory) (P : Set ℕ) (c : Cpu) : Prop where
  off : OffStack c₀ m
  sub : P ⊆ Set.Ico 0 n.toNat
  mem : c.mem = m.moved dst src P

/-- The registers a call must give back still hold what they held. -/
def Keeps (c₀ c : Cpu) : Prop := ∀ r ∈ kept, c.regs r = c₀.regs r

variable {c₀ c : Cpu} {dst src n : Long} {m : Memory} {P : Set ℕ}

theorem Keeps.sp (h : Keeps c₀ c) : c.regs (.a 7) = c₀.regs (.a 7) := h _ (by decide)

/-- Registers that an instruction did not touch are still kept. -/
theorem Keeps.of_eq {c' : Cpu} (h : Keeps c₀ c) (he : ∀ r ∈ kept, c'.regs r = c.regs r) :
    Keeps c₀ c' := fun r hr => (he r hr).trans (h r hr)

/-! ### Filling -/

section Filling

variable {f : ℕ → BitVec 8} {N o k : ℕ}

/-- A path that has not touched the memory yet is filling nothing. -/
theorem Filling.start (h : c.mem = c₀.mem) : Filling c₀ dst f N c₀.mem ∅ c where
  off := fun _ _ => rfl
  sub := Set.empty_subset _
  mem := by rw [h, Mem.patched_empty]

/-- Instructions that leave the memory alone leave the region where it is. -/
theorem Filling.of_mem {c' : Cpu} (h : Filling c₀ dst f N m P c) (he : c'.mem = c.mem) :
    Filling c₀ dst f N m P c' := ⟨h.off, h.sub, he.trans h.mem⟩

/-- **A piece stored with its own bytes is filled.** -/
theorem Filling.piece {c' : Cpu} {g : ℕ → BitVec 8} (h : Filling c₀ dst f N m P c) (hN : N ≤ 2 ^ 32)
    (ho : o + k ≤ N) (he : c'.mem = c.mem.store (dst + BitVec.ofNat 32 o) k g)
    (hg : ∀ i < k, g i = f (o + i)) : Filling c₀ dst f N m (P ∪ Set.Ico o (o + k)) c' where
  off := h.off
  sub := Set.union_subset h.sub (Set.Ico_subset_Ico (Nat.zero_le _) ho)
  mem := by rw [he, h.mem, Mem.store_patched (by omega) hg]

/-- What is off the region and off the pushed bytes reads as it did at entry. -/
theorem Filling.apply_off (h : Filling c₀ dst f N m P c) {x : Addr} (hdst : ¬ Mem.InRun dst N x)
    (hstack : ¬ Mem.InRun (frame c₀) 32 x) : c.mem x = c₀.mem x := by
  rw [h.mem, Mem.patched_apply_off h.sub hdst, h.off x hstack]

variable (hdst : Mem.Apart dst N (frame c₀) 48)

include hdst

/-- No stack word is in the region. -/
theorem not_inRun_dst {i : ℕ} (hi : i < 48) :
    ¬ Mem.InRun dst N (frame c₀ + BitVec.ofNat 32 i) :=
  fun hin => hdst _ hin (Mem.inRun_add hi (by omega))

/-- Above the pushed bytes the stack words read as they did at entry. -/
theorem Filling.readLong_frame (h : Filling c₀ dst f N m P c) (hk : 32 ≤ k) (hk' : k + 4 ≤ 48) :
    c.mem.readLong (frame c₀ + BitVec.ofNat 32 k)
      = c₀.mem.readLong (frame c₀ + BitVec.ofNat 32 k) := by
  refine Mem.readLong_congr fun i hi => ?_
  rw [BitVec.add_assoc, ← BitVec.ofNat_add]
  refine h.apply_off (not_inRun_dst hdst (by omega)) ?_
  rw [Mem.InRun, Mem.toNat_add_ofNat_sub _ (by omega)]
  omega

end Filling

/-! ### Moving -/

/-- Moving is filling with the bytes of the source. -/
theorem Moving.filling (h : Moving c₀ dst src n m P c) :
    Filling c₀ dst (fun i => m (src + BitVec.ofNat 32 i)) n.toNat m P c :=
  ⟨h.off, h.sub, h.mem.trans (Mem.moved_eq_patched P)⟩

theorem Moving.readLong_frame (hcall : Call c₀ dst src n) (h : Moving c₀ dst src n m P c) {k : ℕ}
    (hk : 32 ≤ k) (hk' : k + 4 ≤ 48) :
    c.mem.readLong (frame c₀ + BitVec.ofNat 32 k)
      = c₀.mem.readLong (frame c₀ + BitVec.ofNat 32 k) :=
  h.filling.readLong_frame hcall.dst_apart hk hk'

theorem frame_add_36 (c : Cpu) : c.regs (.a 7) + 4#32 = frame c + BitVec.ofNat 32 36 := by
  rw [frame]; bv_omega

theorem frame_add_40 (c : Cpu) : c.regs (.a 7) + 8#32 = frame c + BitVec.ofNat 32 40 := by
  rw [frame]; bv_omega

theorem frame_add_44 (c : Cpu) : c.regs (.a 7) + 12#32 = frame c + BitVec.ofNat 32 44 := by
  rw [frame]; bv_omega

theorem frame_add_32 (c : Cpu) : c.regs (.a 7) = frame c + BitVec.ofNat 32 32 := by
  rw [frame]; bv_omega

/-- **The arguments and the return address stay readable throughout.** -/
theorem Moving.readLong_dst (hcall : Call c₀ dst src n) (h : Moving c₀ dst src n m P c) :
    c.mem.readLong (c₀.regs (.a 7) + 4#32) = dst := by
  rw [frame_add_36, h.readLong_frame hcall (by omega) (by omega), ← frame_add_36, hcall.dst_arg]

theorem Moving.readLong_src (hcall : Call c₀ dst src n) (h : Moving c₀ dst src n m P c) :
    c.mem.readLong (c₀.regs (.a 7) + 8#32) = src := by
  rw [frame_add_40, h.readLong_frame hcall (by omega) (by omega), ← frame_add_40, hcall.src_arg]

theorem Moving.readLong_n (hcall : Call c₀ dst src n) (h : Moving c₀ dst src n m P c) :
    c.mem.readLong (c₀.regs (.a 7) + 12#32) = n := by
  rw [frame_add_44, h.readLong_frame hcall (by omega) (by omega), ← frame_add_44, hcall.n_arg]

theorem Moving.readLong_return (hcall : Call c₀ dst src n) (h : Moving c₀ dst src n m P c) :
    c.mem.readLong (c₀.regs (.a 7)) = c₀.mem.readLong (c₀.regs (.a 7)) := by
  rw [frame_add_32, h.readLong_frame hcall (by omega) (by omega)]

/-- A path that has not touched the memory yet is moving nothing. -/
theorem Moving.start (h : c.mem = c₀.mem) : Moving c₀ dst src n c₀.mem ∅ c where
  off := fun _ _ => rfl
  sub := Set.empty_subset _
  mem := by rw [h, Mem.moved_empty]

/-- Instructions that leave the memory alone leave the move where it is. -/
theorem Moving.of_mem {c' : Cpu} (h : Moving c₀ dst src n m P c) (he : c'.mem = c.mem) :
    Moving c₀ dst src n m P c' := ⟨h.off, h.sub, he.trans h.mem⟩

/-- **A piece read where it is intact and stored is moved.** -/
theorem Moving.piece {c' : Cpu} {o k : ℕ} (h : Moving c₀ dst src n m P c)
    (hI : Mem.Intact dst src P o k) (ho : o + k ≤ n.toNat)
    (he : c'.mem = c.mem.store (dst + BitVec.ofNat 32 o) k
      fun i => c.mem (src + BitVec.ofNat 32 o + BitVec.ofNat 32 i)) :
    Moving c₀ dst src n m (P ∪ Set.Ico o (o + k)) c' where
  off := h.off
  sub := Set.union_subset h.sub (Set.Ico_subset_Ico (Nat.zero_le _) ho)
  mem := by
    have := n.isLt
    rw [he, h.mem, Mem.store_moved_of_intact (by omega) hI]

/-- …and so is one saved before anything moved and stored last. -/
theorem Moving.saved {c' : Cpu} {o k : ℕ} (h : Moving c₀ dst src n m P c) (ho : o + k ≤ n.toNat)
    (he : c'.mem = c.mem.store (dst + BitVec.ofNat 32 o) k
      fun i => m (src + BitVec.ofNat 32 (o + i))) :
    Moving c₀ dst src n m (P ∪ Set.Ico o (o + k)) c' where
  off := h.off
  sub := Set.union_subset h.sub (Set.Ico_subset_Ico (Nat.zero_le _) ho)
  mem := by
    have := n.isLt
    rw [he, h.mem, Mem.store_moved P (by omega)]

/-! ## The registers on the stack -/

/-- The memory once a block path has pushed the registers it needs. -/
def pushed (c₀ : Cpu) : Memory := c₀.mem.pushLongs (c₀.regs (.a 7)) (savedRegs.map c₀.regs)

theorem pushed_eq_store (c₀ : Cpu) :
    pushed c₀ = c₀.mem.store (frame c₀) 32 (Mem.longBytes (savedRegs.map c₀.regs)) := by
  have hlen : (savedRegs.map c₀.regs).length = 8 := rfl
  rw [pushed, Mem.pushLongs_eq_writeLongs _ _ _ (by rw [hlen]; decide),
    Mem.writeLongs_eq_store _ _ _ (by rw [hlen]; decide), hlen]
  rfl

theorem offStack_pushed (c₀ : Cpu) : OffStack c₀ (pushed c₀) := fun x hx => by
  rw [pushed_eq_store, Mem.store_of_not_inRun hx]

/-- **What was pushed is popped**: no piece of the region lies on it. -/
theorem Filling.pop {f : ℕ → BitVec 8} {N : ℕ} (hdst : Mem.Apart dst N (frame c₀) 48)
    (h : Filling c₀ dst f N (pushed c₀) P c) :
    c.mem.readLongs (frame c₀) 8 = savedRegs.map c₀.regs := by
  change c.mem.readLongs (frame c₀) (savedRegs.map c₀.regs).length = _
  refine Mem.readLongs_eq_of_bytes fun i hi => ?_
  have hi' : i < 32 := hi
  have hoff : (frame c₀ + BitVec.ofNat 32 i - frame c₀).toNat = i :=
    Mem.toNat_add_ofNat_sub _ (by omega)
  rw [h.mem, Mem.patched_apply_off h.sub (not_inRun_dst hdst (by omega)), pushed_eq_store,
    Mem.store_of_inRun (by rw [Mem.InRun, hoff]; omega), hoff]

/-- The registers a block path does not save and does not use. -/
def untouched : List Reg := [.a 4, .a 5, .a 6]

/-- **In a block loop**: the saved registers are on the stack, the stack pointer below them. -/
structure OnStack (c₀ c : Cpu) : Prop where
  stack : c.regs (.a 7) = frame c₀
  untouched : ∀ r ∈ untouched, c.regs r = c₀.regs r

/-- **The instruction that pops the saved registers** puts every register a call must give back in
place. -/
theorem OnStack.restore (hpop : c.mem.readLongs (frame c₀) 8 = savedRegs.map c₀.regs)
    (hs : OnStack c₀ c) : Keeps c₀ ((Op.movemIn (.postinc sp) savedRegs).effect c) := by
  have hmap : savedRegs.map ((Op.movemIn (.postinc sp) savedRegs).effect c).regs
      = savedRegs.map c₀.regs := by
    rw [movemIn_postinc_map c sp (by decide) (by decide), hs.stack]
    exact hpop
  intro r hr
  by_cases hsv : r ∈ savedRegs
  · exact List.map_eq_map_iff.mp hmap r hsv
  by_cases hsp : r = .a 7
  · subst hsp
    rw [movemIn_postinc_self, hs.stack, frame]
    exact BitVec.sub_add_cancel _ _
  · rw [movemIn_postinc_regs c sp hsv hsp]
    exact hs.untouched r (by revert hr hsv hsp; revert r; decide)

theorem OnStack.pop (hcall : Call c₀ dst src n) (h : Moving c₀ dst src n (pushed c₀) P c)
    (hs : OnStack c₀ c) : Keeps c₀ ((Op.movemIn (.postinc sp) savedRegs).effect c) :=
  hs.restore (h.filling.pop hcall.dst_apart)

/-- The registers and the memory at an `rts`, the whole region moved. -/
structure Returns (c₀ : Cpu) (dst src n : Long) (s : State) : Prop where
  at_rts : ∃ i, s.pc = .line i ∧ (memmove.map Line.instr)[i]? = some .rts
  moved : ∃ m, Moving c₀ dst src n m (Set.Ico 0 n.toNat) s.cpu
  keeps : Keeps c₀ s.cpu
  d0 : s.cpu.regs (.d 0) = dst
  a0 : s.cpu.regs (.a 0) = dst

/-! ## Executing symbolically -/

attribute [simp] effect_move effect_moveq effect_lea effect_add effect_sub effect_and effect_cmp
  effect_tst Ea.read Place.write Place.flag Loc.resolve Size.stride Size.low Size.merge load save
  Size.bytes d0 d1 a0 a1 a2 a3

@[simp] theorem displacement_4 : displacement 4 = 4#32 := displacement_natCast 4
@[simp] theorem displacement_8 : displacement 8 = 8#32 := displacement_natCast 8
@[simp] theorem displacement_12 : displacement 12 = 12#32 := displacement_natCast 12
@[simp] theorem displacement_32 : displacement 32 = 32#32 := displacement_natCast 32
@[simp] theorem displacement_64 : displacement 64 = 64#32 := displacement_natCast 64

/-- **`.Ldone`**: the destination is fetched from the stack once more and returned. -/
theorem ldone (hcall : Call c₀ dst src n) (h : Moving c₀ dst src n m (Set.Ico 0 n.toNat) c)
    (hk : Keeps c₀ c) :
    ∃ s, Reaches memmove (past memmove .Ldone 0 c) s ∧ Returns c₀ dst src n s := by
  refine ⟨_, reaches_block memmove .Ldone 0 [.move .l (Loc.disp 4 sp) d0, .move .l d0 a0] c rfl rfl,
    ⟨target memmove .Ldone + 2, rfl, rfl⟩, ⟨m, h.of_mem ?_⟩, hk.of_eq ?_, ?_, ?_⟩
  · simp
  · simp [kept]
  · simpa [hk.sp] using h.readLong_dst hcall
  · simpa [hk.sp] using h.readLong_dst hcall

/-- What the paths find in the registers once the arguments are loaded. -/
structure Loaded (c₀ : Cpu) (dst src n : Long) (c : Cpu) : Prop where
  mem : c.mem = c₀.mem
  keeps : Keeps c₀ c
  a0 : c.regs (.a 0) = dst
  a1 : c.regs (.a 1) = src
  d0 : c.regs (.d 0) = n

/-- **The registers pushed**: the stack pointer moves down onto them, nothing else changes. -/
theorem push_saved (hmem : c.mem = c₀.mem) (hk : Keeps c₀ c) :
    ((Op.movemOut savedRegs (.predec sp)).effect c).mem = pushed c₀
      ∧ ((Op.movemOut savedRegs (.predec sp)).effect c).regs (.a 7) = frame c₀
      ∧ ∀ q ≠ .a 7, ((Op.movemOut savedRegs (.predec sp)).effect c).regs q = c.regs q := by
  have hregs : savedRegs.map c.regs = savedRegs.map c₀.regs :=
    List.map_congr_left fun r hr => hk r (by revert hr; revert r; decide)
  refine ⟨?_, ?_, fun q hq => by rw [movemOut_predec_regs, if_neg hq]⟩
  · rw [movemOut_predec_mem, hmem, hregs, hk.sp, pushed]
  · have hlen : savedRegs.length = 8 := rfl
    rw [movemOut_predec_regs, if_pos rfl, hk.sp, frame, hlen]
    rfl

theorem push (h : Loaded c₀ dst src n c) :
    ((Op.movemOut savedRegs (.predec sp)).effect c).mem = pushed c₀
      ∧ ((Op.movemOut savedRegs (.predec sp)).effect c).regs (.a 7) = frame c₀
      ∧ ∀ q ≠ .a 7, ((Op.movemOut savedRegs (.predec sp)).effect c).regs q = c.regs q :=
  push_saved h.mem h.keeps

/-! ## Arithmetic of the loops -/

/-- The address `o` above a region's start, as a number. -/
theorem toNat_add_of_fits {a : Long} {o : ℕ} (h : a.toNat + o < 2 ^ 32) :
    (a + BitVec.ofNat 32 o).toNat = a.toNat + o := by
  rw [BitVec.toNat_add, BitVec.toNat_ofNat, Nat.mod_eq_of_lt (show o < 2 ^ 32 by omega),
    Nat.mod_eq_of_lt h]

theorem ofNat_toNat_self (n : Long) : BitVec.ofNat 32 n.toNat = n := by
  rw [BitVec.ofNat_toNat, BitVec.setWidth_eq]

/-- An address down from an offset up. -/
theorem sub_ofNat_add (a : Long) {lo k : ℕ} (h : k ≤ lo) :
    a + BitVec.ofNat 32 lo - BitVec.ofNat 32 k = a + BitVec.ofNat 32 (lo - k) := by
  obtain ⟨j, rfl⟩ := Nat.exists_eq_add_of_le' h
  rw [BitVec.ofNat_add, Nat.add_sub_cancel, ← BitVec.add_assoc, BitVec.add_sub_cancel]

/-- A displacement down from an offset up. -/
theorem add_ofNat_displacement (a : Long) {lo k : ℕ} (h : k ≤ lo) :
    a + BitVec.ofNat 32 lo + displacement (-k) = a + BitVec.ofNat 32 (lo - k) := by
  rw [displacement_neg, ← sub_eq_add_neg, sub_ofNat_add a h]

/-- A byte carried through a register is the byte stored. -/
theorem writeByte_load (m' : Memory) (a b : Addr) :
    m'.writeByte a (((m b).setWidth 32).setWidth 8)
      = m'.store a 1 fun i => m (b + BitVec.ofNat 32 i) := by
  refine Mem.store_congr fun i hi => ?_
  obtain rfl : i = 0 := by omega
  simp

/-- Counting down by one. -/
theorem ofNat_pred {k : ℕ} (hk : 1 ≤ k) : BitVec.ofNat 32 k - 1 = BitVec.ofNat 32 (k - 1) := by
  obtain ⟨j, rfl⟩ := Nat.exists_eq_add_of_le' hk
  rw [BitVec.ofNat_add, Nat.add_sub_cancel]
  exact BitVec.add_sub_cancel _ _

end Memmove
