import Emu68Common.Memory.MemmoveUp
import Emu68Common.Memory.MemmoveDown
import Emu68Common.M68k.Reads

/-!
# Memory/Fill — what `memcpy` and `memset` share

Both fill a region in pieces that overlap at its end: three bytes at `0`, `n - 1` and `n / 2`, longs
and then the long ending at `n`, or blocks and then the block ending at `n`.  Each way the pieces
cover the region (`tiny_filled`, `last_cover`), both return through the same three instructions
(`ldone`, `lrestore`), and what a caller finds then is `Returns`.
-/

namespace Fill

open M68k Machinery
open Memmove (frame kept savedRegs pushed Keeps Filling OnStack sp)

variable {L : Type} [DecidableEq L] {code : List (Line L)} {c₀ c : Cpu} {dst : Addr}
  {f : ℕ → BitVec 8} {n : ℕ} {m : Memory} {P : Set ℕ} {R : Set Addr}

/-! ## Coverage -/

/-- **Three bytes** at `0`, `n - 1` and `n / 2` are all of less than four. -/
theorem tiny_cover (h0 : 0 < n) (h4 : n < 4) :
    ((∅ ∪ Set.Ico 0 (0 + 1)) ∪ Set.Ico (n - 1) (n - 1 + 1)) ∪ Set.Ico (n / 2) (n / 2 + 1)
      = Set.Ico 0 n := by
  ext i
  simp only [Set.mem_union, Set.mem_Ico, Set.mem_empty_iff_false, false_or]
  omega

/-- **The piece that ends at `n`** is the rest, when there is less of it than the piece has. -/
theorem last_cover {k hi : ℕ} (hk : k ≤ n) (hlo : n - k ≤ hi) (hhi : hi ≤ n) :
    Set.Ico 0 hi ∪ Set.Ico (n - k) (n - k + k) = Set.Ico 0 n := by
  rw [Set.Ico_union_Ico' hlo (Nat.zero_le _), Nat.sub_add_cancel hk, max_eq_right hhi,
    min_eq_left (Nat.zero_le _)]

/-- A run behind another's start is part of it. -/
theorem inRun_of_add {a x : Addr} {o k l : ℕ} (h : Mem.InRun (a + BitVec.ofNat 32 o) l x)
    (hle : o + l ≤ k) : Mem.InRun a k x := by
  obtain ⟨i, hi, rfl⟩ := h.exists_offset
  rw [BitVec.add_assoc, ← BitVec.ofNat_add, Mem.InRun, Mem.add_ofNat_sub, BitVec.toNat_ofNat]
  exact lt_of_le_of_lt (Nat.mod_le _ _) (by omega)

/-! ## Three bytes -/

attribute [simp] effect_lsr effect_mulu ReadsIn Op.reads Ea.reads

/-- **`.Ltiny`** of either routine, between its two branches: a byte from each source operand. -/
def tiny (s₁ s₂ s₃ : Ea) : List Op :=
  [.move .b s₁ (Loc.ind 0), .move .b s₂ (Loc.index (-1) 0 0), .lsr 1 0,
    .move .b s₃ (Loc.index 0 0 0)]

/-- A source operand that gives the byte `b`, read inside `R`, and has no side effect. -/
structure Gives (R : Set Addr) (src : Ea) (c : Cpu) (b : BitVec 8) : Prop where
  read : src.read .b c = (b.setWidth 32, c)
  inside : Inside R (src.reads .b c)

/-- **One byte put where it belongs.** -/
theorem Gives.filling {src : Ea} {l : Loc} {o : ℕ} (h : Filling c₀ dst f n m P c) (hn : n < 2 ^ 32)
    (ho : o < n) (hs : Gives R src c (f o)) (hl : l.resolve .b c = (dst + BitVec.ofNat 32 o, c)) :
    Filling c₀ dst f n m (P ∪ Set.Ico o (o + 1)) ((Op.move .b src (.loc l)).effect c)
      ∧ ((Op.move .b src (.loc l)).effect c).regs = c.regs := by
  have hwrite : (Op.move .b src (.loc l)).effect c
      = (c.setMem (c.mem.writeByte (dst + BitVec.ofNat 32 o) (f o))).setCcr
          (c.ccr.logic .b ((f o).setWidth 32)) := by
    rw [effect_move, hs.read]
    simp only [Place.write, Place.flag, hl, save]
    rw [BitVec.setWidth_setWidth_of_le _ (by decide), BitVec.setWidth_eq]
    rfl
  rw [hwrite]
  refine ⟨h.piece (g := fun _ => f o) hn.le ho rfl fun i hi => ?_, rfl⟩
  rw [show i = 0 by omega, Nat.add_zero]

/-- `-1(a,n)` is the last of `n` bytes at `a`. -/
theorem add_displacement_pred (a : Addr) (h0 : 0 < n) :
    a + BitVec.ofNat 32 n + displacement (-1) = a + BitVec.ofNat 32 (n - 1) :=
  Memmove.add_ofNat_displacement a h0

/-- `(a,d)`, once `d` is halved, is the byte at `n / 2`. -/
theorem add_half (a : Addr) (hn : n < 2 ^ 32) :
    a + BitVec.ofNat 32 n >>> 1 + displacement 0 = a + BitVec.ofNat 32 (n / 2) := by
  have hhalf : BitVec.ofNat 32 n >>> 1 = BitVec.ofNat 32 (n / 2) := by
    refine BitVec.eq_of_toNat_eq ?_
    rw [BitVec.toNat_ushiftRight, BitVec.toNat_ofNat, BitVec.toNat_ofNat, Nat.shiftRight_one,
      Nat.mod_eq_of_lt hn, Nat.mod_eq_of_lt (by omega)]
  rw [hhalf, displacement_zero, add_zero]

/-- **The bytes at `0`, `n - 1` and `n / 2`** are all of them, if each operand gives the byte that
belongs there whatever is filled by then. -/
theorem tiny_filled (s₁ s₂ s₃ : Ea) (h : Filling c₀ dst f n m ∅ c) (h0 : 0 < n) (h4 : n < 4)
    (ha0 : c.regs (.a 0) = dst) (hd0 : c.regs (.d 0) = BitVec.ofNat 32 n)
    (hs₁ : Gives R s₁ c (f 0))
    (hs₂ : ∀ P c', Filling c₀ dst f n m P c' → c'.regs = c.regs → Gives R s₂ c' (f (n - 1)))
    (hs₃ : ∀ P c', Filling c₀ dst f n m P c' → (∀ q ≠ .d 0, c'.regs q = c.regs q) →
      c'.regs (.d 0) = BitVec.ofNat 32 n >>> 1 → Gives R s₃ c' (f (n / 2))) :
    Filling c₀ dst f n m (Set.Ico 0 n) (runOps (tiny s₁ s₂ s₃) c)
      ∧ (∀ q ≠ .d 0, (runOps (tiny s₁ s₂ s₃) c).regs q = c.regs q)
      ∧ ReadsIn R (tiny s₁ s₂ s₃) c := by
  have hn : n < 2 ^ 32 := by omega
  simp only [tiny, runOps_cons, runOps_nil, ReadsIn, and_true]
  have hl₁ : (Loc.ind 0).resolve .b c = (dst + BitVec.ofNat 32 0, c) :=
    Prod.ext (ha0.trans (BitVec.add_zero dst).symm) rfl
  obtain ⟨hf₁, hr₁⟩ := hs₁.filling h hn h0 hl₁
  generalize (Op.move .b s₁ (Loc.ind 0)).effect c = c₁ at hf₁ hr₁ ⊢
  have hl₂ : (Loc.index (-1) 0 0).resolve .b c₁ = (dst + BitVec.ofNat 32 (n - 1), c₁) := by
    rw [Loc.resolve, hr₁, ha0, hd0, add_displacement_pred dst h0]
  have hg₂ := hs₂ _ c₁ hf₁ hr₁
  obtain ⟨hf₂, hr₂⟩ := hg₂.filling hf₁ hn (by omega) hl₂
  generalize (Op.move .b s₂ (Loc.index (-1) 0 0)).effect c₁ = c₂ at hf₂ hr₂ ⊢
  have hf₃ := hf₂.of_mem (lsr_mem c₂ 1 0)
  have hr₃ : ∀ q ≠ .d 0, ((Op.lsr 1 0).effect c₂).regs q = c.regs q := fun q hq =>
    (lsr_regs c₂ 1 hq).trans (congrFun (hr₂.trans hr₁) q)
  have hhalf := lsr_self c₂ 1 0
  rw [hr₂, hr₁, hd0] at hhalf
  generalize (Op.lsr 1 0).effect c₂ = c₃ at hf₃ hr₃ hhalf ⊢
  have hl₄ : (Loc.index 0 0 0).resolve .b c₃ = (dst + BitVec.ofNat 32 (n / 2), c₃) := by
    rw [Loc.resolve, hr₃ (.a 0) (by decide), ha0, hhalf, add_half dst hn]
  have hg₄ := hs₃ _ c₃ hf₃ hr₃ hhalf
  obtain ⟨hf₄, hr₄⟩ := hg₄.filling hf₃ hn (by omega) hl₄
  rw [tiny_cover h0 h4] at hf₄
  rw [hr₄]
  exact ⟨hf₄, hr₃, hs₁.inside, hg₂.inside, inside_none, hg₄.inside⟩

/-! ## The last block -/

/-- The whole blocks' end, and back to `64` below the region's. -/
theorem add_back {len : Long} (a : Addr) (h64 : 64 ≤ len.toNat) :
    a + BitVec.ofNat 32 (len.toNat / 64 * 64) + ((len &&& 63#32) - 64#32)
      = a + BitVec.ofNat 32 (len.toNat - 64) := by
  have hsplit : BitVec.ofNat 32 len.toNat
      = BitVec.ofNat 32 (len.toNat / 64 * 64) + BitVec.ofNat 32 (len.toNat % 64) := by
    rw [← BitVec.ofNat_add, show len.toNat / 64 * 64 + len.toNat % 64 = len.toNat by omega]
  rw [BitVec.and_comm, Memmove.and_63, ← Memmove.sub_ofNat_add a h64, hsplit]
  abel

/-! ## The return -/

/-- The registers and the memory at an `rts`, the whole region filled. -/
structure Returns (code : List (Line L)) (c₀ : Cpu) (dst : Addr) (f : ℕ → BitVec 8) (n : ℕ)
    (s : State) : Prop where
  at_rts : ∃ i, s.pc = .line i ∧ (code.map Line.instr)[i]? = some .rts
  filled : ∃ m, Filling c₀ dst f n m (Set.Ico 0 n) s.cpu
  keeps : Keeps c₀ s.cpu
  d0 : s.cpu.regs (.d 0) = dst
  a0 : s.cpu.regs (.a 0) = dst

/-- **The end of either routine**: the destination is fetched from the stack once more. -/
def done : List Op :=
  [.move .l (Loc.disp 4 sp) (.reg (.d 0)), .move .l (.place (.reg (.d 0))) (.reg (.a 0))]

/-- The stack words of a call: 32 bytes pushed, the return address and three arguments. -/
def Words (c₀ : Cpu) : Set Addr := { x | Mem.InRun (frame c₀) 48 x }

/-- The return address and the arguments may be read. -/
theorem inside_word (hR : Words c₀ ⊆ R) {k : ℕ} (hk : k + 4 ≤ 16) :
    Inside R (some (c₀.regs (.a 7) + BitVec.ofNat 32 k, 4)) := by
  refine inside_some.mpr fun x hx => hR (inRun_of_add (o := 32 + k) (l := 4) ?_ (by omega))
  rwa [BitVec.ofNat_add, ← BitVec.add_assoc, ← Memmove.frame_add_32]

/-- **`.Ldone`.** -/
theorem ldone (code : List (Line L)) (hdst : Mem.Apart dst n (frame c₀) 48)
    (harg : c₀.mem.readLong (c₀.regs (.a 7) + 4#32) = dst) (hR : Words c₀ ⊆ R) (l : L)
    (hcode : ((code.map Line.instr).drop (target code l)).take 3 = done.map .op ++ [.rts])
    (h : Filling c₀ dst f n m (Set.Ico 0 n) c) (hk : Keeps c₀ c) :
    ∃ s, Reading code R (past code l 0 c) s ∧ Returns code c₀ dst f n s := by
  have hblock : ((code.map Line.instr).drop (target code l + 0)).take done.length
      = done.map .op := by
    have := congrArg (List.take 2) hcode
    rwa [List.take_take] at this
  have hrts : (code.map Line.instr)[target code l + 2]? = some .rts := by
    have := congrArg (·[2]?) hcode
    simpa [List.getElem?_take, List.getElem?_drop, done] using this
  have hload : c.mem.readLong (c₀.regs (.a 7) + 4#32) = dst := by
    rw [Memmove.frame_add_36, h.readLong_frame hdst (by omega) (by omega), ← Memmove.frame_add_36,
      harg]
  refine ⟨_, reading_block code l 0 done c hblock rfl ?_,
    ⟨target code l + 2, rfl, hrts⟩, ⟨m, h.of_mem ?_⟩, hk.of_eq ?_, ?_, ?_⟩
  · have hword := inside_word hR (show 4 + 4 ≤ 16 by omega)
    rw [← hk.sp] at hword
    simpa [done] using hword
  · simp [done]
  · simp [done, kept]
  · simpa [done, hk.sp] using hload
  · simpa [done, hk.sp] using hload

omit [DecidableEq L] in
theorem Returns.apply_dst {s : State} (h : Returns code c₀ dst f n s) {j : ℕ} (hj : j < n)
    (hn : n ≤ 2 ^ 32) : s.cpu.mem (dst + BitVec.ofNat 32 j) = f j := by
  obtain ⟨m, hm⟩ := h.filled
  rw [hm.mem, Mem.patched_apply hj hn]

omit [DecidableEq L] in
theorem Returns.apply_off {s : State} (h : Returns code c₀ dst f n s) {x : Addr}
    (hdst : ¬ Mem.InRun dst n x) (hstack : ¬ Mem.InRun (frame c₀) 32 x) :
    s.cpu.mem x = c₀.mem x := by
  obtain ⟨m, hm⟩ := h.filled
  exact hm.apply_off hdst hstack

/-- The `rts` itself: back to the caller, the stack pointer above the return address. -/
theorem Returns.reading_rts (hdst : Mem.Apart dst n (frame c₀) 48) (hR : Words c₀ ⊆ R) {s : State}
    (h : Returns code c₀ dst f n s) :
    Reading code R s ⟨.out (c₀.mem.readLong (c₀.regs (.a 7))),
      s.cpu.set (.a 7) (c₀.regs (.a 7) + 4)⟩ := by
  obtain ⟨pc, c⟩ := s
  obtain ⟨⟨i, rfl, hrts⟩, ⟨m, hm⟩, hk, -, -⟩ := h
  have hsp : c.regs (.a 7) = c₀.regs (.a 7) := hk.sp
  have hret : c.mem.readLong (c₀.regs (.a 7)) = c₀.mem.readLong (c₀.regs (.a 7)) := by
    rw [Memmove.frame_add_32, hm.readLong_frame hdst (by omega) (by omega)]
  refine Within.single (readsIn_line hrts ?_) ?_
  · have hword := inside_word hR (show 0 + 4 ≤ 16 by omega)
    rwa [← hsp, BitVec.add_zero] at hword
  · rw [step_line hrts, Instr.exec, hsp, hret]

/-- **The registers popped, and `.Ldone`.** -/
theorem lrestore (code : List (Line L)) (hdst : Mem.Apart dst n (frame c₀) 48)
    (harg : c₀.mem.readLong (c₀.regs (.a 7) + 4#32) = dst) (hR : Words c₀ ⊆ R) (l l' : L) (k : ℕ)
    (hpop : ((code.map Line.instr).drop (target code l + k)).take 1
      = [.op (.movemIn (.postinc sp) savedRegs)])
    (hbra : (code.map Line.instr)[target code l + (k + 1)]? = some (.bra l'))
    (hcode : ((code.map Line.instr).drop (target code l')).take 3 = done.map .op ++ [.rts])
    (h : Filling c₀ dst f n (pushed c₀) (Set.Ico 0 n) c) (hs : OnStack c₀ c) :
    ∃ s, Reading code R (past code l k c) s ∧ Returns code c₀ dst f n s := by
  have hreads : Inside R (some (c.regs (.a 7), 32)) := by
    rw [hs.stack, inside_some]
    exact fun x hx => hR (lt_of_lt_of_le hx (by decide))
  have hkeep := hs.restore (h.pop hdst)
  have hmem : ((Op.movemIn (.postinc sp) savedRegs).effect c).mem = c.mem :=
    movemIn_postinc_mem c sp savedRegs
  have hrun : Reading code R (past code l k c)
      (past code l (k + 1) ((Op.movemIn (.postinc sp) savedRegs).effect c)) :=
    reading_block code l k [.movemIn (.postinc sp) savedRegs] c hpop rfl ⟨hreads, trivial⟩
  generalize (Op.movemIn (.postinc sp) savedRegs).effect c = c₁ at hkeep hmem hrun
  obtain ⟨s, hdone, hret⟩ := ldone code hdst harg hR l' hcode (h.of_mem hmem) hkeep
  have hjump := reading_bra (R := R) code l (k + 1) (c := c₁) hbra
  exact ⟨s, (hrun.trans hjump).trans hdone, hret⟩

end Fill
