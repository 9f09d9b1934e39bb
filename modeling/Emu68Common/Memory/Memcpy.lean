import Emu68Common.Memory.Fill

/-!
# Memory/Memcpy — `memcpy` copies, for regions apart

`memcpy` is `memcpy_movem.S`, line by line.  With the regions apart every byte it reads of the
source is one of the memory at entry (`source`), so each piece it copies fills its part of the
destination, and what it copies twice it copies the same.  Every load is of a stack word or of the
source (`Readable`), the overlapping last piece included (`memcpy_correct`).

    .Lbig ──▸ .Lblock ──▸ .Ldone        .Llong ──▸ .Ldone        .Ltiny ──▸ .Ldone
-/

namespace Memcpy

open M68k Machinery Fill
open Memmove (d0 d1 a0 a1 a3 sp savedRegs carriedRegs frame kept Keeps Filling OnStack pushed
  Loaded upLow upHigh upNext)

/-! ## The listing -/

/-- The labels of `memcpy_movem.S`. -/
inductive Label where
  | memcpy | Llong | Ldone | Ltiny | Lbig | Lblock
  deriving DecidableEq, Repr

/-- Below this the long loop, from here on blocks. -/
def MEMCPY_SMALL : Long := 64

/-- **`memcpy_movem.S`.** -/
def memcpy : List (Line Label) := [
  lab .memcpy (Op.move .l (Loc.disp 4 sp) a0),
  ln (Op.move .l (Loc.disp 8 sp) a1),
  ln (Op.move .l (Loc.disp 12 sp) d0),
  ln (Op.cmp (.imm MEMCPY_SMALL) (.d 0)),
  ln (.branch .cc .Lbig),
  ln (Op.sub (.imm 4) 0),
  ln (.branch .cs .Ltiny),
  ln (Op.move .l a1 d1),
  ln (Op.add d0 (.d 1)),
  lab .Llong (Op.move .l (Loc.postinc 1) (Loc.postinc 0)),
  ln (Op.cmp a1 (.d 1)),
  ln (.branch .hi .Llong),
  ln (Op.move .l (Loc.disp 4 sp) a0),
  ln (Op.move .l (Loc.disp 8 sp) a1),
  ln (Op.move .l (Loc.index 0 1 0) (Loc.index 0 0 0)),
  lab .Ldone (Op.move .l (Loc.disp 4 sp) d0),
  ln (Op.move .l d0 a0),
  ln .rts,
  lab .Ltiny (Op.add (.imm 4) (.d 0)),
  ln (.branch .eq .Ldone),
  ln (Op.move .b (Loc.ind 1) (Loc.ind 0)),
  ln (Op.move .b (Loc.index (-1) 1 0) (Loc.index (-1) 0 0)),
  ln (Op.lsr 1 0),
  ln (Op.move .b (Loc.index 0 1 0) (Loc.index 0 0 0)),
  ln (.bra .Ldone),
  lab .Lbig (Op.movemOut savedRegs (.predec sp)),
  ln (Op.moveq (-64) 1),
  ln (Op.and d0 1),
  ln (Op.lea (.index 0 1 1) 3),
  lab .Lblock (Op.movemIn (.postinc 1) carriedRegs),
  ln (Op.movemOut carriedRegs (.ind 0)),
  ln (Op.movemIn (.postinc 1) carriedRegs),
  ln (Op.movemOut carriedRegs (.disp 32 0)),
  ln (Op.lea (.disp 64 0) 0),
  ln (Op.cmp a3 (.a 1)),
  ln (.branch .ne .Lblock),
  ln (Op.and (.imm 63) 0),
  ln (Op.sub (.imm 64) 0),
  ln (Op.add d0 (.a 1)),
  ln (Op.add d0 (.a 0)),
  ln (Op.movemIn (.postinc 1) carriedRegs),
  ln (Op.movemOut carriedRegs (.ind 0)),
  ln (Op.movemIn (.postinc 1) carriedRegs),
  ln (Op.movemOut carriedRegs (.disp 32 0)),
  ln (Op.movemIn (.postinc sp) savedRegs),
  ln (.bra .Ldone)]

/-! ## A call -/

/-- **A call of `memcpy(dst, src, n)`**: one of `memmove`'s, with the regions apart. -/
structure Call (c : Cpu) (dst src n : Long) : Prop extends Memmove.Call c dst src n where
  apart : Mem.Apart dst n.toNat src n.toNat

/-- What a call may read: the source, and its stack words. -/
def Readable (c : Cpu) (src n : Long) : Set Addr := { x | Mem.InRun src n.toNat x } ∪ Words c

/-- The bytes of the source, at entry. -/
def bytes (c : Cpu) (src : Addr) (i : ℕ) : BitVec 8 := c.mem (src + BitVec.ofNat 32 i)

variable {c₀ c c' : Cpu} {dst src n : Long} {m : Memory} {P : Set ℕ} {hi o k : ℕ}

theorem words_readable (c₀ : Cpu) (src n : Long) : Words c₀ ⊆ Readable c₀ src n :=
  Set.subset_union_right

/-- A piece of the source may be read. -/
theorem readable_piece (c₀ : Cpu) (src : Long) (ho : o + k ≤ n.toNat) :
    Inside (Readable c₀ src n) (some (src + BitVec.ofNat 32 o, k)) :=
  inside_some.mpr fun _ hx => Or.inl (inRun_of_add hx ho)

/-- **The source reads as it did at entry.** -/
theorem source (hcall : Call c₀ dst src n) (h : Filling c₀ dst (bytes c₀ src) n.toNat m P c)
    (ho : o < n.toNat) : c.mem (src + BitVec.ofNat 32 o) = bytes c₀ src o := by
  have hin : Mem.InRun src n.toNat (src + BitVec.ofNat 32 o) := Mem.inRun_add ho (ho.trans n.isLt)
  refine h.apply_off (fun hdst => hcall.apart _ hdst hin) fun hstack => ?_
  exact hcall.src_apart _ hin (lt_of_lt_of_le hstack (by decide))

/-- **A piece read and stored is copied.** -/
theorem piece (hcall : Call c₀ dst src n) (h : Filling c₀ dst (bytes c₀ src) n.toNat m P c)
    (ho : o + k ≤ n.toNat) (he : c'.mem = c.mem.store (dst + BitVec.ofNat 32 o) k
      fun i => c.mem (src + BitVec.ofNat 32 o + BitVec.ofNat 32 i)) :
    Filling c₀ dst (bytes c₀ src) n.toNat m (P ∪ Set.Ico o (o + k)) c' := by
  refine h.piece n.isLt.le ho he fun i hi => ?_
  rw [BitVec.add_assoc, ← BitVec.ofNat_add]
  exact source hcall h (by omega)

/-- The return, from `.Ldone`. -/
theorem done (hcall : Call c₀ dst src n)
    (h : Filling c₀ dst (bytes c₀ src) n.toNat m (Set.Ico 0 n.toNat) c) (hk : Keeps c₀ c) :
    ∃ s, Reading memcpy (Readable c₀ src n) (past memcpy .Ldone 0 c) s
      ∧ Returns memcpy c₀ dst (bytes c₀ src) n.toNat s :=
  ldone memcpy hcall.dst_apart hcall.dst_arg (words_readable c₀ src n) Label.Ldone rfl h hk

/-! ## Fewer than four bytes -/

/-- A byte of the source, for whatever of the destination is filled. -/
theorem gives (hcall : Call c₀ dst src n) (h : Filling c₀ dst (bytes c₀ src) n.toNat m P c)
    (ho : o < n.toNat) {l : Loc} (hl : l.resolve .b c = (src + BitVec.ofNat 32 o, c)) :
    Gives (Readable c₀ src n) (.place (.loc l)) c (bytes c₀ src o) where
  read := by
    simp only [Ea.read, hl, load]
    rw [source hcall h ho]
  inside := by
    simp only [Ea.reads, hl]
    exact readable_piece c₀ src ho

/-- **The bytes at `0`, `n - 1` and `n / 2`.** -/
theorem tiny_spec (hcall : Call c₀ dst src n) (h : Loaded c₀ dst src n c) (h0 : 0 < n.toNat)
    (h4 : n.toNat < 4) :
    Filling c₀ dst (bytes c₀ src) n.toNat c₀.mem (Set.Ico 0 n.toNat)
        (runOps (tiny (Loc.ind 1) (Loc.index (-1) 1 0) (Loc.index 0 1 0)) c)
      ∧ Keeps c₀ (runOps (tiny (Loc.ind 1) (Loc.index (-1) 1 0) (Loc.index 0 1 0)) c)
      ∧ ReadsIn (Readable c₀ src n)
        (tiny (Loc.ind 1) (Loc.index (-1) 1 0) (Loc.index 0 1 0)) c := by
  have hstart : Filling c₀ dst (bytes c₀ src) n.toNat c₀.mem ∅ c := Filling.start h.mem
  have hd0 : c.regs (.d 0) = BitVec.ofNat 32 n.toNat := h.d0.trans (Memmove.ofNat_toNat_self n).symm
  obtain ⟨hfill, hregs, hreads⟩ := tiny_filled (R := Readable c₀ src n) (Loc.ind 1)
    (Loc.index (-1) 1 0) (Loc.index 0 1 0) hstart h0 h4 h.a0 hd0
    (gives hcall hstart h0 (Prod.ext (h.a1.trans (BitVec.add_zero src).symm) rfl))
    (fun P c' hf hr => gives hcall hf (by omega)
      (by rw [Loc.resolve, hr, h.a1, hd0, add_displacement_pred src h0]))
    (fun P c' hf hr hhalf => gives hcall hf (by omega)
      (by rw [Loc.resolve, hr (.a 1) (by decide), h.a1, hhalf, add_half src n.isLt]))
  exact ⟨hfill, h.keeps.of_eq fun r hr => hregs r (by revert hr; revert r; decide), hreads⟩

/-- **`.Ltiny`**: with `d0` back at `n`, three bytes or nothing at all. -/
theorem ltiny (hcall : Call c₀ dst src n) (h : Loaded c₀ dst src (n - 4#32) c)
    (h4 : n.toNat < 4) :
    ∃ s, Reading memcpy (Readable c₀ src n) (past memcpy .Ltiny 0 c) s
      ∧ Returns memcpy c₀ dst (bytes c₀ src) n.toNat s := by
  let c₁ := runOps [.add (.imm 4) (.d 0)] c
  have hadd : Reading memcpy (Readable c₀ src n) (past memcpy .Ltiny 0 c)
      (past memcpy .Ltiny 1 c₁) :=
    reading_block memcpy .Ltiny 0 _ c rfl rfl (by simp)
  have h₁ : Loaded c₀ dst src n c₁ :=
    { mem := h.mem
      keeps := h.keeps.of_eq (by simp [c₁, kept])
      a0 := by simp [c₁, h.a0]
      a1 := by simp [c₁, h.a1]
      d0 := by simp [c₁, h.d0] }
  have hzero : Cond.holds .eq c₁.ccr = true ↔ n.toNat = 0 := by
    refine (holds_eq_sum _ _).trans ?_
    change c.regs (.d 0) + 4#32 = 0 ↔ _
    rw [h.d0, BitVec.sub_add_cancel]
    exact BitVec.toNat_inj.symm
  by_cases h0 : n.toNat = 0
  · have hfill : Filling c₀ dst (bytes c₀ src) n.toNat c₀.mem (Set.Ico 0 n.toNat) c₁ := by
      rw [h0, Set.Ico_self]
      exact Filling.start h₁.mem
    obtain ⟨s, hs, hret⟩ := done hcall hfill h₁.keeps
    have hjump := reading_taken (R := Readable c₀ src n) memcpy .Ltiny 1 .eq rfl (hzero.mpr h0)
    exact ⟨s, (hadd.trans hjump).trans hs, hret⟩
  · obtain ⟨hfill, hkeep, hreads⟩ := tiny_spec hcall h₁ (by omega) h4
    have hbytes : Reading memcpy (Readable c₀ src n) (past memcpy .Ltiny 2 c₁)
        (past memcpy .Ltiny 6
          (runOps (tiny (Loc.ind 1) (Loc.index (-1) 1 0) (Loc.index 0 1 0)) c₁)) :=
      reading_block memcpy .Ltiny 2 _ c₁ rfl rfl hreads
    generalize runOps (tiny (Loc.ind 1) (Loc.index (-1) 1 0) (Loc.index 0 1 0)) c₁ = c₂
      at hfill hkeep hbytes
    obtain ⟨s, hs, hret⟩ := done hcall hfill hkeep
    have hfall := reading_not_taken (R := Readable c₀ src n) memcpy .Ltiny 1 .eq rfl
      (mt hzero.mp h0)
    have hjump := reading_bra (R := Readable c₀ src n) memcpy .Ltiny 6 (c := c₂) rfl
    exact ⟨s, (hadd.trans (hfall.trans (hbytes.trans hjump))).trans hs, hret⟩

/-! ## Longs -/

/-- `a0` and `a1` stand `hi` above the two regions' starts, and so many bytes are copied. -/
structure Rising (c₀ : Cpu) (dst src n : Long) (m : Memory) (hi : ℕ) (c : Cpu) : Prop
    extends Filling c₀ dst (bytes c₀ src) n.toNat m (Set.Ico 0 hi) c where
  a0 : c.regs (.a 0) = dst + BitVec.ofNat 32 hi
  a1 : c.regs (.a 1) = src + BitVec.ofNat 32 hi

/-- **One piece up.** -/
theorem Rising.next (hcall : Call c₀ dst src n) (h : Rising c₀ dst src n m hi c)
    (hk : hi + k ≤ n.toNat)
    (he : c'.mem = c.mem.store (c.regs (.a 0)) k fun i => c.mem (c.regs (.a 1) + BitVec.ofNat 32 i))
    (h0 : c'.regs (.a 0) = c.regs (.a 0) + BitVec.ofNat 32 k)
    (h1 : c'.regs (.a 1) = c.regs (.a 1) + BitVec.ofNat 32 k) :
    Rising c₀ dst src n m (hi + k) c' where
  toFilling := by
    rw [h.a0, h.a1] at he
    rw [← Set.Ico_union_Ico_eq_Ico (Nat.zero_le hi) (Nat.le_add_right hi k)]
    exact piece hcall h.toFilling hk he
  a0 := by rw [h0, h.a0, BitVec.add_assoc, ← BitVec.ofNat_add]
  a1 := by rw [h1, h.a1, BitVec.add_assoc, ← BitVec.ofNat_add]

/-- What lies ahead of `a1` may be read. -/
theorem Rising.readable (h : Rising c₀ dst src n m hi c) (hk : hi + k ≤ n.toNat) :
    Inside (Readable c₀ src n) (some (c.regs (.a 1), k)) := h.a1 ▸ readable_piece c₀ src hk

/-- **At `.Llong`**: `d0` is the offset of the last long, `d1` its address. -/
structure LongUp (c₀ : Cpu) (dst src n : Long) (hi : ℕ) (c : Cpu) : Prop
    extends Rising c₀ dst src n c₀.mem hi c where
  keeps : Keeps c₀ c
  d0 : c.regs (.d 0) = BitVec.ofNat 32 (n.toNat - 4)
  d1 : c.regs (.d 1) = src + BitVec.ofNat 32 (n.toNat - 4)

/-- The stack words read as they did at entry, wherever the copy stands. -/
theorem arg (hcall : Call c₀ dst src n) (h : Filling c₀ dst (bytes c₀ src) n.toNat m P c) :
    c.mem.readLong (c₀.regs (.a 7) + 4#32) = dst
      ∧ c.mem.readLong (c₀.regs (.a 7) + 8#32) = src := by
  rw [Memmove.frame_add_36, Memmove.frame_add_40,
    h.readLong_frame hcall.dst_apart (by omega) (by omega),
    h.readLong_frame hcall.dst_apart (by omega) (by omega), ← Memmove.frame_add_36,
    ← Memmove.frame_add_40]
  exact ⟨hcall.dst_arg, hcall.src_arg⟩

/-- The pointers fetched once more, and the long that ends at `n`. -/
def last : List Op :=
  [.move .l (Loc.disp 4 sp) a0, .move .l (Loc.disp 8 sp) a1,
    .move .l (Loc.index 0 1 0) (Loc.index 0 0 0)]

theorem last_mem (c : Cpu) (hd : c.mem.readLong (c.regs (.a 7) + 4#32) = dst)
    (hs : c.mem.readLong (c.regs (.a 7) + 8#32) = src) :
    (runOps last c).mem
      = c.mem.writeLong (dst + c.regs (.d 0)) (c.mem.readLong (src + c.regs (.d 0))) := by
  rw [← hd, ← hs]
  simp [last, sp]

theorem last_regs (c : Cpu) : ∀ r ∈ kept, (runOps last c).regs r = c.regs r := by
  simp [last, kept]

theorem last_reads (hk : Keeps c₀ c) (hs : c.mem.readLong (c.regs (.a 7) + 8#32) = src)
    (hd0 : c.regs (.d 0) = BitVec.ofNat 32 (n.toNat - 4)) (h4 : 4 ≤ n.toNat) :
    ReadsIn (Readable c₀ src n) last c := by
  have hlong := readable_piece c₀ src (Nat.sub_add_cancel h4).le
  rw [← hd0] at hlong
  rw [← hs] at hlong ⊢
  have h4 := inside_word (words_readable c₀ (c.mem.readLong (c.regs (.a 7) + 8#32)) n)
    (show 4 + 4 ≤ 16 by omega)
  have h8 := inside_word (words_readable c₀ (c.mem.readLong (c.regs (.a 7) + 8#32)) n)
    (show 8 + 4 ≤ 16 by omega)
  rw [← hk.sp] at h4 h8
  simpa [last, sp] using And.intro h4 (And.intro h8 hlong)

/-- **The long that ends at `n`**, read afresh from the source. -/
theorem llast (hcall : Call c₀ dst src n) (h : LongUp c₀ dst src n hi c) (h4 : 4 ≤ n.toNat)
    (hlo : n.toNat - 4 ≤ hi) (hhi : hi ≤ n.toNat) :
    ∃ s, Reading memcpy (Readable c₀ src n) (past memcpy .Llong 3 c) s
      ∧ Returns memcpy c₀ dst (bytes c₀ src) n.toNat s := by
  obtain ⟨hd, hs⟩ := arg hcall h.toFilling
  rw [← h.keeps.sp] at hd hs
  have hblock : Reading memcpy (Readable c₀ src n) (past memcpy .Llong 3 c)
      (past memcpy .Ldone 0 (runOps last c)) :=
    reading_block memcpy .Llong 3 last c rfl rfl (last_reads h.keeps hs h.d0 h4)
  have hmem := last_mem c hd hs
  rw [h.d0, Mem.writeLong_readLong] at hmem
  have hfill := piece hcall h.toFilling (Nat.sub_add_cancel h4).le hmem
  rw [last_cover h4 hlo hhi] at hfill
  obtain ⟨s, hdone, hret⟩ := done hcall hfill (h.keeps.of_eq (last_regs c))
  exact ⟨s, hblock.trans hdone, hret⟩

/-- **`.Llong`**: longs while below the last one, then the last one. -/
theorem llong (hcall : Call c₀ dst src n) (h : LongUp c₀ dst src n hi c) (hhi : hi + 4 ≤ n.toNat) :
    ∃ s, Reading memcpy (Readable c₀ src n) (past memcpy .Llong 0 c) s
      ∧ Returns memcpy c₀ dst (bytes c₀ src) n.toNat s := by
  -- the measure is what is left to copy
  refine within_loop (fun k s => ∃ hi c, s = past memcpy .Llong 0 c ∧ k = n.toNat - hi ∧
    hi + 4 ≤ n.toNat ∧ LongUp c₀ dst src n hi c) ?_ ⟨hi, c, rfl, rfl, hhi, h⟩
  rintro k s ⟨hi, c, rfl, rfl, hhi, h⟩
  let c' := runOps [.move .l (Loc.postinc 1) (Loc.postinc 0), .cmp a1 (.d 1)] c
  have hbody : Reading memcpy (Readable c₀ src n) (past memcpy .Llong 0 c)
      (past memcpy .Llong 2 c') :=
    reading_block memcpy .Llong 0 _ c rfl rfl (by simpa using h.readable hhi)
  have hnext : LongUp c₀ dst src n (hi + 4) c' :=
    { toRising := h.toRising.next hcall hhi
        (by rw [← Mem.writeLong_readLong]; simp [c']) (by simp [c']) (by simp [c'])
      keeps := h.keeps.of_eq (by simp [c', kept])
      d0 := by rw [← h.d0]; simp [c']
      d1 := by rw [← h.d1]; simp [c'] }
  have hccr : Cond.holds .hi c'.ccr = true ↔ (c'.regs (.a 1)).toNat < (c'.regs (.d 1)).toNat := by
    rw [← holds_hi_compare c.ccr]
    simp [c', Ccr.compare, Ccr.logic, Cond.holds]
  have hfits := hcall.src_fits
  rw [hnext.a1, hnext.d1, Memmove.toNat_add_of_fits (by omega),
    Memmove.toNat_add_of_fits (by omega), Nat.add_lt_add_iff_left] at hccr
  by_cases hmore : hi + 4 < n.toNat - 4
  · refine ⟨_, hbody.trans (reading_taken memcpy .Llong 2 .hi rfl (hccr.mpr hmore)),
      Or.inr ⟨_, ?_, hi + 4, c', rfl, rfl, by omega, hnext⟩⟩
    omega
  · obtain ⟨s, hs, hret⟩ := llast hcall hnext (by omega) (by omega) hhi
    have hexit := reading_not_taken (R := Readable c₀ src n) memcpy .Llong 2 .hi rfl
      (mt hccr.mp hmore)
    exact ⟨s, (hbody.trans hexit).trans hs, Or.inl hret⟩

/-! ## Blocks -/

theorem readsIn_upLow {R : Set Addr} (hR : Inside R (some (c.regs (.a 1), 32))) :
    ReadsIn R upLow c := ⟨hR, inside_none, trivial⟩

theorem readsIn_upHigh {R : Set Addr} (hR : Inside R (some (c.regs (.a 1), 32))) :
    ReadsIn R upHigh c := ⟨hR, inside_none, trivial⟩

/-- **One block**, at the offset `o` that both pointers stand at. -/
theorem block_piece (hcall : Call c₀ dst src n)
    (h : Filling c₀ dst (bytes c₀ src) n.toNat m P c) (ho : o + 64 ≤ n.toNat)
    (h0 : c.regs (.a 0) = dst + BitVec.ofNat 32 o) (h1 : c.regs (.a 1) = src + BitVec.ofNat 32 o) :
    Filling c₀ dst (bytes c₀ src) n.toNat m (P ∪ Set.Ico o (o + 64))
        (runOps upHigh (runOps upLow c))
      ∧ (runOps upHigh (runOps upLow c)).regs (.a 1) = src + BitVec.ofNat 32 (o + 64)
      ∧ (∀ q ∉ carriedRegs, q ≠ .a 1 → (runOps upHigh (runOps upLow c)).regs q = c.regs q)
      ∧ ReadsIn (Readable c₀ src n) upLow c
      ∧ ReadsIn (Readable c₀ src n) upHigh (runOps upLow c) := by
  have hreads := readsIn_upLow (h1 ▸ readable_piece c₀ src (k := 32)
    (show o + 32 ≤ n.toNat by omega))
  have hlow := Memmove.halfUp_low c
  generalize runOps upLow c = c₁ at hlow ⊢
  have ha1 : c₁.regs (.a 1) = src + BitVec.ofNat 32 (o + 32) := by
    rw [hlow.a1, h1, BitVec.add_assoc, ← BitVec.ofNat_add]
  have hreads₁ := readsIn_upHigh (ha1 ▸ readable_piece c₀ src (k := 32)
    (show o + 32 + 32 ≤ n.toNat by omega))
  have hhigh := Memmove.halfUp_high c₁
  generalize runOps upHigh c₁ = c₂ at hhigh ⊢
  have hm₁ : c₁.mem = c.mem.store (dst + BitVec.ofNat 32 o) 32
      fun i => c.mem (src + BitVec.ofNat 32 o + BitVec.ofNat 32 i) := by
    rw [← h0, ← h1, hlow.mem, add_zero]
  have hm₂ : c₂.mem = c₁.mem.store (dst + BitVec.ofNat 32 (o + 32)) 32
      fun i => c₁.mem (src + BitVec.ofNat 32 (o + 32) + BitVec.ofNat 32 i) := by
    rw [← ha1, BitVec.ofNat_add, ← BitVec.add_assoc, ← h0,
      ← hlow.regs (.a 0) (by decide) (by decide), hhigh.mem]
    rfl
  have hfill := piece hcall (piece hcall h (show o + 32 ≤ n.toNat by omega) hm₁)
    (show o + 32 + 32 ≤ n.toNat by omega) hm₂
  rw [Set.union_assoc, Set.Ico_union_Ico_eq_Ico (Nat.le_add_right _ _) (Nat.le_add_right _ _)]
    at hfill
  refine ⟨hfill, ?_, fun q hq h1 => (hhigh.regs q hq h1).trans (hlow.regs q hq h1), hreads, hreads₁⟩
  rw [hhigh.a1, ha1, BitVec.add_assoc, ← BitVec.ofNat_add]

/-- **At `.Lblock`**: the saved registers are on the stack, `a3` is where the whole blocks end. -/
structure BlockUp (c₀ : Cpu) (dst src n : Long) (hi : ℕ) (c : Cpu) : Prop
    extends Rising c₀ dst src n (pushed c₀) hi c where
  stack : OnStack c₀ c
  d0 : c.regs (.d 0) = n
  a3 : c.regs (.a 3) = src + BitVec.ofNat 32 (n.toNat / 64 * 64)

theorem upNext_regs (c : Cpu) {q : Reg} (hq : q ≠ .a 0) : (runOps upNext c).regs q = c.regs q := by
  simp [upNext, hq]

theorem upNext_mem (c : Cpu) : (runOps upNext c).mem = c.mem := by simp [upNext]

theorem upNext_a0 (c : Cpu) :
    (runOps upNext c).regs (.a 0) = c.regs (.a 0) + BitVec.ofNat 32 64 := by simp [upNext]

/-- **One block up**: two halves, then both pointers stand at the next block. -/
theorem blockUp_next (hcall : Call c₀ dst src n) (h : BlockUp c₀ dst src n hi c)
    (hhi : hi + 64 ≤ n.toNat) :
    BlockUp c₀ dst src n (hi + 64) (runOps upNext (runOps upHigh (runOps upLow c)))
      ∧ ReadsIn (Readable c₀ src n) upLow c
      ∧ ReadsIn (Readable c₀ src n) upHigh (runOps upLow c) := by
  obtain ⟨hfill, ha1, hregs, hreads⟩ := block_piece hcall h.toFilling hhi h.a0 h.a1
  generalize runOps upHigh (runOps upLow c) = c₂ at hfill ha1 hregs ⊢
  rw [Set.Ico_union_Ico_eq_Ico (Nat.zero_le hi) (Nat.le_add_right hi 64)] at hfill
  have hregs' : ∀ q ∉ carriedRegs, q ≠ .a 1 → q ≠ .a 0 → (runOps upNext c₂).regs q = c.regs q :=
    fun q hq h1 h0 => (upNext_regs c₂ h0).trans (hregs q hq h1)
  refine ⟨⟨⟨hfill.of_mem (upNext_mem c₂), ?_, ?_⟩, ⟨?_, fun r hr => ?_⟩, ?_, ?_⟩, hreads⟩
  · rw [upNext_a0, hregs (.a 0) (by decide) (by decide), h.a0, BitVec.add_assoc, ← BitVec.ofNat_add]
  · rw [upNext_regs c₂ (by decide), ha1]
  · exact (hregs' (.a 7) (by decide) (by decide) (by decide)).trans h.stack.stack
  · have hr' : r ∉ carriedRegs ∧ r ≠ .a 1 ∧ r ≠ .a 0 := by revert hr; revert r; decide
    exact (hregs' r hr'.1 hr'.2.1 hr'.2.2).trans (h.stack.untouched r hr)
  · exact (hregs' (.d 0) (by decide) (by decide) (by decide)).trans h.d0
  · exact (hregs' (.a 3) (by decide) (by decide) (by decide)).trans h.a3

/-- Back to the start of the block that ends at `n`. -/
def back : List Op := [.and (.imm 63) 0, .sub (.imm 64) 0, .add d0 (.a 1), .add d0 (.a 0)]

theorem back_regs (c : Cpu) {q : Reg} (hq : q ≠ .d 0 ∧ q ≠ .a 0 ∧ q ≠ .a 1) :
    (runOps back c).regs q = c.regs q := by
  simp [back, hq]

theorem back_mem (c : Cpu) : (runOps back c).mem = c.mem := rfl

theorem back_a0 (c : Cpu) :
    (runOps back c).regs (.a 0) = c.regs (.a 0) + ((c.regs (.d 0) &&& 63#32) - 64#32) := by
  simp [back]

theorem back_a1 (c : Cpu) :
    (runOps back c).regs (.a 1) = c.regs (.a 1) + ((c.regs (.d 0) &&& 63#32) - 64#32) := by
  simp [back]

/-- **After the blocks**: the block that ends at `n`, and the registers come back. -/
theorem lblock_exit (hcall : Call c₀ dst src n) (h64 : 64 ≤ n.toNat)
    (h : BlockUp c₀ dst src n (n.toNat / 64 * 64) c) :
    ∃ s, Reading memcpy (Readable c₀ src n) (past memcpy .Lblock 7 c) s
      ∧ Returns memcpy c₀ dst (bytes c₀ src) n.toNat s := by
  have hback : Reading memcpy (Readable c₀ src n) (past memcpy .Lblock 7 c)
      (past memcpy .Lblock 11 (runOps back c)) :=
    reading_block memcpy .Lblock 7 back c rfl rfl (by simp [back])
  have hfill := h.toFilling.of_mem (back_mem c)
  have ha0 := back_a0 c
  have ha1 := back_a1 c
  rw [h.a0, h.d0, add_back dst h64] at ha0
  rw [h.a1, h.d0, add_back src h64] at ha1
  have hregs : ∀ q, q ≠ .d 0 ∧ q ≠ .a 0 ∧ q ≠ .a 1 → (runOps back c).regs q = c.regs q :=
    fun q => back_regs c
  generalize runOps back c = c₁ at hback hfill ha0 ha1 hregs
  obtain ⟨hfill₂, -, hregs₂, hlow, hhigh⟩ :=
    block_piece hcall hfill (Nat.sub_add_cancel h64).le ha0 ha1
  rw [last_cover h64 (by omega) (by omega)] at hfill₂
  have hblock : Reading memcpy (Readable c₀ src n) (past memcpy .Lblock 11 c₁)
      (past memcpy .Lblock 15 (runOps upHigh (runOps upLow c₁))) :=
    (reading_block memcpy .Lblock 11 upLow c₁ rfl rfl hlow).trans
      (reading_block memcpy .Lblock 13 upHigh _ rfl rfl hhigh)
  generalize runOps upHigh (runOps upLow c₁) = c₂ at hfill₂ hregs₂ hblock
  have hstack : OnStack c₀ c₂ := by
    refine ⟨?_, fun r hr => ?_⟩
    · rw [hregs₂ _ (by decide) (by decide), hregs _ (by decide), h.stack.stack]
    · have hr' : (r ∉ carriedRegs ∧ r ≠ .a 1) ∧ r ≠ .d 0 ∧ r ≠ .a 0 ∧ r ≠ .a 1 := by
        revert hr; revert r; decide
      rw [hregs₂ r hr'.1.1 hr'.1.2, hregs r hr'.2, h.stack.untouched r hr]
  obtain ⟨s, hs, hret⟩ := lrestore memcpy hcall.dst_apart hcall.dst_arg
    (words_readable c₀ src n) Label.Lblock Label.Ldone 15 rfl rfl rfl hfill₂ hstack
  exact ⟨s, (hback.trans hblock).trans hs, hret⟩

/-- **`.Lblock`**: block after block until `a1` stands at `a3`. -/
theorem lblock (hcall : Call c₀ dst src n) {j : ℕ} (h : BlockUp c₀ dst src n (64 * j) c)
    (hj : j < n.toNat / 64) :
    ∃ s, Reading memcpy (Readable c₀ src n) (past memcpy .Lblock 0 c) s
      ∧ Returns memcpy c₀ dst (bytes c₀ src) n.toNat s := by
  refine within_loop (fun k s => ∃ j c, s = past memcpy .Lblock 0 c ∧ k = n.toNat / 64 - j ∧
    j < n.toNat / 64 ∧ BlockUp c₀ dst src n (64 * j) c) ?_ ⟨j, c, rfl, rfl, hj, h⟩
  rintro k s ⟨j, c, rfl, rfl, hj, h⟩
  obtain ⟨hnext, hlow, hhigh⟩ := blockUp_next hcall h (by omega)
  have hbody : Reading memcpy (Readable c₀ src n) (past memcpy .Lblock 0 c)
      (past memcpy .Lblock 6 (runOps upNext (runOps upHigh (runOps upLow c)))) :=
    ((reading_block memcpy .Lblock 0 upLow c rfl rfl hlow).trans
      (reading_block memcpy .Lblock 2 upHigh _ rfl rfl hhigh)).trans
        (reading_block memcpy .Lblock 4 upNext _ rfl rfl ⟨inside_none, inside_none, trivial⟩)
  have hccr := Memmove.holds_ne_upNext (runOps upHigh (runOps upLow c))
  generalize runOps upNext (runOps upHigh (runOps upLow c)) = c' at hbody hnext hccr
  have hfits := hcall.src_fits
  rw [hnext.a1, hnext.a3, ne_eq, ← BitVec.toNat_inj, Memmove.toNat_add_of_fits (by omega),
    Memmove.toNat_add_of_fits (by omega)] at hccr
  rw [show 64 * j + 64 = 64 * (j + 1) by omega] at hnext
  by_cases hmore : j + 1 = n.toNat / 64
  · rw [hmore, Nat.mul_comm] at hnext
    obtain ⟨s, hs, hret⟩ := lblock_exit hcall (by omega) hnext
    have hexit := reading_not_taken (R := Readable c₀ src n) memcpy .Lblock 6 .ne (c := c') rfl
      fun he => hccr.mp he (by omega)
    exact ⟨s, (hbody.trans hexit).trans hs, Or.inl hret⟩
  · refine ⟨_, hbody.trans (reading_taken memcpy .Lblock 6 .ne rfl (hccr.mpr (by omega))),
      Or.inr ⟨_, ?_, j + 1, c', rfl, rfl, by omega, hnext⟩⟩
    omega

/-- The block path's preparations, once the registers are saved. -/
def prepare : List Op := [.moveq (-64) 1, .and d0 1, .lea (.index 0 1 1) 3]

theorem prepare_regs (c : Cpu) {q : Reg} (hq : q ≠ .d 1 ∧ q ≠ .a 3) :
    (runOps prepare c).regs q = c.regs q := by
  simp [prepare, hq]

theorem prepare_mem (c : Cpu) : (runOps prepare c).mem = c.mem := rfl

theorem prepare_a3 (c : Cpu) :
    (runOps prepare c).regs (.a 3)
      = c.regs (.a 1) + BitVec.ofNat 32 ((c.regs (.d 0)).toNat / 64 * 64) := by
  rw [← Memmove.and_neg_64]
  simp [prepare]

/-- **`.Lbig`**: the registers go on the stack, `a3` to the end of the whole blocks. -/
theorem lbig (hcall : Call c₀ dst src n) (h : Loaded c₀ dst src n c) (h64 : 64 ≤ n.toNat) :
    ∃ s, Reading memcpy (Readable c₀ src n) (past memcpy .Lbig 0 c) s
      ∧ Returns memcpy c₀ dst (bytes c₀ src) n.toNat s := by
  obtain ⟨hpush, hsp, hregs⟩ := Memmove.push_saved h.mem h.keeps
  have hrun : Reading memcpy (Readable c₀ src n) (past memcpy .Lbig 0 c)
      (past memcpy .Lbig 1 ((Op.movemOut savedRegs (.predec sp)).effect c)) :=
    reading_block memcpy .Lbig 0 [.movemOut savedRegs (.predec sp)] c rfl rfl ⟨inside_none, trivial⟩
  generalize (Op.movemOut savedRegs (.predec sp)).effect c = c₁ at hpush hsp hregs hrun
  have hbody : Reading memcpy (Readable c₀ src n) (past memcpy .Lbig 1 c₁)
      (past memcpy .Lblock 0 (runOps prepare c₁)) :=
    reading_block memcpy .Lbig 1 prepare c₁ rfl rfl (by simp [prepare])
  have hd0 : c₁.regs (.d 0) = n := (hregs _ (by decide)).trans h.d0
  have ha0 : c₁.regs (.a 0) = dst := (hregs _ (by decide)).trans h.a0
  have ha1 : c₁.regs (.a 1) = src := (hregs _ (by decide)).trans h.a1
  have hstart : BlockUp c₀ dst src n (64 * 0) (runOps prepare c₁) := by
    refine ⟨⟨⟨Memmove.offStack_pushed c₀, ?_, ?_⟩, ?_, ?_⟩, ⟨?_, fun r hr => ?_⟩, ?_, ?_⟩
    · exact Set.Ico_subset_Ico le_rfl (Nat.zero_le _)
    · rw [prepare_mem, hpush, Nat.mul_zero, Set.Ico_self, Mem.patched_empty]
    · rw [prepare_regs c₁ (by decide), ha0, Nat.mul_zero]
      exact (BitVec.add_zero dst).symm
    · rw [prepare_regs c₁ (by decide), ha1, Nat.mul_zero]
      exact (BitVec.add_zero src).symm
    · rw [prepare_regs c₁ (by decide), hsp]
    · have hr' : (r ≠ .d 1 ∧ r ≠ .a 3) ∧ r ≠ .a 7 ∧ r ∈ kept := by
        revert hr; revert r; decide
      rw [prepare_regs c₁ hr'.1, hregs r hr'.2.1, h.keeps r hr'.2.2]
    · rw [prepare_regs c₁ (by decide), hd0]
    · rw [prepare_a3, ha1, hd0]
  obtain ⟨s, hs, hret⟩ := lblock hcall hstart (by omega)
  exact ⟨s, (hrun.trans hbody).trans hs, hret⟩

/-! ## The whole routine -/

/-- The arguments into registers. -/
def entry : List Op :=
  [.move .l (Loc.disp 4 sp) a0, .move .l (Loc.disp 8 sp) a1, .move .l (Loc.disp 12 sp) d0]

theorem entry_loaded (hcall : Call c dst src n) : Loaded c dst src n (runOps entry c) where
  mem := rfl
  keeps := by simp [Keeps, entry, sp, kept]
  a0 := by rw [← hcall.dst_arg]; simp [entry, sp]
  a1 := by rw [← hcall.src_arg]; simp [entry, sp]
  d0 := by rw [← hcall.n_arg]; simp [entry, sp]

theorem entry_reads (c : Cpu) : ReadsIn (Readable c src n) entry c := by
  have h4 := inside_word (words_readable c src n) (show 4 + 4 ≤ 16 by omega)
  have h8 := inside_word (words_readable c src n) (show 8 + 4 ≤ 16 by omega)
  have h12 := inside_word (words_readable c src n)
    (show 12 + 4 ≤ 16 by omega)
  simpa [entry, sp] using And.intro h4 (And.intro h8 h12)

/-- **Every call gets to an `rts`**, the region copied. -/
theorem memcpy_returns (hcall : Call c dst src n) :
    ∃ s, Reading memcpy (Readable c src n) ⟨.line 0, c⟩ s
      ∧ Returns memcpy c dst (bytes c src) n.toNat s := by
  have hload := entry_loaded hcall
  have hrun : Reading memcpy (Readable c src n) ⟨.line 0, c⟩
      (past memcpy .memcpy 3 (runOps entry c)) :=
    reading_block memcpy .memcpy 0 entry c rfl rfl (entry_reads c)
  generalize runOps entry c = c₀ at hload hrun
  let c₁ := runOps [.cmp (.imm MEMCPY_SMALL) (.d 0)] c₀
  have htest : Reading memcpy (Readable c src n) (past memcpy .memcpy 3 c₀)
      (past memcpy .memcpy 4 c₁) :=
    reading_block memcpy .memcpy 3 _ c₀ rfl rfl ⟨inside_none, trivial⟩
  have hbig : Cond.holds .cc c₁.ccr = true ↔ 64 ≤ n.toNat := by
    rw [← hload.d0]
    exact holds_cc_compare c₀.ccr _ _
  have h₁ : Loaded c dst src n c₁ := ⟨hload.mem, hload.keeps, hload.a0, hload.a1, hload.d0⟩
  by_cases h64 : 64 ≤ n.toNat
  · obtain ⟨s, hs, hret⟩ := lbig hcall h₁ h64
    have hjump := reading_taken (R := Readable c src n) memcpy .memcpy 4 .cc rfl (hbig.mpr h64)
    exact ⟨s, (hrun.trans (htest.trans hjump)).trans hs, hret⟩
  have hfall := reading_not_taken (R := Readable c src n) memcpy .memcpy 4 .cc rfl (mt hbig.mp h64)
  let c₂ := runOps [.sub (.imm 4) 0] c₁
  have hsub : Reading memcpy (Readable c src n) (past memcpy .memcpy 5 c₁)
      (past memcpy .memcpy 6 c₂) :=
    reading_block memcpy .memcpy 5 _ c₁ rfl rfl ⟨inside_none, trivial⟩
  replace hrun := hrun.trans (htest.trans (hfall.trans hsub))
  have htiny : Cond.holds .cs c₂.ccr = true ↔ n.toNat < 4 := by
    rw [← h₁.d0]
    exact holds_cs_subtract c₁.ccr _ _
  have h₂ : Loaded c dst src (n - 4#32) c₂ :=
    { mem := h₁.mem
      keeps := h₁.keeps.of_eq (by simp [c₂, kept])
      a0 := by simp [c₂, h₁.a0]
      a1 := by simp [c₂, h₁.a1]
      d0 := by simp [c₂, h₁.d0] }
  by_cases h4 : n.toNat < 4
  · obtain ⟨s, hs, hret⟩ := ltiny hcall h₂ h4
    have hjump := reading_taken (R := Readable c src n) memcpy .memcpy 6 .cs rfl (htiny.mpr h4)
    exact ⟨s, (hrun.trans hjump).trans hs, hret⟩
  replace hrun := hrun.trans (reading_not_taken memcpy .memcpy 6 .cs rfl (mt htiny.mp h4))
  let c₃ := runOps [.move .l a1 d1, .add d0 (.d 1)] c₂
  have hload₃ : Reading memcpy (Readable c src n) (past memcpy .memcpy 7 c₂)
      (past memcpy .memcpy 9 c₃) :=
    reading_block memcpy .memcpy 7 _ c₂ rfl rfl ⟨inside_none, inside_none, trivial⟩
  have hlast : n - 4#32 = BitVec.ofNat 32 (n.toNat - 4) := by bv_omega
  have hstart : LongUp c dst src n 0 c₃ :=
    { toFilling := by rw [Set.Ico_self]; exact Filling.start h₂.mem
      a0 := by simp [c₃, h₂.a0]
      a1 := by simp [c₃, h₂.a1]
      keeps := h₂.keeps.of_eq (by simp [c₃, kept])
      d0 := by rw [← hlast]; simp [c₃, h₂.d0]
      d1 := by rw [← hlast]; simp [c₃, h₂.a1, h₂.d0] }
  obtain ⟨s, hs, hret⟩ := llong hcall hstart (by omega)
  exact ⟨s, (hrun.trans hload₃).trans hs, hret⟩

/-- **`memcpy` is correct for regions apart.**  The call runs back to its caller, reading no byte
outside the source and its stack words; there every byte of the destination holds the byte the
source held, nothing outside the destination and the 32 pushed bytes has changed, `d0` and `a0` hold
`dst`, the registers a call must give back hold what they held, and the stack pointer stands above
the return address. -/
theorem memcpy_correct (hcall : Call c dst src n) :
    ∃ c' : Cpu, Reading memcpy (Readable c src n) ⟨.line 0, c⟩
        ⟨.out (c.mem.readLong (c.regs (.a 7))), c'.set (.a 7) (c.regs (.a 7) + 4)⟩
      ∧ (∀ j < n.toNat, c'.mem (dst + BitVec.ofNat 32 j) = c.mem (src + BitVec.ofNat 32 j))
      ∧ (∀ x, ¬ Mem.InRun dst n.toNat x → ¬ Mem.InRun (frame c) 32 x → c'.mem x = c.mem x)
      ∧ c'.regs (.d 0) = dst ∧ c'.regs (.a 0) = dst
      ∧ ∀ r ∈ kept, c'.regs r = c.regs r := by
  obtain ⟨⟨pc, c'⟩, hreach, hret⟩ := memcpy_returns hcall
  exact ⟨c', hreach.trans (hret.reading_rts hcall.dst_apart (words_readable c src n)),
    fun j hj => hret.apply_dst hj n.isLt.le, fun x hdst hstack => hret.apply_off hdst hstack,
    hret.d0, hret.a0, hret.keeps⟩

/-- Three bytes at `0x2000`, to be copied to `0x3000`. -/
def threeBytes : Cpu where
  regs := fun r => if r = .a 7 then 0x1000 else 0
  ccr := ⟨false, false, false, false, false⟩
  mem := fun x =>
    if x = 0x1006 then 0x30 else if x = 0x100a then 0x20 else if x = 0x100f then 3 else 0

theorem call_threeBytes : Call threeBytes 0x3000 0x2000 3 where
  dst_arg := by decide
  src_arg := by decide
  n_arg := by decide
  dst_fits := by decide
  src_fits := by decide
  dst_apart x := by
    have : frame threeBytes = 0xfe0 := by decide
    rw [this, Mem.InRun, Mem.InRun]
    bv_omega
  src_apart x := by
    have : frame threeBytes = 0xfe0 := by decide
    rw [this, Mem.InRun, Mem.InRun]
    bv_omega
  apart x := by
    rw [Mem.InRun, Mem.InRun]
    bv_omega

theorem memcpy_correct_threeBytes :
    ∃ c' : Cpu, Reading memcpy (Readable threeBytes 0x2000 3) ⟨.line 0, threeBytes⟩
      ⟨.out 0, c'.set (.a 7) 0x1004⟩ ∧ c'.regs (.d 0) = 0x3000 := by
  obtain ⟨c', hreach, -, -, hd0, -⟩ := memcpy_correct call_threeBytes
  have hret : threeBytes.mem.readLong (threeBytes.regs (.a 7)) = 0 := by decide
  rw [hret] at hreach
  exact ⟨c', hreach, hd0⟩

end Memcpy
