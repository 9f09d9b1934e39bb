import Emu68Common.Machinery.Memory

/-!
# M68k/Machine — the part of the 68020 the memory primitives run on

Registers, condition codes and a byte memory (`Cpu`), the straight-line operations on them
(`Op.effect`), and a program counter that counts lines of a listing (`step`).  A long or a `movem.l`
access may be misaligned, as from the 68020 up, and every address wraps at `2³²`.

    Cpu ──Op.effect──▸ Cpu          one straight-line instruction
    (pc, Cpu) ──step──▸ (pc, Cpu)   one instruction of a listing, branches and `rts` included

The listing is not in the memory it works on: a routine that overwrites its own code is out of
scope.
-/

namespace M68k

open Machinery

abbrev Addr : Type := BitVec 32
abbrev Long : Type := BitVec 32
abbrev Memory : Type := Machinery.Mem 32

/-! ## Operands -/

instance eight_ne_zero : NeZero 8 := ⟨by decide⟩

/-- The sixteen registers. -/
inductive Reg where
  | d (i : Fin 8)
  | a (i : Fin 8)
  deriving DecidableEq, Repr

/-- An operand in memory, by its addressing mode. -/
inductive Loc where
  /-- `(An)` -/
  | ind (r : Fin 8)
  /-- `(An)+` -/
  | postinc (r : Fin 8)
  /-- `-(An)` -/
  | predec (r : Fin 8)
  /-- `disp(An)` -/
  | disp (o : ℤ) (r : Fin 8)
  /-- `disp(An,Dx.l)` -/
  | index (o : ℤ) (r x : Fin 8)
  deriving DecidableEq, Repr

/-- What an instruction can write to. -/
inductive Place where
  | reg (r : Reg)
  | loc (l : Loc)
  deriving DecidableEq, Repr

/-- What an instruction can read. -/
inductive Ea where
  | imm (v : Long)
  | place (p : Place)
  deriving DecidableEq, Repr

instance : Coe Loc Place := ⟨.loc⟩
instance : Coe Place Ea := ⟨.place⟩
instance : Coe Loc Ea := ⟨fun l => .place (.loc l)⟩

/-- The two operand sizes the primitives use. -/
inductive Size where
  | b
  | l
  deriving DecidableEq, Repr

/-- Bytes in an operand. -/
def Size.bytes : Size → ℕ
  | .b => 1
  | .l => 4

/-! ## The state -/

/-- The condition codes. -/
structure Ccr where
  x : Bool
  n : Bool
  z : Bool
  v : Bool
  c : Bool
  deriving DecidableEq, Repr

/-- Everything but the program counter. -/
structure Cpu where
  regs : Reg → Long
  ccr : Ccr
  mem : Memory

namespace Cpu

/-- A register given a value. -/
def set (c : Cpu) (r : Reg) (v : Long) : Cpu := { c with regs := Function.update c.regs r v }

/-- The memory replaced. -/
def setMem (c : Cpu) (m : Memory) : Cpu := { c with mem := m }

/-- The condition codes replaced. -/
def setCcr (c : Cpu) (f : Ccr) : Cpu := { c with ccr := f }

@[simp] theorem set_mem (c : Cpu) (r : Reg) (v : Long) : (c.set r v).mem = c.mem := rfl
@[simp] theorem set_ccr (c : Cpu) (r : Reg) (v : Long) : (c.set r v).ccr = c.ccr := rfl
@[simp] theorem setMem_mem (c : Cpu) (m : Memory) : (c.setMem m).mem = m := rfl
@[simp] theorem setMem_regs (c : Cpu) (m : Memory) : (c.setMem m).regs = c.regs := rfl
@[simp] theorem setMem_ccr (c : Cpu) (m : Memory) : (c.setMem m).ccr = c.ccr := rfl
@[simp] theorem setCcr_mem (c : Cpu) (f : Ccr) : (c.setCcr f).mem = c.mem := rfl
@[simp] theorem setCcr_regs (c : Cpu) (f : Ccr) : (c.setCcr f).regs = c.regs := rfl
@[simp] theorem setCcr_ccr (c : Cpu) (f : Ccr) : (c.setCcr f).ccr = f := rfl

@[simp] theorem set_regs (c : Cpu) (r r' : Reg) (v : Long) :
    (c.set r v).regs r' = if r' = r then v else c.regs r' :=
  Function.update_apply c.regs r v r'

end Cpu

/-! ## Reading and writing operands -/

/-- What `(An)+` and `-(An)` move the register by: a byte on the stack takes two. -/
def Size.stride (sz : Size) (r : Fin 8) : Long :=
  if sz = .b ∧ r = 7 then 2 else BitVec.ofNat 32 sz.bytes

/-- A displacement, sign-extended to an address. -/
@[irreducible] def displacement (o : ℤ) : Long := BitVec.ofInt 32 o

@[simp] theorem displacement_zero : displacement 0 = 0 := by rw [displacement]; rfl

theorem displacement_natCast (k : ℕ) : displacement k = BitVec.ofNat 32 k := by
  rw [displacement, BitVec.ofInt_natCast]

theorem displacement_neg (k : ℕ) : displacement (-k) = -BitVec.ofNat 32 k := by
  rw [displacement, BitVec.ofInt_neg, BitVec.ofInt_natCast]

/-- The address of an operand, and the registers after the mode's own side effect. -/
def Loc.resolve (sz : Size) : Loc → Cpu → Addr × Cpu
  | .ind r, c => (c.regs (.a r), c)
  | .postinc r, c => (c.regs (.a r), c.set (.a r) (c.regs (.a r) + sz.stride r))
  | .predec r, c => (c.regs (.a r) - sz.stride r, c.set (.a r) (c.regs (.a r) - sz.stride r))
  | .disp o r, c => (c.regs (.a r) + displacement o, c)
  | .index o r x, c => (c.regs (.a r) + c.regs (.d x) + displacement o, c)

/-- A value of the given size from memory, zero-extended. -/
def load : Size → Memory → Addr → Long
  | .b, m, a => (m a).setWidth 32
  | .l, m, a => m.readLong a

/-- A value of the given size into memory. -/
def save : Size → Memory → Addr → Long → Memory
  | .b, m, a, v => m.writeByte a (v.setWidth 8)
  | .l, m, a, v => m.writeLong a v

/-- The part of a register an operand of the given size is. -/
def Size.low : Size → Long → Long
  | .b, v => (v.setWidth 8).setWidth 32
  | .l, v => v

/-- A register with the part an operand of the given size is replaced. -/
def Size.merge : Size → Long → Long → Long
  | .b, old, v => (old.extractLsb' 8 24) ++ (v.setWidth 8)
  | .l, _, v => v

/-- The value of a source operand, and the registers after its side effect. -/
def Ea.read (sz : Size) : Ea → Cpu → Long × Cpu
  | .imm v, c => (sz.low v, c)
  | .place (.reg r), c => (sz.low (c.regs r), c)
  | .place (.loc l), c => let (a, c') := l.resolve sz c; (load sz c'.mem a, c')

/-- A destination operand given a value. -/
def Place.write (sz : Size) : Place → Long → Cpu → Cpu
  | .reg r, v, c => c.set r (sz.merge (c.regs r) v)
  | .loc l, v, c => let (a, c') := l.resolve sz c; c'.setMem (save sz c'.mem a v)

/-! ## Condition codes -/

/-- Whether a value of the given size is negative. -/
def Size.negative : Size → Long → Bool
  | .b, v => v.getLsbD 7
  | .l, v => v.msb

/-- The codes after a move or a logical operation: carry and overflow cleared, `X` kept. -/
def Ccr.logic (f : Ccr) (sz : Size) (v : Long) : Ccr :=
  { f with n := sz.negative v, z := sz.low v == 0, v := false, c := false }

/-- The codes after comparing `dst` with `src`, that is after `dst - src` thrown away: `X` kept. -/
def Ccr.compare (f : Ccr) (dst src : Long) : Ccr :=
  { f with n := (dst - src).msb, z := dst == src, v := BitVec.ssubOverflow dst src
           c := dst.ult src }

/-- The codes after `dst - src`: the borrow goes to `X` too. -/
def Ccr.subtract (f : Ccr) (dst src : Long) : Ccr :=
  { f.compare dst src with x := dst.ult src }

/-- The codes after `dst + src`: the carry goes to `X` too. -/
def Ccr.sum (dst src : Long) : Ccr :=
  { x := BitVec.uaddOverflow dst src, n := (dst + src).msb, z := dst + src == 0
    v := BitVec.saddOverflow dst src, c := BitVec.uaddOverflow dst src }

/-- The codes after shifting `v` right by `k`, at least one: the last bit out is carried. -/
def Ccr.shift (v : Long) (k : ℕ) : Ccr :=
  { x := v.getLsbD (k - 1), n := (v >>> k).msb, z := v >>> k == 0, v := false
    c := v.getLsbD (k - 1) }

/-- The codes after an unsigned `dst * src`, of which a long is kept: `X` kept. -/
def Ccr.product (f : Ccr) (dst src : Long) : Ccr :=
  { f with n := (dst * src).msb, z := dst * src == 0, v := BitVec.umulOverflow dst src, c := false }

/-- The branch conditions used. -/
inductive Cond where
  /-- equal: `Z` -/
  | eq
  /-- not equal: not `Z` -/
  | ne
  /-- carry set: unsigned below -/
  | cs
  /-- carry clear: unsigned at or above -/
  | cc
  /-- high: unsigned above -/
  | hi
  deriving DecidableEq, Repr

/-- Whether a condition holds. -/
def Cond.holds : Cond → Ccr → Bool
  | .eq, f => f.z
  | .ne, f => !f.z
  | .cs, f => f.c
  | .cc, f => !f.c
  | .hi, f => !f.c && !f.z

/-! ## Instructions -/

/-- The straight-line operations, all long but `move`. -/
inductive Op where
  /-- `move`; to an address register it is `movea` and leaves the codes alone -/
  | move (sz : Size) (src : Ea) (dst : Place)
  /-- `moveq`: eight bits, sign-extended -/
  | moveq (v : BitVec 8) (d : Fin 8)
  | lea (l : Loc) (r : Fin 8)
  /-- `add`, `addq`; to an address register `adda`, which leaves the codes alone -/
  | add (src : Ea) (dst : Reg)
  /-- `sub`, `subq` -/
  | sub (src : Ea) (d : Fin 8)
  | and (src : Ea) (d : Fin 8)
  /-- `lsr` by a count -/
  | lsr (k : ℕ) (d : Fin 8)
  /-- `mulu.l`: the low long of the product -/
  | mulu (src : Ea) (d : Fin 8)
  /-- `cmp`, `cmpa` -/
  | cmp (src : Ea) (dst : Reg)
  | tst (d : Fin 8)
  /-- `movem.l` from memory -/
  | movemIn (src : Loc) (rs : List Reg)
  /-- `movem.l` to memory -/
  | movemOut (rs : List Reg) (dst : Loc)
  deriving DecidableEq, Repr

/-- The codes an operation leaves, unless it wrote an address register. -/
def Place.flag (dst : Place) (f : Ccr → Ccr) (c : Cpu) : Cpu :=
  match dst with
  | .reg (.a _) => c
  | _ => c.setCcr (f c.ccr)

/-- Registers given the longs of a list, in order. -/
def Cpu.setAll (c : Cpu) : List Reg → List Long → Cpu
  | r :: rs, v :: vs => (c.set r v).setAll rs vs
  | _, _ => c

/-- **What one straight-line instruction does.** -/
def Op.effect : Op → Cpu → Cpu
  | .move sz src dst, c =>
    let (v, c') := src.read sz c
    dst.flag (·.logic sz v) (dst.write sz v c')
  | .moveq v d, c =>
    (c.set (.d d) (v.signExtend 32)).setCcr (c.ccr.logic .l (v.signExtend 32))
  | .lea l r, c => c.set (.a r) (l.resolve .l c).1
  | .add src dst, c =>
    let (v, c') := src.read .l c
    Place.flag (.reg dst) (fun _ => .sum (c'.regs dst) v) (c'.set dst (c'.regs dst + v))
  | .sub src d, c =>
    let (v, c') := src.read .l c
    (c'.set (.d d) (c'.regs (.d d) - v)).setCcr (c'.ccr.subtract (c'.regs (.d d)) v)
  | .and src d, c =>
    let (v, c') := src.read .l c
    (c'.set (.d d) (c'.regs (.d d) &&& v)).setCcr (c'.ccr.logic .l (c'.regs (.d d) &&& v))
  | .lsr k d, c => (c.set (.d d) (c.regs (.d d) >>> k)).setCcr (.shift (c.regs (.d d)) k)
  | .mulu src d, c =>
    let (v, c') := src.read .l c
    (c'.set (.d d) (c'.regs (.d d) * v)).setCcr (c'.ccr.product (c'.regs (.d d)) v)
  | .cmp src dst, c =>
    let (v, c') := src.read .l c
    c'.setCcr (c'.ccr.compare (c'.regs dst) v)
  | .tst d, c => c.setCcr (c.ccr.logic .l (c.regs (.d d)))
  | .movemIn (.postinc r) rs, c =>
    (c.setAll rs (c.mem.readLongs (c.regs (.a r)) rs.length)).set (.a r)
      (c.regs (.a r) + BitVec.ofNat 32 (4 * rs.length))
  | .movemIn l rs, c => c.setAll rs (c.mem.readLongs (l.resolve .l c).1 rs.length)
  | .movemOut rs (.predec r), c =>
    (c.setMem (c.mem.pushLongs (c.regs (.a r)) (rs.map c.regs))).set (.a r)
      (c.regs (.a r) - BitVec.ofNat 32 (4 * rs.length))
  | .movemOut rs l, c => c.setMem (c.mem.writeLongs (l.resolve .l c).1 (rs.map c.regs))

/-- One instruction of a listing with labels in `L`. -/
inductive Instr (L : Type) where
  | op (o : Op)
  | branch (cond : Cond) (l : L)
  | bra (l : L)
  | rts
  deriving DecidableEq, Repr

/-- One line of a listing: an instruction, and the label it stands at if it has one. -/
structure Line (L : Type) where
  label : Option L
  instr : Instr L
  deriving DecidableEq, Repr

/-- A line without a label. -/
def ln {L : Type} (i : Instr L) : Line L := ⟨none, i⟩

/-- A line at a label. -/
def lab {L : Type} (l : L) (i : Instr L) : Line L := ⟨some l, i⟩

instance {L : Type} : Coe Op (Instr L) := ⟨.op⟩

/-! ## Running a listing -/

/-- Where control is: at a line of the listing, or back at an address outside it. -/
inductive Pc where
  | line (i : ℕ)
  | out (a : Addr)
  deriving DecidableEq, Repr

/-- The line a label stands at. -/
def target {L : Type} [DecidableEq L] (code : List (Line L)) (l : L) : ℕ :=
  code.findIdx fun x => x.label == some l

/-- The machine: where control is, and everything else. -/
structure State where
  pc : Pc
  cpu : Cpu

/-- One instruction executed at line `i`. -/
def Instr.exec {L : Type} (tgt : L → ℕ) (i : ℕ) (c : Cpu) : Instr L → State
  | .op o => ⟨.line (i + 1), o.effect c⟩
  | .branch cond l => ⟨.line (if cond.holds c.ccr then tgt l else i + 1), c⟩
  | .bra l => ⟨.line (tgt l), c⟩
  | .rts => ⟨.out (c.mem.readLong (c.regs (.a 7))), c.set (.a 7) (c.regs (.a 7) + 4)⟩

/-- **One step of a listing**; a machine that has left it takes none. -/
def step {L : Type} [DecidableEq L] (code : List (Line L)) (s : State) : Option State :=
  match s.pc with
  | .out _ => none
  | .line i => (code[i]?).map fun x => x.instr.exec (target code) i s.cpu

end M68k
