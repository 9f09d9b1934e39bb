import Emu68Common.Isr.Insn
import Emu68Common.M68k.Machine

/-!
# Isr/Exec — what the processor does with an instruction

`Insn.exec` is one instruction.  The manual's rules for the `Z` flag are a table (`Op.rule`); the
arithmetic behind a result is a parameter (`Alu`), since nothing here depends on it.  An instruction
outside the table, and whatever runs outside the server, does anything at all, an instruction within
what is known of it (`Known.Allows`).

    Step alu body s s'   one instruction of the server, or something outside it
-/

namespace IsrCheck

open M68k (Reg Cpu Ccr Addr Long Memory displacement)

/-! ## Operands -/

def Size.bytes : Size → ℕ
  | .b => 1
  | .w => 2
  | .l => 4

/-- The part of a value an operand of this size is. -/
def Size.low : Size → Long → Long
  | .b, v => (v.setWidth 8).setWidth 32
  | .w, v => (v.setWidth 16).setWidth 32
  | .l, v => v

/-- That part, sign-extended. -/
def Size.extend : Size → Long → Long
  | .b, v => (v.setWidth 8).signExtend 32
  | .w, v => (v.setWidth 16).signExtend 32
  | .l, v => v

/-- A register with that part of it replaced. -/
def Size.merge : Size → Long → Long → Long
  | .b, old, v => old.extractLsb' 8 24 ++ v.setWidth 8
  | .w, old, v => old.extractLsb' 16 16 ++ v.setWidth 16
  | .l, _, v => v

def Size.load : Size → Memory → Addr → Long
  | .b, m, a => (m a).setWidth 32
  | .w, m, a => (m a ++ m (a + 1)).setWidth 32
  | .l, m, a => m.readLong a

def Size.save : Size → Memory → Addr → Long → Memory
  | .b, m, a, v => m.writeByte a (v.setWidth 8)
  | .w, m, a, v => (m.writeByte a (v.extractLsb' 8 8)).writeByte (a + 1) (v.setWidth 8)
  | .l, m, a, v => m.writeLong a v

/-- What `(An)+` and `-(An)` move the register by: a byte on the stack takes two. -/
def Size.stride (sz : Size) (r : Fin 8) : Long :=
  if sz = .b ∧ r = 7 then 2 else BitVec.ofNat 32 sz.bytes

/-- An index register's part of an address. -/
def indexValue (c : Cpu) (x : Reg) (long : Bool) : Long :=
  if long then c.regs x else Size.w.extend (c.regs x)

/-- The address of an operand in memory, and the registers after the mode's own side effect. -/
def Mode.resolve (sz : Size) : Mode → Cpu → Addr × Cpu
  | .ind r, c => (c.regs (.a r), c)
  | .postinc r, c => (c.regs (.a r), c.set (.a r) (c.regs (.a r) + sz.stride r))
  | .predec r, c => (c.regs (.a r) - sz.stride r, c.set (.a r) (c.regs (.a r) - sz.stride r))
  | .disp o r, c => (c.regs (.a r) + displacement o, c)
  | .index o r x long, c => (c.regs (.a r) + indexValue c x long + displacement o, c)
  | .abs a, c => (a, c)
  | .pcDisp a, c => (a, c)
  | .pcIndex a x long, c => (a + indexValue c x long, c)
  | .memInd o r p, c => (c.mem.readLong (c.regs (.a r) + displacement o) + displacement p, c)

/-- Where an operand is, once its address is known. -/
inductive Place where
  | imm (v : Long)
  | reg (r : Reg)
  | cell (a : Addr)

def Operand.locate (sz : Size) : Operand → Cpu → Place × Cpu
  | .imm v, c => (.imm v, c)
  | .reg r, c => (.reg r, c)
  | .mem m, c => ((.cell (m.resolve sz c).1, (m.resolve sz c).2))

def Place.get (sz : Size) : Place → Cpu → Long
  | .imm v, _ => sz.low v
  | .reg r, c => sz.low (c.regs r)
  | .cell a, c => sz.load c.mem a

/-- A place given a value; an address register is written whole. -/
def Place.put (sz : Size) (v : Long) : Place → Cpu → Cpu
  | .imm _, c => c
  | .reg (.d i), c => c.set (.d i) (sz.merge (c.regs (.d i)) v)
  | .reg (.a i), c => c.set (.a i) v
  | .cell a, c => c.setMem (sz.save c.mem a v)

/-- The values of the sources, read one after another. -/
def readAll (sz : Size) : List Operand → Cpu → List Long × Cpu
  | [], c => ([], c)
  | op :: ops, c =>
    let (p, c₁) := op.locate sz c
    let (vs, c₂) := readAll sz ops c₁
    (p.get sz c₁ :: vs, c₂)

/-! ## Operations on data -/

/-- **The arithmetic**: what an operation makes of its sources, its destination and the codes, and
the codes it leaves apart from the rule for `Z`. -/
structure Alu where
  value : Op → Size → List Long → Long → Ccr → Long
  codes : Op → Size → List Long → Long → Ccr → Ccr

/-- The manual's rules for `Z`. -/
inductive Rule where
  /-- set iff the result is zero -/
  | result
  /-- cleared if the result is not zero, else left alone -/
  | sticky
  /-- set from something else: a bit, a comparison -/
  | tested
  /-- left alone, as all the codes are -/
  | kept
  deriving DecidableEq, Repr

def Op.rule : Op → Rule
  | .addx | .subx | .negx | .abcd | .sbcd | .nbcd => .sticky
  | .btst | .bchg | .bclr | .bset | .tas | .cmp | .cmpi | .cmpa | .cmpm => .tested
  | .scc _ => .kept
  | _ => .result

/-- The size of an operation's result: a product is a long, a bit is one of a long or of a byte in
memory, and an address register is written whole. -/
def Op.width (sz : Size) (dst : Operand) : Op → Size
  | .moveq | .swap | .extb | .mulu | .muls => .l
  | .scc _ | .tas | .abcd | .sbcd | .nbcd => .b
  | .btst | .bchg | .bclr | .bset => match dst with
    | .mem _ => .b
    | _ => .l
  | _ => if dst.isAddr then .l else sz

/-- Whether an operation writes its destination. -/
def Op.writes : Op → Bool
  | .tst | .btst | .cmp | .cmpi | .cmpa | .cmpm => false
  | _ => true

/-- The result of an operation. -/
def Op.value (alu : Alu) (o : Op) (sz : Size) (vs : List Long) (old : Long) (f : Ccr) : Long :=
  match o with
  | .move | .moveq => vs.headD 0
  | .clr => 0
  | .tst => old
  | _ => alu.value o sz vs old f

/-- The codes after it, of a result of this size. -/
def Op.codes (alu : Alu) (o : Op) (sz width : Size) (vs : List Long) (old : Long) (f : Ccr)
    (v : Long) : Ccr :=
  match o.rule with
  | .result => { alu.codes o sz vs old f with z := width.low v == 0 }
  | .sticky => { alu.codes o sz vs old f with z := f.z && width.low v == 0 }
  | .tested => alu.codes o sz vs old f
  | .kept => f

/-- The operations that may add to an address register, which leaves the codes alone. -/
def Op.isQuick : Op → Bool
  | .addq | .subq => true
  | _ => false

/-- **An operation on data.** -/
def Op.run (alu : Alu) (o : Op) (sz : Size) (src : List Operand) (dst : Operand) (c : Cpu) : Cpu :=
  let width := o.width sz dst
  let (vs, c₁) := readAll sz src c
  let (p, c₂) := dst.locate width c₁
  let old := p.get width c₂
  let v := o.value alu sz vs old c.ccr
  let c₃ := if o.writes then p.put width v c₂ else c₂
  if o.isQuick && dst.isAddr then c₃ else c₃.setCcr (o.codes alu sz width vs old c.ccr v)

/-- An operation on an address register: the source is sign-extended, and the register whole. -/
def AddrOp.run (o : AddrOp) (sz : Size) (src : Operand) (r : Fin 8) (c : Cpu) : Cpu :=
  let (p, c₁) := src.locate sz c
  let v := sz.extend (p.get sz c₁)
  match o with
  | .movea => c₁.set (.a r) v
  | .adda => c₁.set (.a r) (c₁.regs (.a r) + v)
  | .suba => c₁.set (.a r) (c₁.regs (.a r) - v)

/-! ## The other instructions -/

def Cond.holds : Cond → Ccr → Bool
  | .hi, f => !f.c && !f.z
  | .ls, f => f.c || f.z
  | .cc, f => !f.c
  | .cs, f => f.c
  | .ne, f => !f.z
  | .eq, f => f.z
  | .vc, f => !f.v
  | .vs, f => f.v
  | .pl, f => !f.n
  | .mi, f => f.n
  | .ge, f => f.n == f.v
  | .lt, f => f.n != f.v
  | .gt, f => f.n == f.v && !f.z
  | .le, f => f.n != f.v || f.z

def Test.holds : Test → Ccr → Bool
  | .always, _ => true
  | .never, _ => false
  | .on c, f => c.holds f

/-- Registers given the values of consecutive cells. -/
def loadRegs (sz : Size) : List Reg → Addr → Cpu → Cpu
  | [], _, c => c
  | r :: regs, a, c =>
    loadRegs sz regs (a + BitVec.ofNat 32 sz.bytes) (c.set r (sz.extend (sz.load c.mem a)))

/-- Consecutive cells given the values of registers. -/
def saveRegs (sz : Size) : List Reg → Addr → Cpu → Cpu
  | [], _, c => c
  | r :: regs, a, c =>
    saveRegs sz regs (a + BitVec.ofNat 32 sz.bytes) (c.setMem (sz.save c.mem a (c.regs r)))

/-- `movem`: with `(An)+` and `-(An)` the register moves over the whole block. -/
def moveRegs (sz : Size) (load : Bool) (regs : List Reg) (m : Mode) (c : Cpu) : Cpu :=
  let total := BitVec.ofNat 32 (sz.bytes * regs.length)
  match m with
  | .postinc r =>
    (if load then loadRegs sz regs (c.regs (.a r)) c else saveRegs sz regs (c.regs (.a r)) c).set
      (.a r) (c.regs (.a r) + total)
  | .predec r =>
    let a := c.regs (.a r) - total
    (if load then loadRegs sz regs a c else saveRegs sz regs a c).set (.a r) a
  | m =>
    let a := (m.resolve sz c).1
    if load then loadRegs sz regs a c else saveRegs sz regs a c

/-- A long on the stack. -/
def push (v : Long) (c : Cpu) : Cpu :=
  let sp := c.regs (.a 7) - 4
  (c.set (.a 7) sp).setMem (c.mem.writeLong sp v)

/-- The stack without its top long. -/
def pop (c : Cpu) : Cpu := c.set (.a 7) (c.regs (.a 7) + 4)

/-- The processor: where it is, and the rest. -/
structure State where
  pc : ℕ
  cpu : Cpu

/-- **What an instruction does**, the one behind it being at `next`. -/
def Insn.exec (alu : Alu) (next : ℕ) (c : Cpu) : Insn → Option State
  | .data o sz src dst => some ⟨next, o.run alu sz src dst c⟩
  | .toAddr o sz src r => some ⟨next, o.run sz src r c⟩
  | .movem sz load regs m => some ⟨next, moveRegs sz load regs m c⟩
  | .exg r r' => some ⟨next, (c.set r (c.regs r')).set r' (c.regs r)⟩
  | .lea m r => some ⟨next, c.set (.a r) (m.resolve .l c).1⟩
  | .pea m => some ⟨next, push (m.resolve .l c).1 c⟩
  | .link r o =>
    let c₁ := push (c.regs (.a r)) c
    let c₂ := c₁.set (.a r) (c₁.regs (.a 7))
    some ⟨next, c₂.set (.a 7) (c₂.regs (.a 7) + displacement o)⟩
  | .unlk r =>
    let c₁ := c.set (.a 7) (c.regs (.a r))
    some ⟨next, (pop c₁).set (.a r) (c₁.mem.readLong (c₁.regs (.a 7)))⟩
  | .nop => some ⟨next, c⟩
  | .reset => some ⟨next, c⟩
  | .bcc cond _ target => some ⟨if cond.holds c.ccr then target.toNat else next, c⟩
  | .bra _ target => some ⟨target.toNat, c⟩
  | .bsr _ target => some ⟨target.toNat, push (BitVec.ofNat 32 next) c⟩
  | .jmp m => some ⟨(m.resolve .l c).1.toNat, c⟩
  | .jsr m => some ⟨(m.resolve .l c).1.toNat, push (BitVec.ofNat 32 next) c⟩
  | .dbcc test r target =>
    if test.holds c.ccr then some ⟨next, c⟩
    else
      let count := Size.w.low (c.regs (.d r) - 1)
      some ⟨if count = 0xffff then next else target.toNat,
        c.set (.d r) (Size.w.merge (c.regs (.d r)) count)⟩
  | .rts => some ⟨(c.mem.readLong (c.regs (.a 7))).toNat, pop c⟩
  | .other _ _ => none

/-! ## Running a server -/

/-- A line of the disassembly: an instruction, where it is and how long. -/
structure Line where
  addr : ℕ
  size : ℕ
  insn : Insn
  deriving DecidableEq, Repr

/-- The address behind it. -/
def Line.next (e : Line) : ℕ := e.addr + e.size

/-- **The lines fill `[lo, hi)`.** -/
def Fills : List Line → ℕ → ℕ → Prop
  | [], lo, hi => lo = hi
  | e :: body, lo, hi => e.addr = lo ∧ 0 < e.size ∧ Fills body e.next hi

/-- **`Z` is set iff `D0` is zero.** -/
def Tells (c : Cpu) : Prop := c.ccr.z = true ↔ c.regs (.d 0) = 0

/-- `D0` and `Z` are as they were. -/
def Keeps (c c' : Cpu) : Prop := c'.ccr.z = c.ccr.z ∧ c'.regs (.d 0) = c.regs (.d 0)

/-- What is known of an instruction outside the table. -/
def Known.Allows (k : Known) (c c' : Cpu) : Prop :=
  match k with
  | .keeps => Keeps c c'
  | .sets => Tells c'
  | .free => True

/-- **One step**: of the server, or, once control has left it, of anything. -/
inductive Step (alu : Alu) (body : List Line) : State → State → Prop where
  | insn {e : Line} {s s' : State} (he : e ∈ body) (hpc : s.pc = e.addr)
    (h : e.insn.exec alu e.next s.cpu = some s') : Step alu body s s'
  | other {e : Line} {text : List Char} {k : Known} {s s' : State} (he : e ∈ body)
    (hpc : s.pc = e.addr) (hother : e.insn = .other text k) (h : k.Allows s.cpu s'.cpu) :
    Step alu body s s'
  | outside {s s' : State} (h : ∀ e ∈ body, s.pc ≠ e.addr) : Step alu body s s'

/-! ## What a step leaves alone -/

section Leaves

variable {alu : Alu} {sz : Size} {c : Cpu}

/-- The data registers and the codes are as they were. -/
def Same (c c' : Cpu) : Prop := (∀ i, c'.regs (.d i) = c.regs (.d i)) ∧ c'.ccr = c.ccr

theorem Same.refl (c : Cpu) : Same c c := ⟨fun _ => rfl, rfl⟩

theorem Same.trans {c₁ c₂ c₃ : Cpu} (h : Same c₁ c₂) (h' : Same c₂ c₃) : Same c₁ c₃ :=
  ⟨fun i => (h'.1 i).trans (h.1 i), h'.2.trans h.2⟩

theorem same_set_a (c : Cpu) (r : Fin 8) (v : Long) : Same c (c.set (.a r) v) :=
  ⟨fun i => by rw [Cpu.set_regs, if_neg (Reg.noConfusion ·)], rfl⟩

theorem same_setMem (c : Cpu) (m : Memory) : Same c (c.setMem m) := ⟨fun _ => rfl, rfl⟩

/-- Finding an operand touches nothing but address registers. -/
theorem same_resolve (sz : Size) (m : Mode) (c : Cpu) : Same c (m.resolve sz c).2 := by
  cases m with
  | postinc r => exact same_set_a c r _
  | predec r => exact same_set_a c r _
  | _ => exact Same.refl c

theorem same_locate (sz : Size) (op : Operand) (c : Cpu) : Same c (op.locate sz c).2 := by
  cases op with
  | mem m => exact same_resolve sz m c
  | _ => exact Same.refl c

theorem same_readAll (sz : Size) (src : List Operand) (c : Cpu) : Same c (readAll sz src c).2 := by
  induction src generalizing c with
  | nil => exact Same.refl c
  | cons op src ih => exact (same_locate sz op c).trans (ih _)

theorem same_push (v : Long) (c : Cpu) : Same c (push v c) :=
  (same_set_a c 7 _).trans (same_setMem _ _)

theorem same_saveRegs (sz : Size) (regs : List Reg) (a : Addr) (c : Cpu) :
    Same c (saveRegs sz regs a c) := by
  induction regs generalizing a c with
  | nil => exact Same.refl c
  | cons r regs ih => exact (same_setMem c _).trans (ih _ _)

theorem Same.keeps {c c' : Cpu} (h : Same c c') : Keeps c c' := ⟨congrArg Ccr.z h.2, h.1 0⟩

theorem Keeps.trans {c₁ c₂ c₃ : Cpu} (h : Keeps c₁ c₂) (h' : Keeps c₂ c₃) : Keeps c₁ c₃ :=
  ⟨h'.1.trans h.1, h'.2.trans h.2⟩

theorem Keeps.tells {c c' : Cpu} (h : Keeps c c') (ht : Tells c) : Tells c' := by
  rw [Tells, h.1, h.2]
  exact ht

theorem keeps_set {r : Reg} (hr : r ≠ .d 0) (c : Cpu) (v : Long) : Keeps c (c.set r v) :=
  ⟨rfl, by rw [Cpu.set_regs, if_neg (Ne.symm hr)]⟩

theorem keeps_loadRegs (sz : Size) {regs : List Reg} (h : Reg.d 0 ∉ regs) (a : Addr) (c : Cpu) :
    Keeps c (loadRegs sz regs a c) := by
  induction regs generalizing a c with
  | nil => exact (Same.refl c).keeps
  | cons r regs ih =>
    obtain ⟨hr, hregs⟩ := not_or.mp (mt List.mem_cons.mpr h)
    exact (keeps_set (Ne.symm hr) c _).trans (ih hregs _ _)

/-- **`movem` leaves `D0` alone** unless it loads it. -/
theorem keeps_moveRegs {load : Bool} {regs : List Reg} (h : load = true → Reg.d 0 ∉ regs) (m : Mode)
    (c : Cpu) : Keeps c (moveRegs sz load regs m c) := by
  have hblock : ∀ a, Keeps c (if load then loadRegs sz regs a c else saveRegs sz regs a c) := by
    intro a
    cases load with
    | true => exact keeps_loadRegs sz (h rfl) a c
    | false => exact (same_saveRegs sz regs a c).keeps
  cases m with
  | postinc r => exact (hblock _).trans (same_set_a _ r _).keeps
  | predec r => exact (hblock _).trans (same_set_a _ r _).keeps
  | _ => exact hblock _

theorem same_toAddr (o : AddrOp) (sz : Size) (src : Operand) (r : Fin 8) (c : Cpu) :
    Same c (o.run sz src r c) := by
  have hloc := same_locate sz src c
  cases o with
  | movea => exact hloc.trans (same_set_a _ r _)
  | adda => exact hloc.trans (same_set_a _ r _)
  | suba => exact hloc.trans (same_set_a _ r _)

/-- **`addq` and `subq` on an address register** leave the data registers and the codes alone. -/
theorem same_quick {o : Op} (ho : o.isQuick = true) (src : List Operand) (r : Fin 8) :
    Same c (o.run alu sz src (.reg (.a r)) c) := by
  have hread := same_readAll sz src c
  rw [Op.run]
  simp only [ho, Operand.isAddr, Bool.and_true, if_true]
  split
  · exact hread.trans (same_set_a _ r _)
  · exact hread

/-- The only result that is not written is the value tested. -/
theorem eq_tst {o : Op} (hr : o.rule = .result) (hw : o.writes = false) : o = .tst := by
  cases o with
  | tst => rfl
  | btst => exact Rule.noConfusion hr
  | cmp => exact Rule.noConfusion hr
  | cmpi => exact Rule.noConfusion hr
  | cmpa => exact Rule.noConfusion hr
  | cmpm => exact Rule.noConfusion hr
  | _ => exact Bool.noConfusion hw

/-- **A long result left in `D0`** is what `Z` tells of. -/
theorem tells_run {o : Op} {dst : Operand} (hd : dst = .reg (.d 0)) (hr : o.rule = .result)
    (hl : o.width sz dst = .l) (src : List Operand) : Tells (o.run alu sz src dst c) := by
  subst hd
  have hcodes : ∀ vs old f v, (o.codes alu sz .l vs old f v).z = (v == 0) := by
    intro vs old f v
    rw [Op.codes, hr]
    rfl
  rw [Op.run]
  simp only [hl, Operand.isAddr, Bool.and_false, Operand.locate, Bool.false_eq_true, if_false]
  rw [Tells, Cpu.setCcr_ccr, hcodes, Cpu.setCcr_regs, beq_iff_eq]
  cases hw : o.writes with
  | true => rw [if_pos rfl, Place.put, Cpu.set_regs, if_pos rfl, Size.merge]
  | false =>
    obtain rfl := eq_tst hr hw
    rfl

end Leaves

end IsrCheck
