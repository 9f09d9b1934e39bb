import Emu68Common.M68k.Machine

/-!
# Isr/Insn — the instructions of a server, and how they are printed

An instruction is data, and `text` what the disassembler prints for it, in the Motorola or the MIT
spelling.  The instructions that only move, compute or transfer control are spelled out; any other
the processor has (`other`) carries its own text, and what the manual says of `Z` and `D0` for it.

    Insn ──text──▸ what `check` reads
-/

namespace IsrCheck

open M68k (Reg Addr Long)

/-! ## Operands -/

/-- The two spellings of binutils. -/
inductive Spelling where
  | mit
  | motorola
  deriving DecidableEq, Repr

inductive Size where
  | b
  | w
  | l
  deriving DecidableEq, Repr

/-- An operand in memory, by its addressing mode. -/
inductive Mode where
  /-- `(An)` -/
  | ind (r : Fin 8)
  /-- `(An)+` -/
  | postinc (r : Fin 8)
  /-- `-(An)` -/
  | predec (r : Fin 8)
  /-- `o(An)` -/
  | disp (o : ℤ) (r : Fin 8)
  /-- `o(An,Xn)`, with the index a long or a word -/
  | index (o : ℤ) (r : Fin 8) (x : Reg) (long : Bool)
  /-- an absolute address -/
  | abs (a : Addr)
  /-- `a(pc)` -/
  | pcDisp (a : Addr)
  /-- `a(pc,Xn)` -/
  | pcIndex (a : Addr) (x : Reg) (long : Bool)
  /-- `([o,An],p)` -/
  | memInd (o : ℤ) (r : Fin 8) (p : ℤ)
  deriving DecidableEq, Repr

inductive Operand where
  | imm (v : Long)
  | reg (r : Reg)
  | mem (m : Mode)
  deriving DecidableEq, Repr

/-- Whether an operand is an address register. -/
def Operand.isAddr : Operand → Bool
  | .reg (.a _) => true
  | _ => false

/-! ## Instructions -/

/-- The branch conditions. -/
inductive Cond where
  | hi | ls | cc | cs | ne | eq | vc | vs | pl | mi | ge | lt | gt | le
  deriving DecidableEq, Repr

/-- The conditions of `Scc` and `DBcc`. -/
inductive Test where
  | always
  | never
  | on (c : Cond)
  deriving DecidableEq, Repr

/-- **The operations on data**: from sources to a destination, the last operand. -/
inductive Op where
  | move | moveq
  | add | addi | addq | addx
  | sub | subi | subq | subx
  | and | andi | or | ori | eor | eori
  | not | neg | negx | clr | tst | ext | extb | swap
  | asl | asr | lsl | lsr | rol | ror | roxl | roxr
  | mulu | muls
  | btst | bchg | bclr | bset
  | cmp | cmpi | cmpa | cmpm
  | scc (test : Test)
  | tas | abcd | sbcd | nbcd
  deriving DecidableEq, Repr

/-- The operations on an address register, which leave the codes alone. -/
inductive AddrOp where
  | movea | adda | suba
  deriving DecidableEq, Repr

/-- What the manual says of `Z` and `D0` for an instruction it has besides. -/
inductive Known where
  /-- both are left alone -/
  | keeps
  /-- `Z` is set from the whole of what is left in `D0` -/
  | sets
  /-- neither -/
  | free
  deriving DecidableEq, Repr

/-- **An instruction.** -/
inductive Insn where
  | data (o : Op) (sz : Size) (src : List Operand) (dst : Operand)
  | toAddr (o : AddrOp) (sz : Size) (src : Operand) (r : Fin 8)
  | movem (sz : Size) (load : Bool) (regs : List Reg) (m : Mode)
  | exg (r r' : Reg)
  | lea (m : Mode) (r : Fin 8)
  | pea (m : Mode)
  | link (r : Fin 8) (o : ℤ)
  | unlk (r : Fin 8)
  | nop
  | reset
  | bcc (c : Cond) (sz : Size) (target : Addr)
  | bra (sz : Size) (target : Addr)
  | bsr (sz : Size) (target : Addr)
  | jmp (m : Mode)
  | jsr (m : Mode)
  | dbcc (test : Test) (r : Fin 8) (target : Addr)
  | rts
  | other (text : List Char) (known : Known)
  deriving DecidableEq, Repr

/-! ## What is printed -/

def decimal : ℤ → List Char
  | .ofNat n => Nat.toDigits 10 n
  | .negSucc n => '-' :: Nat.toDigits 10 (n + 1)

def hex (n : ℕ) : List Char := '0' :: 'x' :: Nat.toDigits 16 n

/-- Registers carry a `%` in the MIT spelling only. -/
def Spelling.percent : Spelling → List Char
  | .mit => ['%']
  | .motorola => []

/-- The name of a register, without it. -/
def regName : Reg → List Char
  | .d i => ['d', Nat.digitChar i]
  | .a 6 => ['f', 'p']
  | .a 7 => ['s', 'p']
  | .a i => ['a', Nat.digitChar i]

def regText (sp : Spelling) (r : Reg) : List Char := sp.percent ++ regName r

/-- An index register and its size. -/
def indexText (sp : Spelling) (x : Reg) (long : Bool) : List Char :=
  regText sp x ++ [match sp with | .mit => ':' | .motorola => '.', if long then 'l' else 'w']

/-- An addressing mode, in both spellings. -/
def Mode.text : Spelling → Mode → List Char
  | .mit, .ind r => regText .mit (.a r) ++ ['@']
  | .mit, .postinc r => regText .mit (.a r) ++ ['@', '+']
  | .mit, .predec r => regText .mit (.a r) ++ ['@', '-']
  | .mit, .disp o r => regText .mit (.a r) ++ ['@', '('] ++ decimal o ++ [')']
  | .mit, .index o r x long => regText .mit (.a r) ++ ['@', '('] ++ decimal o ++ [','] ++
      indexText .mit x long ++ [')']
  | .mit, .pcDisp a => ['%', 'p', 'c', '@', '('] ++ hex a.toNat ++ [')']
  | .mit, .pcIndex a x long => ['%', 'p', 'c', '@', '('] ++ hex a.toNat ++ [','] ++
      indexText .mit x long ++ [')']
  | .mit, .memInd o r p => regText .mit (.a r) ++ ['@', '('] ++ decimal o ++ [')', '@', '('] ++
      decimal p ++ [')']
  | .motorola, .ind r => ['('] ++ regText .motorola (.a r) ++ [')']
  | .motorola, .postinc r => ['('] ++ regText .motorola (.a r) ++ [')', '+']
  | .motorola, .predec r => ['-', '('] ++ regText .motorola (.a r) ++ [')']
  | .motorola, .disp o r => decimal o ++ ['('] ++ regText .motorola (.a r) ++ [')']
  | .motorola, .index o r x long => decimal o ++ ['('] ++ regText .motorola (.a r) ++ [','] ++
      indexText .motorola x long ++ [')']
  | .motorola, .pcDisp a => hex a.toNat ++ ['(', 'p', 'c', ')']
  | .motorola, .pcIndex a x long => hex a.toNat ++ ['(', 'p', 'c', ','] ++
      indexText .motorola x long ++ [')']
  | .motorola, .memInd o r p => ['(', '['] ++ decimal o ++ [','] ++ regText .motorola (.a r) ++
      [']', ','] ++ decimal p ++ [')']
  | _, .abs a => hex a.toNat

def Operand.text (sp : Spelling) : Operand → List Char
  | .imm v => '#' :: decimal v.toInt
  | .reg r => regText sp r
  | .mem m => m.text sp

/-- The letter of a size. -/
def Size.letter : Size → Char
  | .b => 'b'
  | .w => 'w'
  | .l => 'l'

/-- The size behind a mnemonic: `movel` or `move.l`. -/
def Size.suffix : Spelling → Size → List Char
  | .mit, sz => [sz.letter]
  | .motorola, sz => ['.', sz.letter]

/-- The size behind a branch, whose byte form is the short one. -/
def Size.reach : Spelling → Size → List Char
  | .mit, .b => ['s']
  | .motorola, .b => ['.', 's']
  | sp, sz => sz.suffix sp

def Cond.name : Cond → String
  | .hi => "hi" | .ls => "ls" | .cc => "cc" | .cs => "cs" | .ne => "ne" | .eq => "eq"
  | .vc => "vc" | .vs => "vs" | .pl => "pl" | .mi => "mi" | .ge => "ge" | .lt => "lt"
  | .gt => "gt" | .le => "le"

def Test.name : Test → String
  | .always => "t"
  | .never => "f"
  | .on c => c.name

/-- An operation's mnemonic, without a size. -/
def Op.stem : Op → String
  | .move => "move" | .moveq => "moveq"
  | .add => "add" | .addi => "addi" | .addq => "addq" | .addx => "addx"
  | .sub => "sub" | .subi => "subi" | .subq => "subq" | .subx => "subx"
  | .and => "and" | .andi => "andi" | .or => "or" | .ori => "ori" | .eor => "eor" | .eori => "eori"
  | .not => "not" | .neg => "neg" | .negx => "negx" | .clr => "clr" | .tst => "tst"
  | .ext => "ext" | .extb => "extb" | .swap => "swap"
  | .asl => "asl" | .asr => "asr" | .lsl => "lsl" | .lsr => "lsr"
  | .rol => "rol" | .ror => "ror" | .roxl => "roxl" | .roxr => "roxr"
  | .mulu => "mulu" | .muls => "muls"
  | .btst => "btst" | .bchg => "bchg" | .bclr => "bclr" | .bset => "bset"
  | .cmp => "cmp" | .cmpi => "cmpi" | .cmpa => "cmpa" | .cmpm => "cmpm"
  | .scc test => "s" ++ test.name
  | .tas => "tas" | .abcd => "abcd" | .sbcd => "sbcd" | .nbcd => "nbcd"

def AddrOp.stem : AddrOp → String
  | .movea => "movea"
  | .adda => "adda"
  | .suba => "suba"

/-- Whether its size is printed. -/
def Op.sized : Op → Bool
  | .moveq | .swap | .btst | .bchg | .bclr | .bset | .scc _ | .tas | .abcd | .sbcd | .nbcd => false
  | _ => true

def Op.name (sp : Spelling) (o : Op) (sz : Size) : List Char :=
  o.stem.toList ++ if o.sized then sz.suffix sp else []

/-- The mnemonic of an instruction. -/
def Insn.name (sp : Spelling) : Insn → List Char
  | .data o sz _ _ => o.name sp sz
  | .toAddr o sz _ _ => o.stem.toList ++ sz.suffix sp
  | .movem sz _ _ _ => "movem".toList ++ sz.suffix sp
  | .exg _ _ => "exg".toList
  | .lea _ _ => "lea".toList
  | .pea _ => "pea".toList
  | .link _ _ => "link".toList ++ Size.w.suffix sp
  | .unlk _ => "unlk".toList
  | .nop => "nop".toList
  | .reset => "reset".toList
  | .bcc c sz _ => "b".toList ++ c.name.toList ++ sz.reach sp
  | .bra sz _ => "bra".toList ++ sz.reach sp
  | .bsr sz _ => "bsr".toList ++ sz.reach sp
  | .jmp _ => "jmp".toList
  | .jsr _ => "jsr".toList
  | .dbcc test _ _ => "db".toList ++ test.name.toList
  | .rts => "rts".toList
  | .other _ _ => []

/-- The operands of an instruction that has some. -/
def Insn.args (sp : Spelling) : Insn → Option (List Char)
  | .data _ _ src dst => some ((src.map (Operand.text sp)).flatMap (· ++ [',']) ++ dst.text sp)
  | .toAddr _ _ src r => some (src.text sp ++ [','] ++ regText sp (.a r))
  | .movem _ load regs m =>
    let list := ['/'].intercalate (regs.map (regText sp))
    some (if load then m.text sp ++ [','] ++ list else list ++ [','] ++ m.text sp)
  | .exg r r' => some (regText sp r ++ [','] ++ regText sp r')
  | .lea m r => some (m.text sp ++ [','] ++ regText sp (.a r))
  | .pea m | .jmp m | .jsr m => some (m.text sp)
  | .link r o => some (regText sp (.a r) ++ [',', '#'] ++ decimal o)
  | .unlk r => some (regText sp (.a r))
  | .bcc _ _ a | .bra _ a | .bsr _ a => some (hex a.toNat)
  | .dbcc _ r a => some (regText sp (.d r) ++ [','] ++ hex a.toNat)
  | .nop | .reset | .rts | .other _ _ => none

/-- **What the disassembler prints.** -/
def Insn.text (sp : Spelling) : Insn → List Char
  | .other text _ => text
  | i => i.name sp ++ match i.args sp with
    | none => []
    | some args => ' ' :: args

end IsrCheck
