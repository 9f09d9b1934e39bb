import Emu68Common.Text.Format

/-!
# Text/Fmt — `fmt_core`, the stack's one printf engine

`fmt_core` scans the format once: it reads the flags, the width, the precision and the modifiers of
a directive, builds what the type asks for in a twelve-byte buffer or finds it in memory, and hands
every character to its front end's `putch`.  Widths, precisions and lengths are `LONG`s.

    Engine σ α       what a front end supplies: `putch`, the next argument cell, the memory
    Field            what the switch over the type leaves for the code behind it
    fmt_core e n f   the engine, if `n` steps are enough for each of its loops
-/

namespace Printf

open Machinery

variable {σ α : Type}

/-- A `LONG`, from the integer a computation would give. -/
def long (z : ℤ) : ℤ := z.bmod (2 ^ 32)

/-- **What a front end supplies.** -/
structure Engine (σ α : Type) where
  putch : UInt8 → σ → σ
  next : α → BitVec 32 × α
  mem : Block

/-! ## Emitting -/

/-- `fmt_emit`. -/
def fmtEmit (e : Engine σ α) (s : Block) : ℕ → ℕ → σ → σ
  | _, 0, out => out
  | p, len + 1, out => fmtEmit e s (p + 1) len (e.putch (s p) out)

/-- `fmt_pad`: `while (count-- > 0) putch(pad, out);` -/
def fmtPad (e : Engine σ α) (pad : UInt8) (count : ℤ) (out : σ) : σ :=
  (e.putch pad)^[count.toNat] out

/-- `"0123456789ABCDEF"` or `"0123456789abcdef"`. -/
def dig (upper : Bool) : List UInt8 :=
  (if upper then "0123456789ABCDEF" else "0123456789abcdef").toList.map Char.toUInt8

/-- `fmt_digits`: the digits go into the buffer from its end, where there is room for them; what is
left is where the first one stands. -/
def fmtDigits (radix : ℕ) (upper : Bool) : ℕ → Block → ℕ → Option (Block × ℕ)
  | 0, _, _ => none
  | p + 1, buf, v =>
    let buf : Block := Function.update buf p ((dig upper).getD (v % radix) 0)
    if v / radix ≠ 0 then fmtDigits radix upper p buf (v / radix) else some (buf, p)

/-! ## Scanning a directive -/

/-- `while (*f == '-' || *f == '0')`. -/
def fmtFlags : List UInt8 → Bool → Bool → Bool × Bool × List UInt8
  | [], left, zero => (left, zero, [])
  | c :: f, left, zero =>
    if c = '-'.toUInt8 then fmtFlags f true zero
    else if c = '0'.toUInt8 then fmtFlags f left true
    else (left, zero, c :: f)

/-- `while (*f >= '0' && *f <= '9') v = v * 10 + (*f++ - '0');` -/
def fmtNumber : List UInt8 → ℤ → ℤ × List UInt8
  | [], v => (v, [])
  | c :: f, v =>
    if '0'.toUInt8 ≤ c ∧ c ≤ '9'.toUInt8 then
      fmtNumber f (long (long (v * 10) + ((c.toNat : ℤ) - 48)))
    else (v, c :: f)

/-- The precision, -1 if there is none. -/
def fmtPrec : List UInt8 → ℤ × List UInt8
  | [] => (-1, [])
  | c :: f => if c = '.'.toUInt8 then fmtNumber f 0 else (-1, c :: f)

/-- `while (*f == 'h' || *f == 'l' || *f == 'z') f++;` -/
def fmtModifiers : List UInt8 → List UInt8
  | [] => []
  | c :: f =>
    if c = 'h'.toUInt8 ∨ c = 'l'.toUInt8 ∨ c = 'z'.toUInt8 then fmtModifiers f else c :: f

/-! ## The switch -/

/-- What the code behind the switch works on: the characters, where they start and how many there
are, whether a minus goes before them, what they are filled with and to which width. -/
structure Field where
  body : Block
  start : ℕ
  len : ℤ
  negative : Bool
  pad : UInt8
  width : ℤ

/-- `while (s[len] != '\0' && (prec < 0 || len < prec)) len++;` -/
def fmtLen (s : Block) (p : ℕ) (prec : ℤ) : ℕ → ℤ → Option ℤ
  | 0, _ => none
  | n + 1, len =>
    if s (p + len).toNat ≠ 0 ∧ (prec < 0 ∨ len < prec) then fmtLen s p prec n (long (len + 1))
    else some len

/-- `"(null)"`. -/
def nullBlock : Block := fun i => nullText.getD i 0

/-- `end`, past the last byte of `char buf[12]`. -/
def bufEnd : ℕ := 12

/-- `fmt_digits(end, v, radix, upper)` and `len = end - body`. -/
def fmtNumeral (radix : ℕ) (upper : Bool) (v : ℕ) (negative : Bool) (pad : UInt8) (width : ℤ) :
    Option Field := do
  let (buf, body) ← fmtDigits radix upper bufEnd (fun _ => 0) v
  return ⟨buf, body, long ((bufEnd : ℤ) - body), negative, pad, width⟩

/-- `switch (conv)`; no field is the default case. -/
def fmtSwitch (e : Engine σ α) (n : ℕ) (conv : UInt8) (width prec : ℤ) (pad : UInt8) (args : α) :
    Option (Option Field × α) :=
  if conv = 's'.toUInt8 then do
    let (cell, args) := e.next args
    let (s, p) := if cell = 0 then (nullBlock, 0) else (e.mem, cell.toNat)
    let len ← fmtLen s p prec n 0
    return (some ⟨s, p, len, false, ' '.toUInt8, width⟩, args)
  else if conv = 'c'.toUInt8 then
    let (cell, args) := e.next args
    some (some ⟨Function.update (fun _ => 0) 0 (UInt8.ofNat cell.toNat), 0, 1, false, ' '.toUInt8,
      width⟩, args)
  else if conv = 'd'.toUInt8 ∨ conv = 'i'.toUInt8 then do
    let (cell, args) := e.next args
    let negative := decide (cell.toInt < 0)
    let field ← fmtNumeral 10 false (if negative then 0 - cell else cell).toNat negative pad width
    return (some field, args)
  else if conv = 'u'.toUInt8 then do
    let (cell, args) := e.next args
    let field ← fmtNumeral 10 false cell.toNat false pad width
    return (some field, args)
  else if conv = 'x'.toUInt8 ∨ conv = 'X'.toUInt8 then do
    let (cell, args) := e.next args
    let field ← fmtNumeral 16 (conv == 'X'.toUInt8) cell.toNat false pad width
    return (some field, args)
  else if conv = 'p'.toUInt8 then do
    let (cell, args) := e.next args
    let width := if width < 8 then 8 else width
    let field ← fmtNumeral 16 false cell.toNat false '0'.toUInt8 width
    return (some field, args)
  else if conv = '%'.toUInt8 then
    some (some ⟨Function.update (fun _ => 0) 0 '%'.toUInt8, 0, 1, false, ' '.toUInt8, width⟩, args)
  else some (none, args)

/-- The code behind the switch. -/
def fmtField (e : Engine σ α) (left : Bool) (w : Field) (out : σ) : σ :=
  let fill := long (long (w.width - w.len) - if w.negative then 1 else 0)
  let out := if !left && w.pad == ' '.toUInt8 then fmtPad e ' '.toUInt8 fill out else out
  let out := if w.negative then e.putch '-'.toUInt8 out else out
  let out := if !left && w.pad == '0'.toUInt8 then fmtPad e '0'.toUInt8 fill out else out
  let out := fmtEmit e w.body w.start w.len.toNat out
  if left then fmtPad e ' '.toUInt8 fill out else out

/-! ## The engine -/

/-- **`fmt_core(putch, out, format, next, args)`**; what is left is what was put out and the cells
not taken. -/
def fmtCore (e : Engine σ α) : ℕ → List UInt8 → σ → α → Option (σ × α)
  | 0, _, _, _ => none
  | _ + 1, [], out, args => some (out, args)
  | n + 1, c :: f, out, args =>
    if c ≠ '%'.toUInt8 then fmtCore e n f (e.putch c out) args
    else
      let (left, zero, f) := fmtFlags f false false
      let (width, f) := fmtNumber f 0
      let (prec, f) := fmtPrec f
      let f := fmtModifiers f
      let pad := if zero && !left then '0'.toUInt8 else ' '.toUInt8
      let conv := f.headD 0
      match fmtSwitch e n conv width prec pad args with
      | none => none
      | some (some w, args) => fmtCore e n f.tail (fmtField e left w out) args
      | some (none, args) =>
        let out := e.putch '%'.toUInt8 out
        fmtCore e n f.tail (if conv ≠ 0 then e.putch conv out else out) args

end Printf
