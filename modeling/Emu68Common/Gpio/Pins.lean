import Emu68Common.Machinery.Fields
import Emu68Common.Machinery.History
import Mathlib.Logic.Function.Basic

/-!
# Gpio/Pins — what the pins are set to, by any number of drivers

A pin's function and its pull are fields of registers that pins share, so they are set by reading
the register, putting the field in and writing the register back; its level is set by one write to a
register where a zero bit means nothing.  Drivers do this a line at a time and without a lock of the
library's.  Levels are therefore always the last ones set.  Functions and pulls are, if no two
drivers are on one register at a time, and then a run is its calls one after another
(`last_set_wins`); a driver that comes in between loses what the other sets of the same register.

    .idle ▸ .merging ▸ .idle        gpioSetPull, gpioSetAlternate
    .idle ▸ .idle                   gpioSetLevel
-/

namespace Gpio

open Machinery

abbrev U32 : Type := BitVec 32

/-! ## The source -/

/-- `enum tGpioPull` -/
inductive GpioPull where
  | GPIO_PULL_OFF
  | GPIO_PULL_UP
  | GPIO_PULL_DOWN
  deriving DecidableEq, Repr

def GpioPull.code : GpioPull → BitVec 2
  | .GPIO_PULL_OFF => 0b00
  | .GPIO_PULL_UP => 0b01
  | .GPIO_PULL_DOWN => 0b10

/-- `enum tGpioAlternativeFunction` -/
inductive GpioAlternativeFunction where
  | GPIO_AF_INPUT
  | GPIO_AF_OUTPUT
  | GPIO_AF_0
  | GPIO_AF_1
  | GPIO_AF_2
  | GPIO_AF_3
  | GPIO_AF_4
  | GPIO_AF_5
  deriving DecidableEq, Repr

def GpioAlternativeFunction.code : GpioAlternativeFunction → BitVec 3
  | .GPIO_AF_INPUT => 0b000
  | .GPIO_AF_OUTPUT => 0b001
  | .GPIO_AF_0 => 0b100
  | .GPIO_AF_1 => 0b101
  | .GPIO_AF_2 => 0b110
  | .GPIO_AF_3 => 0b111
  | .GPIO_AF_4 => 0b011
  | .GPIO_AF_5 => 0b010

/-- `le32`: the bytes the other way round. -/
def le32 (value : U32) : U32 :=
  value.extractLsb' 0 8 ++ value.extractLsb' 8 8 ++ value.extractLsb' 16 8 ++ value.extractLsb' 24 8

/-- The registers that pins share. -/
inductive Bank where
  | GPFSEL
  | GPIO_PUP_PDN_CNTRL_REG
  deriving DecidableEq, Repr

namespace Bank

/-- The bits of a pin. -/
def bits : Bank → ℕ
  | .GPFSEL => 3
  | .GPIO_PUP_PDN_CNTRL_REG => 2

/-- The pins of a register. -/
def pins : Bank → ℕ
  | .GPFSEL => 10
  | .GPIO_PUP_PDN_CNTRL_REG => 16

/-- How many of the registers `tGpioRegs` has. -/
def size : Bank → ℕ
  | .GPFSEL => 6
  | .GPIO_PUP_PDN_CNTRL_REG => 4

end Bank

/-- `tGpioRegs`, what the functions use of it: words as the bus has them, and the output latches
that `GPSET` and `GPCLR` act on. -/
structure GpioRegs where
  words : Bank → ℕ → U32
  latch : ℕ → U32

namespace GpioRegs

/-- `mmio_read32` of a register that pins share. -/
def mmioRead32 (g : GpioRegs) (b : Bank) (i : ℕ) : U32 := le32 (g.words b i)

/-- `mmio_write32` to a register that pins share. -/
def mmioWrite32 (g : GpioRegs) (value : U32) (b : Bank) (i : ℕ) : GpioRegs :=
  { g with words := Function.update g.words b (Function.update (g.words b) i (le32 value)) }

/-- A word on the bus for `GPSET[i]`. -/
def onGPSET (g : GpioRegs) (word : U32) (i : ℕ) : GpioRegs :=
  { g with latch := Function.update g.latch i (g.latch i ||| le32 word) }

/-- A word on the bus for `GPCLR[i]`. -/
def onGPCLR (g : GpioRegs) (word : U32) (i : ℕ) : GpioRegs :=
  { g with latch := Function.update g.latch i (g.latch i &&& ~~~le32 word) }

end GpioRegs

/-- `(read & clear_mask) | write_mask` -/
def merged (b : Bank) (index : ℕ) (value : BitVec b.bits) (read : U32) : U32 :=
  let regShift := index % b.pins * b.bits
  let clearMask := ~~~(fieldMask 32 b.bits <<< regShift)
  let writeMask := value.setWidth 32 <<< regShift
  (read &&& clearMask) ||| writeMask

/-- A pin's field read, put in and written back. -/
def setField (g : GpioRegs) (b : Bank) (index : ℕ) (value : BitVec b.bits) : GpioRegs :=
  let regIndex := index / b.pins
  g.mmioWrite32 (merged b index value (g.mmioRead32 b regIndex)) b regIndex

/-- `gpioSetPull` -/
def gpioSetPull (g : GpioRegs) (index : UInt8) (ePull : GpioPull) : GpioRegs :=
  setField g .GPIO_PUP_PDN_CNTRL_REG index.toNat ePull.code

/-- `gpioSetAlternate` -/
def gpioSetAlternate (g : GpioRegs) (index : UInt8)
    (eAlternativeFunction : GpioAlternativeFunction) : GpioRegs :=
  setField g .GPFSEL index.toNat eAlternativeFunction.code

/-- `gpioSetLevel` -/
def gpioSetLevel (g : GpioRegs) (index state : UInt8) : GpioRegs :=
  let regIndex := index.toNat / 32
  let regShift := index.toNat % 32
  let regState : U32 := 1 <<< regShift
  if state ≠ 0 then g.onGPSET (le32 regState) regIndex else g.onGPCLR (le32 regState) regIndex

/-! ## A line at a time -/

/-- Where a driver is. -/
inductive Place where
  | idle
  /-- the register read, and not written back -/
  | merging (b : Bank) (index : ℕ) (value : BitVec b.bits) (read : U32)

/-- A driver is on this register. -/
def Place.On (b : Bank) (reg : ℕ) : Place → Prop
  | .idle => False
  | .merging b' index _ _ => b' = b ∧ index / b'.pins = reg

/-- What a step was. -/
inductive Event where
  | reads (b : Bank) (reg : ℕ)
  | sets (b : Bank) (index : ℕ) (value : BitVec b.bits)
  | level (index state : UInt8)

/-- The registers, and where each driver is. -/
structure State (T : Type) where
  regs : GpioRegs
  place : T → Place

variable {T : Type}

/-- Any registers, and nobody at them. -/
def Start (g : GpioRegs) (s : State T) : Prop := s.regs = g ∧ ∀ t, s.place t = .idle

section Steps

variable [DecidableEq T]

/-- A driver at another place. -/
def State.go (s : State T) (t : T) (p : Place) (regs : GpioRegs) : State T :=
  ⟨regs, Function.update s.place t p⟩

/-- **One step** of a driver, for a pin that `tGpioRegs` has a register for. -/
inductive Step (s : State T) : Event → State T → Prop where
  | read (t : T) (b : Bank) (index : UInt8) (value : BitVec b.bits) (h : s.place t = .idle)
    (hin : index.toNat / b.pins < b.size) :
    Step s (.reads b (index.toNat / b.pins)) (s.go t
      (.merging b index.toNat value (s.regs.mmioRead32 b (index.toNat / b.pins))) s.regs)
  | write (t : T) (b : Bank) (index : ℕ) (value : BitVec b.bits) (read : U32)
    (h : s.place t = .merging b index value read) :
    Step s (.sets b index value)
      (s.go t .idle (s.regs.mmioWrite32 (merged b index value read) b (index / b.pins)))
  | level (t : T) (index state : UInt8) (h : s.place t = .idle) (hin : index.toNat / 32 < 2) :
    Step s (.level index state) (s.go t .idle (gpioSetLevel s.regs index state))

end Steps

/-- **Nobody else is on a register that is read.** -/
def Alone (s : State T) : Event → Prop
  | .reads b reg => ∀ t, ¬ (s.place t).On b reg
  | _ => True

/-! ## What pins are set to -/

/-- A pin's field. -/
def GpioRegs.field (g : GpioRegs) (b : Bank) (index : ℕ) : BitVec b.bits :=
  getField b.bits (index % b.pins) (g.mmioRead32 b (index / b.pins))

/-- What a pin puts out. -/
def GpioRegs.level (g : GpioRegs) (index : ℕ) : Bool :=
  (g.latch (index / 32)).getLsbD (index % 32)

/-- What a step sets a pin's field to. -/
def Event.fieldOf (b : Bank) (index : ℕ) : Event → Option (BitVec b.bits)
  | .sets b' i value => if h : b' = b then if i = index then some (h ▸ value) else none else none
  | _ => none

/-- What a step sets a pin's level to. -/
def Event.levelOf (index : ℕ) : Event → Option Bool
  | .level i state => if i.toNat = index then some (state ≠ 0) else none
  | _ => none

/-- A call at once. -/
def Event.exec (g : GpioRegs) : Event → GpioRegs
  | .reads _ _ => g
  | .sets b index value => setField g b index value
  | .level index state => gpioSetLevel g index state

/-- **Calls, one after another**, the newest first. -/
def replay (g : GpioRegs) (es : List Event) : GpioRegs := es.foldr (fun e g => e.exec g) g

/-! ## Words and fields -/

/-- A bit of a word with its bytes the other way round. -/
theorem getLsbD_le32 (value : U32) {i : ℕ} (hi : i < 32) :
    (le32 value).getLsbD i = value.getLsbD (24 - i / 8 * 8 + i % 8) := by
  simp only [le32, BitVec.getLsbD_append, BitVec.getLsbD_extractLsb']
  split
  · next h =>
    rw [decide_eq_true h, Bool.true_and]
    exact congrArg value.getLsbD (by omega)
  · split
    · next h =>
      rw [decide_eq_true h, Bool.true_and]
      exact congrArg value.getLsbD (by omega)
    · split
      · next h =>
        rw [decide_eq_true h, Bool.true_and]
        exact congrArg value.getLsbD (by omega)
      · rw [decide_eq_true (by omega), Bool.true_and]
        exact congrArg value.getLsbD (by omega)

/-- **The bus order is undone by itself.** -/
theorem le32_le32 (value : U32) : le32 (le32 value) = value := by
  ext i hi
  rw [← BitVec.getLsbD_eq_getElem hi, getLsbD_le32 _ hi, getLsbD_le32 _ (by omega),
    ← BitVec.getLsbD_eq_getElem hi]
  exact congrArg value.getLsbD (by omega)

variable {g : GpioRegs} {b b' : Bank} {index i reg : ℕ} {value : BitVec b.bits} {word : U32}

theorem mmioRead32_write32 :
    (g.mmioWrite32 word b reg).mmioRead32 b' i =
      if b' = b ∧ i = reg then word else g.mmioRead32 b' i := by
  change le32 (Function.update g.words b (Function.update (g.words b) reg (le32 word)) b' i) = _
  split
  · next h =>
    obtain ⟨rfl, rfl⟩ := h
    rw [Function.update_self, Function.update_self, le32_le32]
  · next h =>
    by_cases hb : b' = b
    · subst hb
      rw [Function.update_self, Function.update_of_ne fun hi => h ⟨rfl, hi⟩]
      rfl
    · rw [Function.update_of_ne hb]
      rfl

/-- A register has all its pins. -/
theorem field_fits (b : Bank) (index : ℕ) : index % b.pins * b.bits + b.bits ≤ 32 := by
  cases b with
  | GPFSEL =>
    change index % 10 * 3 + 3 ≤ 32
    omega
  | GPIO_PUP_PDN_CNTRL_REG =>
    change index % 16 * 2 + 2 ≤ 32
    omega

/-- Two pins of one register have fields apart. -/
theorem mod_pins_ne (hreg : i / b.pins = index / b.pins) (hne : i ≠ index) :
    i % b.pins ≠ index % b.pins := by
  intro hmod
  refine hne ?_
  rw [← Nat.div_add_mod i b.pins, ← Nat.div_add_mod index b.pins, hreg, hmod]

/-- **What a register is written with** has the pin's field in it, and the fields it was read
with. -/
theorem field_merged :
    (g.mmioWrite32 (merged b index value word) b (index / b.pins)).field b i =
      if i = index then value
      else if i / b.pins = index / b.pins then getField b.bits (i % b.pins) word
      else g.field b i := by
  rw [GpioRegs.field, mmioRead32_write32]
  by_cases hreg : i / b.pins = index / b.pins
  · rw [if_pos ⟨rfl, hreg⟩, if_pos hreg]
    split
    · next h =>
      subst h
      exact getField_putField_self (field_fits b i)
    · next h => exact getField_putField_of_ne (mod_pins_ne hreg h)
  · rw [if_neg fun h => hreg h.2, if_neg hreg, if_neg fun h => hreg (congrArg (· / b.pins) h)]
    rfl

/-- The pins of other registers stay. -/
theorem field_write_of_ne (h : b' ≠ b) : (g.mmioWrite32 word b reg).field b' i = g.field b' i := by
  rw [GpioRegs.field, mmioRead32_write32, if_neg fun h' => h h'.1]
  rfl

/-- **A field is set, and no other.** -/
theorem field_setField : (setField g b index value).field b i =
    if i = index then value else g.field b i := by
  rw [setField, field_merged]
  split
  · rfl
  · split
    · next hreg =>
      rw [← hreg]
      rfl
    · rfl

/-- **A level is set, and no other.** -/
theorem level_gpioSetLevel (index state : UInt8) : (gpioSetLevel g index state).level i =
    if index.toNat = i then decide (state ≠ 0) else g.level i := by
  let reg := index.toNat / 32
  let regState : U32 := 1 <<< (index.toNat % 32)
  have hmask : ∀ k, regState.getLsbD k = decide (index.toNat % 32 = k) := by
    intro k
    have hlt : index.toNat % 32 < 32 := Nat.mod_lt _ (by decide)
    change (BitVec.twoPow 32 (index.toNat % 32)).getLsbD k = _
    rw [BitVec.getLsbD_twoPow, decide_eq_true hlt, Bool.true_and]
  have hlatch : (gpioSetLevel g index state).latch = Function.update g.latch reg
      (if state ≠ 0 then g.latch reg ||| regState else g.latch reg &&& ~~~regState) := by
    rw [gpioSetLevel]
    split
    · exact congrArg (Function.update g.latch reg) (congrArg _ (le32_le32 _))
    · exact congrArg (Function.update g.latch reg) (congrArg (g.latch reg &&& ~~~·) (le32_le32 _))
  rw [GpioRegs.level, hlatch]
  by_cases hreg : i / 32 = reg
  · rw [hreg, Function.update_self]
    have hsame : index.toNat % 32 = i % 32 ↔ index.toNat = i := by omega
    have hlt : i % 32 < 32 := Nat.mod_lt _ (by decide)
    split
    · next h =>
      rw [BitVec.getLsbD_or, hmask, decide_eq_true h]
      split
      · next heq => rw [decide_eq_true (hsame.mpr heq), Bool.or_true]
      · next hne =>
        rw [decide_eq_false (mt hsame.mp hne), Bool.or_false, ← hreg]
        rfl
    · next h =>
      rw [BitVec.getLsbD_and, BitVec.getLsbD_not, hmask, decide_eq_true hlt, Bool.true_and,
        decide_eq_false h]
      split
      · next heq => rw [decide_eq_true (hsame.mpr heq), Bool.not_true, Bool.and_false]
      · next hne =>
        rw [decide_eq_false (mt hsame.mp hne), Bool.not_false, Bool.and_true, ← hreg]
        rfl
  · rw [Function.update_of_ne hreg, if_neg fun h => hreg (congrArg (· / 32) h.symm)]
    rfl

/-! ## Calls, one after another -/

variable {e : Event} {es : List Event}

/-- **A call sets what it is for**, and leaves every other field. -/
theorem field_exec (g : GpioRegs) (e : Event) (b : Bank) (i : ℕ) :
    (e.exec g).field b i = (e.fieldOf b i).getD (g.field b i) := by
  cases e with
  | reads _ _ => rfl
  | sets b' index value =>
    rw [Event.exec, Event.fieldOf]
    split
    · next h =>
      subst h
      rw [field_setField]
      split
      · next heq => rw [if_pos heq.symm, Option.getD_some]
      · next hne => rw [if_neg (Ne.symm hne), Option.getD_none]
    · next hne => exact field_write_of_ne (Ne.symm hne)
  | level index state =>
    rw [Event.exec, gpioSetLevel]
    split
    · rfl
    · rfl

theorem level_exec (g : GpioRegs) (e : Event) (i : ℕ) :
    (e.exec g).level i = (e.levelOf i).getD (g.level i) := by
  cases e with
  | reads _ _ => rfl
  | sets _ _ _ => rfl
  | level index state =>
    rw [Event.exec, Event.levelOf, level_gpioSetLevel]
    split
    · rfl
    · rfl

/-- **Every field is the last one set**, one call after another. -/
theorem field_replay (g : GpioRegs) (es : List Event) (b : Bank) (i : ℕ) :
    (replay g es).field b i = (es.findSome? (Event.fieldOf b i)).getD (g.field b i) := by
  induction es with
  | nil => rfl
  | cons e es ih =>
    rw [List.findSome?_cons]
    refine (field_exec (replay g es) e b i).trans ?_
    cases e.fieldOf b i with
    | none => exact ih
    | some value => rfl

/-! ## In any order -/

variable [DecidableEq T] {s s' : State T} {t : T}

/-- **`gpioSetPull` is its two lines**, when nobody comes in between. -/
theorem steps_gpioSetPull {index : UInt8} (h : s.place t = .idle) (hin : index.toNat / 16 < 4)
    (ePull : GpioPull) : ∃ s₁ s₂ : State T, ∃ e₁ e₂, Step s e₁ s₁ ∧ Step s₁ e₂ s₂ ∧
      s₂.regs = gpioSetPull s.regs index ePull :=
  ⟨_, _, _, _, .read t .GPIO_PUP_PDN_CNTRL_REG index ePull.code h hin,
    .write t .GPIO_PUP_PDN_CNTRL_REG index.toNat ePull.code _ (Function.update_self ..), rfl⟩

/-- **`gpioSetAlternate` is its two lines**, when nobody comes in between. -/
theorem steps_gpioSetAlternate {index : UInt8} (h : s.place t = .idle)
    (hin : index.toNat / 10 < 6) (eAlternativeFunction : GpioAlternativeFunction) :
    ∃ s₁ s₂ : State T, ∃ e₁ e₂, Step s e₁ s₁ ∧ Step s₁ e₂ s₂ ∧
      s₂.regs = gpioSetAlternate s.regs index eAlternativeFunction :=
  ⟨_, _, _, _, .read t .GPFSEL index eAlternativeFunction.code h hin,
    .write t .GPFSEL index.toNat eAlternativeFunction.code _ (Function.update_self ..), rfl⟩

/-- **Every level is the last one set**, whoever else is at the registers. -/
theorem level_of_history (h : History (Start g) Step es s) (i : ℕ) :
    s.regs.level i = (es.findSome? (Event.levelOf i)).getD (g.level i) := by
  induction h with
  | start h => rw [h.1]; rfl
  | next _ hs ih =>
    rw [List.findSome?_cons]
    cases hs with
    | read t b index value hp hin => exact ih
    | write t b index value read hp => exact ih
    | level t index state hp hin =>
      refine (level_exec _ (.level index state) i).trans ?_
      cases (Event.level index state).levelOf i with
      | none => exact ih
      | some state => rfl

/-- **With one driver on a register at a time**, what was read is what there is. -/
structure Inv (g : GpioRegs) (es : List Event) (s : State T) : Prop where
  regs : s.regs = replay g es
  fresh : ∀ t b index value read, s.place t = .merging b index value read →
    read = s.regs.mmioRead32 b (index / b.pins)
  alone : ∀ t u b reg, (s.place t).On b reg → (s.place u).On b reg → t = u

namespace Inv

omit [DecidableEq T] in
theorem of_start (h : Start g s) : Inv g [] s := by
  obtain ⟨hregs, hidle⟩ := h
  refine ⟨hregs, fun t b index value read hp => ?_, fun t u b reg ht _ => ?_⟩
  · rw [hidle t] at hp
    cases hp
  · rw [hidle t] at ht
    exact ht.elim

theorem go_place (t u : T) (p : Place) (regs : GpioRegs) :
    (s.go t p regs).place u = if u = t then p else s.place u := Function.update_apply s.place t p u

/-- A driver that comes to a register that nobody is on is alone there. -/
theorem alone_enter (h : Inv g es s) {t u v : T} {b b' : Bank} {index reg : ℕ}
    {value : BitVec b.bits} {read : U32} {regs : GpioRegs}
    (hfree : ∀ u, ¬ (s.place u).On b (index / b.pins))
    (hu : ((s.go t (.merging b index value read) regs).place u).On b' reg)
    (hv : ((s.go t (.merging b index value read) regs).place v).On b' reg) : u = v := by
  rw [go_place] at hu hv
  by_cases hut : u = t
  · by_cases hvt : v = t
    · exact hut.trans hvt.symm
    · rw [if_pos hut] at hu
      rw [if_neg hvt] at hv
      obtain ⟨rfl, rfl⟩ := hu
      exact absurd hv (hfree v)
  · rw [if_neg hut] at hu
    by_cases hvt : v = t
    · rw [if_pos hvt] at hv
      obtain ⟨rfl, rfl⟩ := hv
      exact absurd hu (hfree u)
    · rw [if_neg hvt] at hv
      exact h.alone u v b' reg hu hv

/-- A driver that leaves its register leaves the others where they are. -/
theorem alone_leave (h : Inv g es s) {t u v : T} {b : Bank} {reg : ℕ} {regs : GpioRegs}
    (hu : ((s.go t .idle regs).place u).On b reg) (hv : ((s.go t .idle regs).place v).On b reg) :
    u = v := by
  rw [go_place] at hu hv
  split at hu
  · exact hu.elim
  · split at hv
    · exact hv.elim
    · exact h.alone u v b reg hu hv

theorem next (h : Inv g es s) (hs : Step s e s') (hok : Alone s e) : Inv g (e :: es) s' := by
  cases hs with
  | read t b index value hp hin =>
    refine ⟨h.regs, fun u b' i v read hu => ?_, fun u v b' reg => h.alone_enter hok⟩
    rw [go_place] at hu
    split at hu
    · cases hu
      rfl
    · exact h.fresh u b' i v read hu
  | write t b index value read hp =>
    have hread := h.fresh t b index value read hp
    refine ⟨?_, fun u b' i v read' hu => ?_, fun u v b' reg => h.alone_leave⟩
    · subst hread
      exact congrArg (setField · b index value) h.regs
    · rw [go_place] at hu
      split at hu
      · cases hu
      · next hne =>
        refine (h.fresh u b' i v read' hu).trans ?_
        refine ((mmioRead32_write32).trans (if_neg fun hsame => hne ?_)).symm
        exact h.alone u t b (index / b.pins) (by rw [hu]; exact hsame)
          (by rw [hp]; exact ⟨rfl, rfl⟩)
  | level t index state hp hin =>
    have hwords : (gpioSetLevel s.regs index state).words = s.regs.words := by
      rw [gpioSetLevel]
      split <;> rfl
    refine ⟨congrArg (gpioSetLevel · index state) h.regs, fun u b' i v read hu => ?_,
      fun u v b' reg => h.alone_leave⟩
    rw [go_place] at hu
    split at hu
    · cases hu
    · refine (h.fresh u b' i v read hu).trans ?_
      change le32 (s.regs.words _ _) = le32 ((gpioSetLevel s.regs index state).words _ _)
      rw [hwords]

/-- One more step of drivers that keep off each other's registers. -/
theorem alone_next (h : History (Start g) (Restrict Alone Step) es s) (hs : Step s e s')
    (hok : Alone s e) : History (Start g) (Restrict Alone Step) (e :: es) s' := h.next ⟨hok, hs⟩

theorem of_history (h : History (Start g) (Restrict Alone Step) es s) : Inv g es s :=
  h.invariant (Inv g) (fun _ h => of_start h) fun _ _ _ _ h hs => h.next hs.2 hs.1

end Inv

/-- **A pin is what it was last set to**: in every run of any number of drivers, levels are; a set
of a function or a pull puts in the pin's field, and touches no pin of another register; and when no
two drivers are on one register at a time, the registers are what the calls make of them one after
another, and every function and pull is the last one set. -/
theorem last_set_wins (h : History (Start g) Step es s) :
    (∀ i, s.regs.level i = (es.findSome? (Event.levelOf i)).getD (g.level i)) ∧
    (∀ b index value s', Step s (.sets b index value) s' → s'.regs.field b index = value ∧
      ∀ b' i, b' ≠ b ∨ i / b'.pins ≠ index / b.pins → s'.regs.field b' i = s.regs.field b' i) ∧
    (History (Start g) (Restrict Alone Step) es s → s.regs = replay g es ∧
      ∀ b i, s.regs.field b i = (es.findSome? (Event.fieldOf b i)).getD (g.field b i)) := by
  refine ⟨level_of_history h, fun b index value s' hs => ?_, fun halone => ?_⟩
  · cases hs with
    | write t _ _ _ read hp =>
      refine ⟨field_merged.trans (if_pos rfl), fun b' i hother => ?_⟩
      by_cases hb : b' = b
      · subst hb
        have hreg := hother.resolve_left (not_not_intro rfl)
        exact field_merged.trans ((if_neg fun heq => hreg (congrArg (· / b'.pins) heq)).trans
          (if_neg hreg))
      · exact field_write_of_ne hb
  · have hregs := (Inv.of_history halone).regs
    refine ⟨hregs, fun b i => ?_⟩
    rw [hregs]
    exact field_replay g es b i

/-- Two drivers give the pins of the management interface to it, and a third pin goes high in
between. -/
theorem last_set_wins_rgmii : ∃ (es : List Event) (s : State Bool),
    History (Start ⟨fun _ _ => 0, fun _ => 0⟩) Step es s ∧ s.regs.level 40 = true ∧
      s.regs.field .GPFSEL 28 = GpioAlternativeFunction.GPIO_AF_5.code ∧
      s.regs.field .GPFSEL 29 = GpioAlternativeFunction.GPIO_AF_5.code := by
  let s₀ : State Bool := ⟨⟨fun _ _ => 0, fun _ => 0⟩, fun _ => .idle⟩
  have h₀ : History (Start s₀.regs) (Restrict Alone Step) [] s₀ := .start ⟨rfl, fun _ => rfl⟩
  have h₁ := Inv.alone_next h₀
    (.read false .GPFSEL 28 GpioAlternativeFunction.GPIO_AF_5.code rfl (by decide)) fun _ h => h
  have h₂ := Inv.alone_next h₁ (.level true 40 1 rfl (by decide)) trivial
  have h₃ := Inv.alone_next h₂ (.write false .GPFSEL 28 _ _ rfl) trivial
  have h₄ := Inv.alone_next h₃
    (.read true .GPFSEL 29 GpioAlternativeFunction.GPIO_AF_5.code rfl (by decide))
    (by rintro (_ | _) h <;> exact h)
  have h₅ := Inv.alone_next h₄ (.write true .GPFSEL 29 _ _ rfl) trivial
  obtain ⟨hlevel, -, hfields⟩ := last_set_wins h₅.of_restrict
  obtain ⟨-, hfields⟩ := hfields h₅
  exact ⟨_, _, h₅.of_restrict, hlevel 40, hfields .GPFSEL 28, hfields .GPFSEL 29⟩

end Gpio
