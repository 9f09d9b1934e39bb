import Emu68Common.Machinery.Text
import Mathlib.Algebra.Group.Nat.Defs

/-!
# Text/Format — the format language of the stack's printf

A format is literal characters and directives `%[-0]*digits*[.digits*][hlz]*type`, each read as far
as it goes (`pieces`).  A directive that takes an argument takes one 32-bit cell; what it prints is
`Directive.bytes`, and what a whole format prints is `render`.

    directive f          the directive behind a `%`, and what comes after it
    pieces f             the characters and directives of a format
    render mem ps cells  what they print, the cells taken in order
-/

namespace Printf

open Machinery

variable {f : List UInt8} {n m : ℕ}

/-! ## The grammar -/

/-- The characters `c` is one of. -/
def oneOf (s : List Char) (c : UInt8) : Bool := s.any fun d => c == d.toUInt8

/-- `-` or `0`. -/
abbrev isFlag : UInt8 → Bool := oneOf ['-', '0']

/-- A decimal digit. -/
def isDigit (c : UInt8) : Bool := '0'.toUInt8 ≤ c && c ≤ '9'.toUInt8

/-- `h`, `l` or `z`. -/
abbrev isModifier : UInt8 → Bool := oneOf ['h', 'l', 'z']

/-- **A directive**: its flags, its width, its precision if it has one, and its type character
unless the format ends before it. -/
structure Directive where
  left : Bool
  zero : Bool
  width : ℕ
  prec : Option ℕ
  type : Option UInt8
  deriving DecidableEq, Repr

/-- A decimal numeral. -/
def value (l : List UInt8) : ℕ := l.foldl (fun v c => v * 10 + (c.toNat - 48)) 0

/-- The precision, from its point on. -/
def precision : List UInt8 → Option ℕ × List UInt8
  | c :: f =>
    if c = '.'.toUInt8 then (some (value (f.takeWhile isDigit)), f.dropWhile isDigit)
    else (none, c :: f)
  | [] => (none, [])

/-- **The directive behind a `%`**, every part of it as long as it can be, and what is left. -/
def directive (f : List UInt8) : Directive × List UInt8 :=
  let flags := f.takeWhile isFlag
  let f := f.dropWhile isFlag
  let width := value (f.takeWhile isDigit)
  let f := f.dropWhile isDigit
  let (prec, f) := precision f
  let f := f.dropWhile isModifier
  (⟨flags.contains '-'.toUInt8, flags.contains '0'.toUInt8, width, prec, f.head?⟩, f.tail)

/-- A character that stands for itself, or a directive. -/
inductive Piece where
  | lit (c : UInt8)
  | directive (d : Directive)
  deriving DecidableEq, Repr

/-- The pieces of a format no longer than this. -/
def piecesOf : ℕ → List UInt8 → List Piece
  | 0, _ => []
  | _ + 1, [] => []
  | n + 1, c :: f =>
    if c = '%'.toUInt8 then .directive (directive f).1 :: piecesOf n (directive f).2
    else .lit c :: piecesOf n f

/-- **The pieces of a format.** -/
def pieces (f : List UInt8) : List Piece := piecesOf f.length f

/-- The numeral read so far never comes out larger than the whole of it. -/
theorem le_foldl_value (l : List UInt8) (v : ℕ) :
    v ≤ l.foldl (fun v c => v * 10 + (c.toNat - 48)) v := by
  induction l generalizing v with
  | nil => exact le_rfl
  | cons c l ih => exact (by omega : v ≤ v * 10 + (c.toNat - 48)).trans (ih _)

theorem precision_suffix (f : List UInt8) : (precision f).2 <:+ f := by
  cases f with
  | nil => exact List.suffix_rfl
  | cons c f =>
    rw [precision]
    split
    · exact (List.dropWhile_suffix _).trans (List.suffix_cons c f)
    · exact List.suffix_rfl

/-- What a directive is read from, up to its type character. -/
theorem scanned_suffix (f : List UInt8) :
    (precision ((f.dropWhile isFlag).dropWhile isDigit)).2.dropWhile isModifier <:+ f :=
  (List.dropWhile_suffix _).trans ((precision_suffix _).trans
    ((List.dropWhile_suffix _).trans (List.dropWhile_suffix _)))

theorem directive_suffix (f : List UInt8) : (directive f).2 <:+ f :=
  (List.tail_suffix _).trans (scanned_suffix f)

theorem length_directive : (directive f).2.length ≤ f.length := (directive_suffix f).length_le

theorem piecesOf_eq (hn : f.length ≤ n) (hm : f.length ≤ m) : piecesOf n f = piecesOf m f := by
  induction n generalizing f m with
  | zero =>
    obtain rfl := List.eq_nil_of_length_eq_zero (Nat.le_zero.mp hn)
    cases m <;> rfl
  | succ n ih =>
    cases f with
    | nil => cases m <;> rfl
    | cons c f =>
      obtain ⟨m, rfl⟩ := Nat.exists_eq_add_of_le' (Nat.zero_lt_of_lt hm)
      have hn' := Nat.le_of_succ_le_succ hn
      have hm' := Nat.le_of_succ_le_succ hm
      rw [piecesOf, piecesOf, ih hn' hm',
        ih (length_directive.trans hn') (length_directive.trans hm')]

@[simp] theorem pieces_nil : pieces [] = [] := rfl

theorem pieces_lit {c : UInt8} (hc : c ≠ '%'.toUInt8) : pieces (c :: f) = .lit c :: pieces f := by
  rw [pieces, List.length_cons, piecesOf, if_neg hc, pieces]

theorem pieces_directive :
    pieces ('%'.toUInt8 :: f) = .directive (directive f).1 :: pieces (directive f).2 := by
  rw [pieces, List.length_cons, piecesOf, if_pos rfl, pieces, piecesOf_eq length_directive le_rfl]

/-! ## What a directive prints -/

/-- What a type character asks for. -/
inductive Conversion where
  | string
  | char
  | signed
  | unsigned
  | hex (upper : Bool)
  | pointer
  | percent
  deriving DecidableEq, Repr

/-- The conversion a type character stands for, if it is one of the language. -/
def conversion (c : UInt8) : Option Conversion :=
  if c = 's'.toUInt8 then some .string
  else if c = 'c'.toUInt8 then some .char
  else if c = 'd'.toUInt8 ∨ c = 'i'.toUInt8 then some .signed
  else if c = 'u'.toUInt8 then some .unsigned
  else if c = 'x'.toUInt8 then some (.hex false)
  else if c = 'X'.toUInt8 then some (.hex true)
  else if c = 'p'.toUInt8 then some .pointer
  else if c = '%'.toUInt8 then some .percent
  else none

/-- The conversion of a directive, if it has a type character and that is one of the language. -/
def Directive.conversion (d : Directive) : Option Conversion := d.type.bind Printf.conversion

/-- Whether a cell is taken. -/
def Conversion.takes : Conversion → Bool
  | .percent => false
  | _ => true

/-- Whether a directive takes a cell. -/
def Directive.takes (d : Directive) : Bool := d.conversion.any Conversion.takes

/-- **A number in a radix**, without leading zeros. -/
def numeral (radix : ℕ) (upper : Bool) (v : ℕ) : List UInt8 :=
  (Nat.toDigits radix v).map fun c => (if upper then c.toUpper else c).toUInt8

/-- What stands for a null string. -/
def nullText : List UInt8 := ['(', 'n', 'u', 'l', 'l', ')'].map Char.toUInt8

/-- The string a cell points to. -/
def stringAt (mem : Block) (cell : BitVec 32) : List UInt8 :=
  if cell = 0 then nullText else mem.read (2 ^ 31) cell.toNat

/-- What is printed before it is filled up: a sign, the characters after it, the width they are
filled to, and whether zeros may do that. -/
structure Rendering where
  negative : Bool
  body : List UInt8
  width : ℕ
  zeros : Bool

/-- **What a conversion prints of its cell.** -/
def Directive.rendering (d : Directive) (mem : Block) (cell : BitVec 32) : Conversion → Rendering
  | .string =>
    ⟨false, match d.prec with
      | none => stringAt mem cell
      | some p => (stringAt mem cell).take p, d.width, false⟩
  | .char => ⟨false, [UInt8.ofNat cell.toNat], d.width, false⟩
  | .signed => ⟨cell.toInt < 0, numeral 10 false cell.toInt.natAbs, d.width, d.zero⟩
  | .unsigned => ⟨false, numeral 10 false cell.toNat, d.width, d.zero⟩
  | .hex upper => ⟨false, numeral 16 upper cell.toNat, d.width, d.zero⟩
  | .pointer => ⟨false, numeral 16 false cell.toNat, max d.width 8, true⟩
  | .percent => ⟨false, ['%'.toUInt8], d.width, false⟩

/-- **Filled up**: on the right if it was asked for, else with zeros behind the sign where they are
allowed, else with spaces in front. -/
def Rendering.bytes (r : Rendering) (left : Bool) : List UInt8 :=
  let sign := if r.negative then ['-'.toUInt8] else []
  let fill := r.width - (sign.length + r.body.length)
  if left then sign ++ r.body ++ List.replicate fill ' '.toUInt8
  else if r.zeros then sign ++ List.replicate fill '0'.toUInt8 ++ r.body
  else List.replicate fill ' '.toUInt8 ++ sign ++ r.body

/-- **What a directive prints**; one without a conversion is echoed. -/
def Directive.bytes (d : Directive) (mem : Block) (cell : BitVec 32) : List UInt8 :=
  match d.conversion with
  | some k => (d.rendering mem cell k).bytes d.left
  | none => '%'.toUInt8 :: d.type.toList

/-- **What a format prints**, with this supply of cells. -/
def render (mem : Block) : List Piece → (ℕ → BitVec 32) → List UInt8
  | [], _ => []
  | .lit c :: ps, cells => c :: render mem ps cells
  | .directive d :: ps, cells =>
    d.bytes mem (cells 0) ++ render mem ps (if d.takes then fun i => cells (i + 1) else cells)

/-- How many cells are taken. -/
def taken : List Piece → ℕ
  | [] => 0
  | .lit _ :: ps => taken ps
  | .directive d :: ps => (if d.takes then 1 else 0) + taken ps

/-! ## What a format may ask for -/

/-- Width and precision are no larger than a `LONG` holds. -/
def Directive.Small (d : Directive) : Prop := d.width < 2 ^ 31 ∧ ∀ p ∈ d.prec, p < 2 ^ 31

/-- The same, of a piece. -/
def Piece.Small : Piece → Prop
  | .lit _ => True
  | .directive d => d.Small

instance : DecidablePred Directive.Small := fun d =>
  inferInstanceAs (Decidable (d.width < 2 ^ 31 ∧ ∀ p ∈ d.prec, p < 2 ^ 31))

instance : DecidablePred Piece.Small
  | .lit _ => .isTrue trivial
  | .directive d => inferInstanceAs (Decidable d.Small)

/-- A cell that points to a string, or to nothing. -/
def Points (mem : Block) (cell : BitVec 32) : Prop :=
  cell ≠ 0 → ∃ l, mem.Text cell.toNat l ∧ l.length < 2 ^ 31

/-- **Every string directive finds a string**, or a null pointer. -/
def Supplied (mem : Block) : List Piece → (ℕ → BitVec 32) → Prop
  | [], _ => True
  | .lit _ :: ps, cells => Supplied mem ps cells
  | .directive d :: ps, cells =>
    (d.conversion = some .string → Points mem (cells 0)) ∧
      Supplied mem ps (if d.takes then fun i => cells (i + 1) else cells)

end Printf
