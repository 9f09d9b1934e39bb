import Emu68Common.Perf.Parse

/-!
# Isr/Check — `isr-z-check.py`, the scan of an interrupt server's disassembly

Exec tests the `Z` flag an interrupt server returns with, not `D0`.  `check` reads the text of a
server's disassembly: from every `rts` it walks back, line by line, to the last instruction that
touches the condition codes, and asks that one to leave them from the value it leaves in `d0`.  All
it knows of an instruction is its mnemonic, its last operand and the hexadecimal numbers in its
text.

    mnemonic, destination          the two ends of an instruction's text
    touches_cc, certifies_d0       what the scan makes of them
    check body lo hi               the complaints about a server
-/

namespace IsrCheck

open Machinery Pattern
open PerfLog (isSpace)

/-! ## The tables -/

/-- Whether a mnemonic starts with one of these. -/
def startswith (m : List Char) (starts : List String) : Bool :=
  starts.any fun s => s.toList.isPrefixOf m

/-- The mnemonics that leave the condition codes alone. -/
def CC_TRANSPARENT : List String :=
  ["movem", "movea", "lea", "pea", "jmp", "rts", "rte", "rtr", "nop", "link", "unlk", "exg", "adda",
    "suba", "reset", "stop", "trap"]

/-- `^b(ra|hi|ls|cc|cs|ne|eq|vc|vs|pl|mi|ge|lt|gt|le)`. -/
def BRANCH (m : List Char) : Bool :=
  startswith m ["bra", "bhi", "bls", "bcc", "bcs", "bne", "beq", "bvc", "bvs", "bpl", "bmi", "bge",
    "blt", "bgt", "ble"]

/-- `^db`. -/
def DBCC (m : List Char) : Bool := startswith m ["db"]

/-- `^cmp`. -/
def COMPARE (m : List Char) : Bool := startswith m ["cmp"]

/-- `^(jsr|bsr)`. -/
def CALL (m : List Char) : Bool := startswith m ["jsr", "bsr"]

/-- `^(bra|jra|jmp)`. -/
def TRANSFER (m : List Char) : Bool := startswith m ["bra", "jra", "jmp"]

/-! ## One instruction -/

/-- `text.split()[0].lower()`, and nothing of an empty text. -/
def mnemonic (text : List Char) : List Char :=
  ((text.dropWhile isSpace).takeWhile (!isSpace ·)).map Char.toLower

/-- `text.split(None, 1)[1]`, nothing where there is none. -/
def operands (text : List Char) : List Char :=
  ((text.dropWhile isSpace).dropWhile (!isSpace ·)).dropWhile isSpace

/-- `destination(text)`: the last operand, without blanks around it and `%` before it. -/
def destination (text : List Char) : List Char :=
  (strip isSpace ((operands text).rtakeWhile (· != ','))).dropWhile (· == '%')

/-- `is_dreg0(operand)`. -/
def isDreg0 (operand : List Char) : Bool :=
  operand == "d0".toList || operand == "d0:d1".toList

/-- `touches_cc(text)`. -/
def touchesCc (text : List Char) : Bool :=
  let m := mnemonic text
  if CALL m then true
  else if startswith m CC_TRANSPARENT || BRANCH m || DBCC m then false
  else if startswith m ["addq", "subq"] then !startswith (destination text) ["a", "sp"]
  else true

/-- `certifies_d0(text)`: does this instruction set `Z` from the value it leaves in `D0`? -/
def certifiesD0 (text : List Char) : Bool :=
  if CALL (mnemonic text) then false
  else !COMPARE (mnemonic text) && isDreg0 (destination text)

/-- `[0-9a-f]`. -/
def isHex (c : Char) : Bool := c.isDigit || ('a' ≤ c && c ≤ 'f')

/-- `0x([0-9a-f]+)`. -/
def HEX : List (Atom Char) := lit ['0', 'x'] ++ [.many 1 isHex true]

/-- `re.findall(r'0x([0-9a-f]+)', text)`, behind so many characters of a match already found. -/
def findall : ℕ → List Char → List (List Char)
  | _, [] => []
  | skip + 1, _ :: text => findall skip text
  | 0, c :: text => match matchFront HEX (c :: text) with
    | some [digits] => digits :: findall (digits.length + 1) text
    | _ => findall 0 text

/-- What a hexadecimal digit stands for. -/
def hexDigit (c : Char) : ℕ :=
  if c.isDigit then c.toNat - '0'.toNat else c.toNat - 'a'.toNat + 10

/-- `int(digits, 16)`. -/
def int16 (digits : List Char) : ℕ := digits.foldl (fun n c => 16 * n + hexDigit c) 0

/-- `transfer_target(text)`: the last number in it. -/
def transferTarget (text : List Char) : Option ℕ := (findall 0 text).getLast?.map int16

example : transferTarget "bras 0x100a".toList = some 0x100a := by decide

/-! ## A server -/

/-- What is said of a jump. -/
def checkJump (lo hi : ℕ) (addr text : List Char) : List (List Char) :=
  if TRANSFER (mnemonic text) || BRANCH (mnemonic text) then
    match transferTarget text with
    | none => ["  @".toList ++ addr ++ ": \"".toList ++ text ++
        ("\" jumps somewhere this check cannot resolve, so the exit path is " ++
          "unverifiable").toList]
    | some target =>
      if lo ≤ target && target < hi then []
      else ["  @".toList ++ addr ++ ": \"".toList ++ text ++
        ("\" leaves the server (tail call) - the CALLEE's epilogue is what reaches Exec, " ++
          "not this one").toList]
  else []

/-- What is said of an `rts`, of the instructions before it. -/
def checkReturn (before : List (List Char × List Char)) (addr : List Char) : List (List Char) :=
  match before.reverse.find? fun e => touchesCc e.2 with
  | none => ["  rts@".toList ++ addr ++ ": nothing in the function sets the CCR".toList]
  | some last =>
    if CALL (mnemonic last.2) then
      ["  rts@".toList ++ addr ++ ": the last thing to touch the CCR is the call \"".toList ++
        last.2 ++ "\" @".toList ++ last.1 ++
        " - the flag Exec sees comes from the CALLEE's epilogue".toList]
    else if !certifiesD0 last.2 then
      ["  rts@".toList ++ addr ++ ": last CCR write is \"".toList ++ last.2 ++ "\" @".toList ++
        last.1 ++ ", which does not leave Z from the return value in d0".toList]
    else []

/-- **`check(body, lo, hi)`**, of the addresses and the texts of a server's instructions. -/
def check (body : List (List Char × List Char)) (lo hi : ℕ) : List (List Char) :=
  body.zipIdx.flatMap fun (e, i) =>
    checkJump lo hi e.1 e.2 ++
      if mnemonic e.2 != "rts".toList then [] else checkReturn (body.take i) e.1

/-! ## Reading a text's two ends -/

section Ends

variable {w y pre : List Char} {c : Char}

/-- A mnemonic as it is printed: lower case, no blanks. -/
def Plain (w : List Char) : Prop := w ≠ [] ∧ ∀ c ∈ w, (!isSpace c) = true ∧ c.toLower = c

instance (w : List Char) : Decidable (Plain w) :=
  haveI := List.decidableBAll (fun c => (!isSpace c) = true ∧ c.toLower = c) w
  inferInstanceAs (Decidable (w ≠ [] ∧ ∀ c ∈ w, (!isSpace c) = true ∧ c.toLower = c))

theorem Plain.not_isSpace (hw : Plain w) : ∀ c ∈ w, (!isSpace c) = true := fun c hc =>
  (hw.2 c hc).1

theorem Plain.map_toLower (hw : Plain w) : w.map Char.toLower = w :=
  (List.map_congr_left fun c hc => (hw.2 c hc).2).trans w.map_id

/-- Nothing is stripped before a mnemonic. -/
theorem Plain.dropWhile_append (hw : Plain w) (l : List Char) :
    (w ++ l).dropWhile isSpace = w ++ l := by
  obtain ⟨c, w, rfl⟩ := List.exists_cons_of_ne_nil hw.1
  have hc : isSpace c = false := (Bool.not_eq_true' _).mp (hw.not_isSpace c List.mem_cons_self)
  rw [List.cons_append, List.dropWhile_cons_of_neg (hc ▸ Bool.false_ne_true)]

/-- A text that is nothing but its mnemonic. -/
theorem mnemonic_alone (hw : Plain w) : mnemonic w = w := by
  have hdrop := hw.dropWhile_append []
  rw [List.append_nil] at hdrop
  rw [mnemonic, hdrop, List.takeWhile_eq_self_iff.mpr hw.not_isSpace, hw.map_toLower]

/-- **The mnemonic of a text** is what stands before the blank. -/
theorem mnemonic_append (hw : Plain w) (l : List Char) : mnemonic (w ++ ' ' :: l) = w := by
  rw [mnemonic, hw.dropWhile_append, List.takeWhile_append_of_pos hw.not_isSpace,
    List.takeWhile_cons_of_neg (by decide), List.append_nil, hw.map_toLower]

/-- The operands are what stands behind it. -/
theorem operands_append (hw : Plain w) (l : List Char) :
    operands (w ++ ' ' :: l) = l.dropWhile isSpace := by
  rw [operands, hw.dropWhile_append, List.dropWhile_append_of_pos hw.not_isSpace,
    List.dropWhile_cons_of_neg (by decide), List.dropWhile_cons_of_pos (by decide)]

/-- Stripping the front leaves the end. -/
theorem dropWhile_concat (p : Char → Bool) (hc : p c = false) (l : List Char) :
    ∃ z, (l ++ [c]).dropWhile p = z ++ [c] := by
  have hend : [c].dropWhile p = [c] := List.dropWhile_cons_of_neg (hc ▸ Bool.false_ne_true)
  rw [List.dropWhile_append, hend]
  split
  · exact ⟨[], rfl⟩
  · exact ⟨_, rfl⟩

/-- **The last character** of a text is the last of its destination. -/
theorem destination_concat (hw : Plain w) (hspace : isSpace c = false) (hcomma : (c != ',') = true)
    (hpercent : (c == '%') = false) (l : List Char) :
    ∃ z, destination (w ++ ' ' :: (l ++ [c])) = z ++ [c] := by
  obtain ⟨l₁, h₁⟩ := dropWhile_concat isSpace hspace l
  obtain ⟨l₂, h₂⟩ := dropWhile_concat isSpace hspace (l₁.rtakeWhile (· != ','))
  obtain ⟨l₃, h₃⟩ := dropWhile_concat (· == '%') hpercent l₂
  refine ⟨l₃, ?_⟩
  rw [destination, operands_append hw, h₁, List.rtakeWhile_concat_pos (· != ',') l₁ c hcomma, strip,
    h₂, List.rdropWhile_concat_neg isSpace l₂ c (hspace ▸ Bool.false_ne_true), h₃]

/-- A stretch without commas is taken whole. -/
theorem rtakeWhile_comma (hy : ',' ∉ y) (l : List Char) :
    (l ++ ',' :: y).rtakeWhile (· != ',') = y ∧ y.rtakeWhile (· != ',') = y := by
  have hy' : ∀ c ∈ y.reverse, (c != ',') = true := fun c hc =>
    bne_iff_ne.mpr fun h => hy (h ▸ List.mem_reverse.mp hc)
  constructor
  · rw [List.rtakeWhile, List.reverse_append, List.reverse_cons, List.append_assoc,
      List.takeWhile_append_of_pos hy', List.singleton_append,
      List.takeWhile_cons_of_neg (by decide), List.append_nil, List.reverse_reverse]
  · rw [List.rtakeWhile, List.takeWhile_eq_self_iff.mpr hy', List.reverse_reverse]

/-- **The destination of a text** is its last operand, where that has no comma in it. -/
theorem destination_last (hw : Plain w) (hy : ',' ∉ y) (hhead : y.dropWhile isSpace = y)
    (srcs : List (List Char)) :
    destination (w ++ ' ' :: (srcs.flatMap (· ++ [',']) ++ y)) =
      (y.rdropWhile isSpace).dropWhile (· == '%') := by
  have hpiece : ((srcs.flatMap (· ++ [',']) ++ y).dropWhile isSpace).rtakeWhile (· != ',') = y := by
    rcases List.eq_nil_or_concat srcs with rfl | ⟨srcs, x, rfl⟩
    · rw [List.flatMap_nil, List.nil_append, hhead, (rtakeWhile_comma hy []).2]
    · obtain ⟨z, hz⟩ := dropWhile_concat isSpace (c := ',') (by decide)
        (srcs.flatMap (· ++ [',']) ++ x)
      have hne : ¬(z ++ [',']).isEmpty = true := fun h =>
        List.append_ne_nil_of_right_ne_nil z (List.cons_ne_nil _ _) (List.isEmpty_iff.mp h)
      rw [List.concat_eq_append, List.flatMap_append, List.flatMap_singleton, ← List.append_assoc,
        List.dropWhile_append, hz, if_neg hne, List.append_assoc, List.singleton_append,
        (rtakeWhile_comma hy z).1]
  rw [destination, operands_append hw, hpiece, strip, hhead]

end Ends

end IsrCheck
