import Emu68Common.Isr.Check

/-!
# Isr/Map — `sections`, the servers a linker map lists

A server stands in a section of its own, and the linker's map says where: `.text.isr.` and the
server's name, an address and a size, on one line or on two, and behind them a line for each symbol
in it.  `sections` goes through the map line by line and knows of what came before only the section
it is in and the name it waits for the place of.  What it finds is what was printed, each section
with its own symbols, the last of a name in place of the others (`sections_printed`).

    Piece          a section of a server, or anything else there is in a map
    Piece.lines    as the linker prints it
    record         what `sections` makes of it
-/

namespace IsrCheck

open Machinery Pattern

/-! ## The patterns -/

/-- `\s`, in a text of any characters. -/
def isBlank (c : Char) : Bool :=
  let n := c.toNat
  n = 0x20 || (9 ≤ n && n ≤ 13) || (28 ≤ n && n ≤ 31) || n = 0x85 || n = 0xa0 || n = 0x1680 ||
    (0x2000 ≤ n && n ≤ 0x200a) || n = 0x2028 || n = 0x2029 || n = 0x202f || n = 0x205f || n = 0x3000

/-- `$`: the end, or a newline there. -/
def atEnd (l : List Char) : Bool := l = [] || l = ['\n']

/-- `^ \.text\.isr\.(\S+)`. -/
def SEC : List (Atom Char) :=
  lit [' ', '.', 't', 'e', 'x', 't', '.', 'i', 's', 'r', '.'] ++ [.many 1 (!isBlank ·) true]

/-- `^\s+0x([0-9a-f]+)\s+0x([0-9a-f]+)\s+\S`. -/
def ADDR_SIZE : List (Atom Char) :=
  .many 1 isBlank false :: (lit ['0', 'x'] ++ (.many 1 isHex true :: .many 1 isBlank false ::
    (lit ['0', 'x'] ++ [.many 1 isHex true, .many 1 isBlank false, .one (!isBlank ·)])))

/-- `SEC` and an address and a size behind it. -/
def SEC_INLINE : List (Atom Char) := SEC ++ ADDR_SIZE

/-- `SEC` alone, `\s*$`. -/
def SEC_WRAPPED : List (Atom Char) := SEC ++ [.many 0 isBlank false, .ahead atEnd]

/-- `[A-Za-z_.$]`. -/
def isSymbolStart (c : Char) : Bool := c.isAlpha || c == '_' || c == '.' || c == '$'

/-- `[^\s=]`. -/
def isSymbolChar (c : Char) : Bool := !isBlank c && c != '='

/-- `^\s+0x[0-9a-f]+\s+([A-Za-z_.$][^\s=]*)\s*$`: a symbol is characters of the second kind, the
first of which is one of the first. -/
def SYMBOL : List (Atom Char) :=
  .many 1 isBlank false :: (lit ['0', 'x'] ++ [.many 1 isHex false, .many 1 isBlank false,
    .ahead fun l => l.head?.any isSymbolStart, .many 1 isSymbolChar true, .many 0 isBlank false,
    .ahead atEnd])

/-! ## The scan -/

/-- What is found of a section. -/
structure Sec where
  vma : ℕ
  size : ℕ
  syms : List (List Char)
  deriving DecidableEq, Repr

/-- `found[name] = sec` -/
def setSec (found : List (List Char × Sec)) (name : List Char) (sec : Sec) :
    List (List Char × Sec) :=
  if found.any (·.1 == name) then found.map fun e => if e.1 == name then (name, sec) else e
  else found ++ [(name, sec)]

/-- `cur['syms'].append(sym)`, where `cur` is the section of this name. -/
def addSym (found : List (List Char × Sec)) (name sym : List Char) : List (List Char × Sec) :=
  found.map fun e => if e.1 == name then (name, { e.2 with syms := e.2.syms ++ [sym] }) else e

/-- `found`, and the names of `cur` and `pending`. -/
structure Scan where
  found : List (List Char × Sec)
  cur : Option (List Char)
  pending : Option (List Char)
  deriving DecidableEq, Repr

/-- `cur, pending = start(name, vma, size), None` -/
def Scan.start (st : Scan) (name vma size : List Char) : Scan :=
  ⟨setSec st.found name ⟨int16 vma, int16 size, []⟩, some name, none⟩

/-- One line of the map. -/
def scanLine (st : Scan) (line : List Char) : Scan :=
  match matchFront SEC_INLINE line with
  | some [name, vma, size] => st.start name vma size
  | _ => match matchFront SEC_WRAPPED line with
    | some [name] => { st with cur := none, pending := some name }
    | _ => match st.pending with
      | some name => match matchFront ADDR_SIZE line with
        | some [vma, size] => st.start name vma size
        | _ => { st with cur := none, pending := none }
      | none => match st.cur with
        | none => st
        | some name => match matchFront SYMBOL line with
          | some [sym] => { st with found := addSym st.found name sym }
          | _ => { st with cur := none }

/-- **`sections(map_path)`**, of the map's lines. -/
def sections (lines : List (List Char)) : List (List Char × Sec) :=
  (lines.foldl scanLine ⟨[], none, none⟩).found

/-! ## What a linker prints -/

/-- Blanks, at least one. -/
structure Blank where
  chars : List Char
  ne_nil : chars ≠ []
  blank : ∀ c ∈ chars, isBlank c = true

/-- Hexadecimal digits, at least one. -/
structure Hex where
  chars : List Char
  ne_nil : chars ≠ []
  hex : ∀ c ∈ chars, isHex c = true

/-- Characters that are no blanks, at least one. -/
structure Name where
  chars : List Char
  ne_nil : chars ≠ []
  dark : ∀ c ∈ chars, (!isBlank c) = true

/-- **Where a section is**: its address, its size, and the object it comes from. -/
structure Placed where
  before : Blank
  vma : Hex
  between : Blank
  size : Hex
  behind : Blank
  object : Name
  rest : List Char

def Placed.text (p : Placed) : List Char :=
  p.before.chars ++ (['0', 'x'] ++ (p.vma.chars ++ (p.between.chars ++ (['0', 'x'] ++
    (p.size.chars ++ (p.behind.chars ++ (p.object.chars ++ p.rest)))))))

/-- **A symbol in a section**: its address and its name. -/
structure SymbolLine where
  before : Blank
  addr : Hex
  between : Blank
  sym : List Char
  starts : sym.head?.any isSymbolStart = true
  dark : ∀ c ∈ sym, isSymbolChar c = true

def SymbolLine.text (y : SymbolLine) : List Char :=
  y.before.chars ++ (['0', 'x'] ++ (y.addr.chars ++ (y.between.chars ++ y.sym)))

/-- `.text.isr.` and a name, in the map's first column. -/
def header (name : Name) : List Char :=
  [' ', '.', 't', 'e', 'x', 't', '.', 'i', 's', 'r', '.'] ++ name.chars

/-- A line that is no header of a server's section. -/
def Foreign (line : List Char) : Prop :=
  matchFront SEC_INLINE line = none ∧ matchFront SEC_WRAPPED line = none

instance : DecidablePred Foreign := fun _ => inferInstanceAs (Decidable (_ ∧ _))

/-- **A piece of a map**: a server's section, its place on a line of its own or not, with its
symbols; or something else, that starts with no symbol. -/
inductive Piece where
  | server (name : Name) (wrapped : Bool) (place : Placed) (syms : List SymbolLine)
  | other (first : List Char) (more : List (List Char)) (hfirst : Foreign first)
    (hsym : matchFront SYMBOL first = none) (hmore : ∀ line ∈ more, Foreign line)

/-- **A piece as the linker prints it.** -/
def Piece.lines : Piece → List (List Char)
  | .server name wrapped place syms =>
    (if wrapped then [header name, place.text] else [header name ++ place.text]) ++
      syms.map SymbolLine.text
  | .other first more _ _ _ => first :: more

/-- What a section says. -/
def said (place : Placed) (syms : List SymbolLine) : Sec :=
  ⟨int16 place.vma.chars, int16 place.size.chars, syms.map SymbolLine.sym⟩

/-- **What is found of a piece.** -/
def record (found : List (List Char × Sec)) : Piece → List (List Char × Sec)
  | .server name _ place syms => setSec found name.chars (said place syms)
  | .other .. => found

/-! ## What the patterns make of it -/

section Results

variable {r : List (Atom Char)} {l : List Char} {c d : Char}

/-- What ASCII prints is no blank. -/
theorem isBlank_of_print (h : 33 ≤ c.toNat) (h' : c.toNat ≤ 126) : isBlank c = false := by
  simp only [isBlank, Bool.or_eq_false_iff, Bool.and_eq_false_iff, decide_eq_false_iff_not]
  omega

/-- A digit is no blank. -/
theorem isBlank_of_isHex (h : isHex c = true) : isBlank c = false := by
  unfold isHex Char.isDigit at h
  simp only [Bool.or_eq_true, Bool.and_eq_true, decide_eq_true_eq, ge_iff_le,
    UInt32.le_iff_toNat_le] at h
  rcases h with h | h
  · exact isBlank_of_print (le_trans (by decide) h.1) (le_trans h.2 (by decide))
  · exact isBlank_of_print (le_trans (by decide) (UInt32.le_iff_toNat_le.mp h.1))
      (le_trans (UInt32.le_iff_toNat_le.mp h.2) (by decide))

/-- Nor does a symbol start with one. -/
theorem isBlank_of_isSymbolStart (h : isSymbolStart c = true) : isBlank c = false := by
  unfold isSymbolStart Char.isAlpha Char.isUpper Char.isLower at h
  simp only [Bool.or_eq_true, Bool.and_eq_true, decide_eq_true_eq, beq_iff_eq, ge_iff_le,
    UInt32.le_iff_toNat_le] at h
  rcases h with (((h | h) | rfl) | rfl) | rfl
  · exact isBlank_of_print (le_trans (by decide) h.1) (le_trans h.2 (by decide))
  · exact isBlank_of_print (le_trans (by decide) h.1) (le_trans h.2 (by decide))
  all_goals decide

theorem isBlank_of_not (h : (!isBlank c) = true) : isBlank c = false := (Bool.not_eq_true' _).mp h

theorem not_isBlank_of (h : isBlank c = true) : (!isBlank c) = false := by rw [h]; rfl

theorem Blank.one_le (b : Blank) : 1 ≤ b.chars.length := List.length_pos_iff.mpr b.ne_nil

theorem Hex.one_le (x : Hex) : 1 ≤ x.chars.length := List.length_pos_iff.mpr x.ne_nil

theorem Name.one_le (n : Name) : 1 ≤ n.chars.length := List.length_pos_iff.mpr n.ne_nil

/-- Blanks up to a number. -/
theorem results_blank_lit (b : Blank) : results (.many 1 isBlank false :: (lit ['0', 'x'] ++ r))
    (b.chars ++ (['0', 'x'] ++ l)) = results r l := by
  rw [results_many_lit b.blank rfl b.one_le]
  exact List.map_id _

/-- A number up to blanks. -/
theorem results_hex_blank {g : Bool} (x : Hex) (b : Blank) :
    results (.many 1 isHex g :: .many 1 isBlank false :: r) (x.chars ++ (b.chars ++ l)) =
      (results (.many 1 isBlank false :: r) (b.chars ++ l)).map fun groups =>
        if g then x.chars :: groups else groups := by
  obtain ⟨c, v, hv⟩ := List.exists_cons_of_ne_nil b.ne_nil
  have hc : isHex c = false := by
    by_contra h
    rw [Bool.not_eq_false] at h
    exact Bool.false_ne_true ((isBlank_of_isHex h).symm.trans (b.blank c (by rw [hv]; exact
      List.mem_cons_self)))
  rw [hv, List.cons_append]
  exact results_many_many x.hex hc (fun d hd => isBlank_of_isHex hd) x.one_le

/-- **An address and a size are read.** -/
theorem results_place (p : Placed) :
    results ADDR_SIZE p.text = [[p.vma.chars, p.size.chars]] := by
  obtain ⟨c, v, hv⟩ := List.exists_cons_of_ne_nil p.object.ne_nil
  have hc : (!isBlank c) = true := p.object.dark c (by rw [hv]; exact List.mem_cons_self)
  have hlast : results [.many 1 isBlank false, .one (!isBlank ·)]
      (p.behind.chars ++ (p.object.chars ++ p.rest)) = [[]] := by
    rw [hv, List.cons_append, results_many_one p.behind.blank (isBlank_of_not hc)
      (fun d hd => not_isBlank_of hd) p.behind.one_le, results_one (p := (!isBlank ·)) hc]
    rfl
  rw [ADDR_SIZE, Placed.text, results_blank_lit, results_hex_blank, results_blank_lit,
    results_hex_blank, hlast]
  rfl

/-- What is behind a name ends it. -/
theorem results_header {r : List (Atom Char)} (name : Name) (hl : ∀ d ∈ l.head?, isBlank d = true)
    (hfail : ∀ c v, (∀ d ∈ c :: v, (!isBlank d) = true) → results r (c :: v ++ l) = []) :
    results (SEC ++ r) (header name ++ l) = (results r l).map (name.chars :: ·) := by
  rw [SEC, header, List.append_assoc, List.append_assoc, results_lit, List.singleton_append,
    results_many_whole name.dark (fun d hd => not_isBlank_of (hl d hd)) name.one_le hfail]
  rfl

/-- **A section on one line is read.** -/
theorem results_inline (name : Name) (p : Placed) :
    results SEC_INLINE (header name ++ p.text) =
      [[name.chars, p.vma.chars, p.size.chars]] := by
  obtain ⟨c, v, hv⟩ := List.exists_cons_of_ne_nil p.before.ne_nil
  have hhead : ∀ d ∈ p.text.head?, isBlank d = true := by
    intro d hd
    rw [Placed.text, hv, List.cons_append] at hd
    obtain rfl := Option.some.inj hd
    exact p.before.blank _ (by rw [hv]; exact List.mem_cons_self)
  rw [SEC_INLINE, results_header name hhead, results_place]
  · rfl
  · intro c v hd
    exact results_many_of_not (isBlank_of_not (hd c List.mem_cons_self))

/-- A name alone has no place. -/
theorem results_inline_header (name : Name) : results SEC_INLINE (header name) = [] := by
  have h := results_header (r := ADDR_SIZE) (l := []) name (fun d hd => nomatch hd)
    fun c v hd => results_many_of_not (isBlank_of_not (hd c List.mem_cons_self))
  rw [List.append_nil] at h
  rw [SEC_INLINE, h]
  rfl

/-- What goes on is no end. -/
theorem results_end (hc : isBlank c = false) :
    results [.many 0 isBlank false, .ahead atEnd] (c :: l) = [] := by
  have hne : atEnd (c :: l) = false := by
    rw [atEnd, decide_eq_false (List.cons_ne_nil c l), Bool.false_or]
    refine decide_eq_false fun heq => ?_
    rw [(List.cons.inj heq).1] at hc
    exact absurd hc (by decide)
  rw [results_many_none hc, results, if_neg (hne ▸ Bool.false_ne_true)]
  rfl

/-- **A name alone is read.** -/
theorem results_wrapped (name : Name) : results SEC_WRAPPED (header name) = [[name.chars]] := by
  have h := results_header (r := [.many 0 isBlank false, .ahead atEnd]) (l := []) name
    (fun d hd => nomatch hd) fun c v hd => results_end (isBlank_of_not (hd c List.mem_cons_self))
  rw [List.append_nil] at h
  rw [SEC_WRAPPED, h]
  rfl

/-- **A symbol is read.** -/
theorem results_symbol (y : SymbolLine) : results SYMBOL y.text = [[y.sym]] := by
  obtain ⟨c, v, hv⟩ : ∃ c v, y.sym = c :: v := by
    cases h : y.sym with
    | nil => exact absurd y.starts (by rw [h]; exact Bool.false_ne_true)
    | cons c v => exact ⟨c, v, rfl⟩
  have hdark : ∀ d ∈ y.sym, isBlank d = false := fun d hd =>
    isBlank_of_not (Bool.and_eq_true_iff.mp (y.dark d hd)).1
  have hstart : ∀ d, isBlank d = true → isSymbolStart d = false := by
    intro d hd
    by_contra h
    rw [Bool.not_eq_false] at h
    exact Bool.false_ne_true ((isBlank_of_isSymbolStart h).symm.trans hd)
  have hname : results [.many 1 isSymbolChar true, .many 0 isBlank false, .ahead atEnd] y.sym =
      [[y.sym]] := by
    have h := results_many_whole (r := [.many 0 isBlank false, .ahead atEnd]) (k := 1) (l := [])
      (g := true) y.dark (fun d hd => nomatch hd) (by rw [hv]; exact Nat.le_add_left 1 _)
      fun d w hd => results_end
        (isBlank_of_not (Bool.and_eq_true_iff.mp (hd d List.mem_cons_self)).1)
    rw [List.append_nil] at h
    rw [h]
    rfl
  have hahead : results [.many 1 isBlank false, .ahead fun l => l.head?.any isSymbolStart,
      .many 1 isSymbolChar true, .many 0 isBlank false, .ahead atEnd]
        (y.between.chars ++ y.sym) = [[y.sym]] := by
    rw [results_many_whole y.between.blank
      (fun d hd => hdark d (List.mem_of_mem_head? hd)) y.between.one_le
      (fun d w hd => results_ahead_of_not (hstart d (hd d List.mem_cons_self))), results,
      if_pos y.starts, hname]
    rfl
  rw [SYMBOL, SymbolLine.text, results_blank_lit, results_hex_blank, hahead]
  rfl

/-- A header has its point behind one blank. -/
theorem results_sec_of_ne (hd : d ≠ '.') : results (SEC ++ r) (c :: d :: l) = [] := by
  change results (.one (· == ' ') :: .one (· == '.') :: _) _ = []
  rw [results]
  split
  · exact results_one_of_not (p := (· == '.')) (beq_false_of_ne hd)
  · rfl

/-- **A line that is blank up to a number is no header.** -/
theorem foreign_blank (b : Blank) (l : List Char) : Foreign (b.chars ++ (['0', 'x'] ++ l)) := by
  obtain ⟨c, d, l', heq, hd⟩ : ∃ c d l', b.chars ++ (['0', 'x'] ++ l) = c :: d :: l' ∧ d ≠ '.' := by
    obtain ⟨c, v, hv⟩ := List.exists_cons_of_ne_nil b.ne_nil
    cases v with
    | nil => exact ⟨c, '0', 'x' :: l, by rw [hv]; rfl, by decide⟩
    | cons d v =>
      refine ⟨c, d, v ++ (['0', 'x'] ++ l), by rw [hv]; rfl, ?_⟩
      rintro rfl
      exact absurd (b.blank '.' (by rw [hv]; exact List.mem_cons_of_mem _ List.mem_cons_self))
        (by decide)
  rw [heq]
  constructor
  · rw [matchFront, SEC_INLINE, results_sec_of_ne hd]
    rfl
  · rw [matchFront, SEC_WRAPPED, results_sec_of_ne hd]
    rfl

theorem Placed.foreign (p : Placed) : Foreign p.text := foreign_blank p.before _

theorem SymbolLine.foreign (y : SymbolLine) : Foreign y.text := foreign_blank y.before _

end Results

/-! ## The scan of a piece -/

section Scan

variable {found : List (List Char × Sec)} {name name' : List Char} {sec : Sec} {st : Scan}

/-- A section that is there already is replaced. -/
theorem lookup_replace : (found.map fun e => if e.1 == name then (name, sec) else e).lookup name' =
    if name' = name ∧ found.any (·.1 == name) then some sec else found.lookup name' := by
  induction found with
  | nil => rw [List.map_nil, List.any_nil, if_neg fun h => Bool.false_ne_true h.2]
  | cons e found ih =>
    obtain ⟨n, s⟩ := e
    rw [List.map_cons, List.any_cons, List.lookup_cons, List.lookup_cons, ih]
    by_cases hn : n = name
    · subst hn
      simp only [beq_self_eq_true, if_true, Bool.true_or, and_true]
      by_cases hname : name' = n
      · simp only [hname, beq_self_eq_true, if_true]
      · simp only [hname, beq_false_of_ne hname, false_and, if_false]
    · simp only [beq_false_of_ne hn, Bool.false_or, Bool.false_eq_true, if_false]
      by_cases hname : name' = n
      · subst hname
        simp only [beq_self_eq_true, hn, false_and, if_false]
      · rw [beq_false_of_ne hname]

/-- **What is found under a name** after one more section. -/
theorem lookup_setSec : (setSec found name sec).lookup name' =
    if name' = name then some sec else found.lookup name' := by
  rw [setSec]
  split
  · rename_i hany
    rw [lookup_replace]
    simp only [hany, and_true]
  · rename_i hany
    have hnone : name' = name → found.lookup name' = none := by
      rintro rfl
      refine List.lookup_eq_none_iff.mpr fun e he => ?_
      by_contra h
      rw [bne_iff_ne, not_not] at h
      exact hany (List.any_eq_true.mpr ⟨e, he, beq_iff_eq.mpr h.symm⟩)
    rw [List.lookup_append, List.lookup_cons, List.lookup_nil]
    by_cases hname : name' = name
    · rw [hnone hname, hname, beq_self_eq_true, if_pos rfl]
      rfl
    · rw [beq_false_of_ne hname, if_neg hname, Option.or_none]

/-- A symbol of the section found last goes into it. -/
theorem addSym_setSec (sym : List Char) : addSym (setSec found name sec) name sym =
    setSec found name { sec with syms := sec.syms ++ [sym] } := by
  rw [addSym, setSec, setSec]
  split
  · rw [List.map_map]
    refine List.map_congr_left fun e _ => ?_
    rw [Function.comp_apply]
    split
    · rw [if_pos (beq_self_eq_true name)]
    · rfl
  · rename_i hany
    rw [List.map_append, List.map_singleton, if_pos (beq_self_eq_true name)]
    refine congrArg (· ++ _) ((List.map_congr_left fun e he => ?_).trans (List.map_id _))
    exact if_neg fun h => hany (List.any_eq_true.mpr ⟨e, he, h⟩)

theorem scanLine_foreign {line : List Char} (h : Foreign line) : scanLine st line =
    match st.pending with
      | some name => match matchFront ADDR_SIZE line with
        | some [vma, size] => st.start name vma size
        | _ => { st with cur := none, pending := none }
      | none => match st.cur with
        | none => st
        | some name => match matchFront SYMBOL line with
          | some [sym] => { st with found := addSym st.found name sym }
          | _ => { st with cur := none } := by
  rw [scanLine, h.1, h.2]

/-- The symbols of a section go into it. -/
theorem scan_symbols (syms : List SymbolLine) :
    (syms.map SymbolLine.text).foldl scanLine ⟨setSec found name sec, some name, none⟩ =
      ⟨setSec found name { sec with syms := sec.syms ++ syms.map SymbolLine.sym }, some name,
        none⟩ := by
  induction syms generalizing sec with
  | nil => rw [List.map_nil, List.map_nil, List.append_nil]; rfl
  | cons y syms ih =>
    have hline : scanLine ⟨setSec found name sec, some name, none⟩ y.text =
        ⟨setSec found name { sec with syms := sec.syms ++ [y.sym] }, some name, none⟩ := by
      rw [scanLine_foreign y.foreign]
      simp only [matchFront, results_symbol, List.head?_cons, addSym_setSec]
    rw [List.map_cons, List.foldl_cons, hline, ih, List.map_cons, List.append_assoc]
    rfl

/-- **A server's section is found**, with its symbols. -/
theorem scan_server (name : Name) (wrapped : Bool) (place : Placed) (syms : List SymbolLine) :
    (Piece.lines (.server name wrapped place syms)).foldl scanLine st =
      ⟨setSec st.found name.chars (said place syms), some name.chars, none⟩ := by
  have hplace : (if wrapped then [header name, place.text] else [header name ++ place.text]).foldl
      scanLine st = st.start name.chars place.vma.chars place.size.chars := by
    cases wrapped with
    | false =>
      change scanLine st (header name ++ place.text) = _
      rw [scanLine, matchFront, results_inline]
      rfl
    | true =>
      have hheader : scanLine st (header name) = ⟨st.found, none, some name.chars⟩ := by
        rw [scanLine, matchFront, matchFront, results_inline_header, results_wrapped]
        rfl
      change scanLine (scanLine st (header name)) place.text = _
      rw [hheader, scanLine_foreign place.foreign]
      simp only [matchFront, results_place, List.head?_cons]
      rfl
  rw [Piece.lines, List.foldl_append, hplace, Scan.start, scan_symbols, List.nil_append]
  rfl

/-- **Anything else is passed over**, and its symbols with it. -/
theorem scan_other {first : List Char} {more : List (List Char)} (hfirst : Foreign first)
    (hsym : matchFront SYMBOL first = none) (hmore : ∀ line ∈ more, Foreign line)
    (hst : st.pending = none) : (first :: more).foldl scanLine st = ⟨st.found, none, none⟩ := by
  have hhead : scanLine st first = ⟨st.found, none, none⟩ := by
    obtain ⟨found, cur, pending⟩ := st
    subst hst
    rw [scanLine_foreign hfirst]
    cases cur with
    | none => rfl
    | some name => simp only [hsym]
  have hrest : ∀ more : List (List Char), (∀ line ∈ more, Foreign line) →
      more.foldl scanLine ⟨st.found, none, none⟩ = ⟨st.found, none, none⟩ := by
    intro more hmore
    induction more with
    | nil => rfl
    | cons line more ih =>
      obtain ⟨hline, hmore⟩ := List.forall_mem_cons.mp hmore
      rw [List.foldl_cons, scanLine_foreign hline]
      exact ih hmore
  rw [List.foldl_cons, hhead]
  exact hrest more hmore

end Scan

/-- **What is printed is found**: each section with its own symbols, the last of a name in place of
the others. -/
theorem sections_printed (pieces : List Piece) :
    sections (pieces.flatMap Piece.lines) = pieces.foldl record [] := by
  have hscan : ∀ (pieces : List Piece) (st : Scan), st.pending = none →
      ((pieces.flatMap Piece.lines).foldl scanLine st).found = pieces.foldl record st.found := by
    intro pieces
    induction pieces with
    | nil => exact fun _ _ => rfl
    | cons piece pieces ih =>
      intro st hst
      rw [List.flatMap_cons, List.foldl_append, List.foldl_cons]
      cases piece with
      | server name wrapped place syms => rw [scan_server, ih _ rfl]; rfl
      | other first more hfirst hsym hmore =>
        rw [Piece.lines, scan_other hfirst hsym hmore hst, ih _ rfl]
        rfl
  exact hscan pieces ⟨[], none, none⟩ rfl

end IsrCheck
