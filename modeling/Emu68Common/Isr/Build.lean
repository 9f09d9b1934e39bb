import Emu68Common.Isr.Map
import Emu68Common.Isr.Sound

/-!
# Isr/Build — `isr-z-check.py`, a module from its map to its servers

The build runs the script on every module it links, with the names of the module's interrupt
servers.  It passes iff these are the servers in the map, each is one function, and `check` has no
complaint about the disassembly of any (`build_check_exact`).  What the module then does at run time
is `module_tells`: whatever server there is in the map, listed or not, its returns tell the caller
of `D0`.

    disassemble    a slice of the module, as the disassembler prints it
    main           the script: it says nothing, or what it exits with
-/

namespace IsrCheck

open Machinery Pattern

/-! ## The disassembler -/

/-- `[0-9a-f ]`. -/
def isOpcode (c : Char) : Bool := isHex c || c == ' '

/-- `^\s*([0-9a-f]+):\t[0-9a-f ]+\t(.*)$`. -/
def INSN : List (Atom Char) :=
  .many 0 isBlank false :: .many 1 isHex true :: (lit [':', '\t'] ++ [.many 1 isOpcode false,
    .one (· == '\t'), .many 0 (· != '\n') true, .ahead atEnd])

/-- A line of the disassembler that is an instruction: its address and its text. -/
def insnLine (line : List Char) : Option (List Char × List Char) :=
  match matchFront INSN line with
  | some [addr, text] => some (addr, strip isBlank text)
  | _ => none

/-- The command that prints so much of the module. -/
def command (objdump binary : List Char) (vma size : ℕ) : List (List Char) :=
  [objdump, "-D".toList, "-b".toList, "amiga".toList, "-m".toList, "m68k".toList,
    "--start-address=".toList ++ hex vma, "--stop-address=".toList ++ hex (vma + size), binary]

section Script

/- What running a command gives: the lines of its output, or what is said of its failure. -/
variable (run : List (List Char) → Except (List Char) (List (List Char)))
variable (objdump binary mapfile : List Char)

/-- **`disassemble(objdump, binary, vma, size)`**; an error is what the script exits with. -/
def disassemble (vma size : ℕ) : Except (List Char) (List (List Char × List Char)) :=
  match run (command objdump binary vma size) with
  | .error exc => .error ("isr-z-check: ".toList ++ [' '].intercalate
      (command objdump binary vma size) ++ " failed: ".toList ++ exc)
  | .ok out => .ok (out.filterMap insnLine)

/-! ## The script -/

/-- What is said of a server with more than one symbol. -/
def sayClones (name : List Char) (syms : List (List Char)) : List Char :=
  name ++ ": .text.isr.".toList ++ name ++ " holds more than one function (".toList ++
    [',', ' '].intercalate syms ++ (").\n  A clone landed in the server's section, so the range " ++
      "checked below is not just the server.").toList

def sayNothing (name : List Char) (sec : Sec) : List Char :=
  name ++ ": nothing disassembled at ".toList ++ hex sec.vma ++ ['+'] ++ hex sec.size

/-- `'    %8s  %s' % (addr, text)`. -/
def sayInsn (e : List Char × List Char) : List Char :=
  "    ".toList ++ (List.replicate (8 - e.1.length) ' ' ++ e.1) ++ "  ".toList ++ e.2

/-- The complaints about a server, and all of it. -/
def sayBad (name : List Char) (sec : Sec) (bad : List (List Char))
    (body : List (List Char × List Char)) : List Char :=
  name ++ " (".toList ++ hex sec.vma ++ "..".toList ++ hex (sec.vma + sec.size) ++
    "):\n".toList ++ ['\n'].intercalate bad ++ "\n\n  the whole server:\n".toList ++
    ['\n'].intercalate (body.map sayInsn)

/-- **What is wrong with a server**, if anything. -/
def problem (name : List Char) (sec : Sec) : Except (List Char) (Option (List Char)) :=
  if sec.syms.length > 1 then .ok (some (sayClones name sec.syms))
  else
    match disassemble run objdump binary sec.vma sec.size with
    | .error text => .error text
    | .ok [] => .ok (some (sayNothing name sec))
    | .ok body =>
      match check body sec.vma (sec.vma + sec.size) with
      | [] => .ok none
      | bad => .ok (some (sayBad name sec bad body))

/-- The problems of the servers of these names; `main` has seen to it that they are all there. -/
def problems (found : List (List Char × Sec)) :
    List (List Char) → Except (List Char) (List (List Char))
  | [] => .ok []
  | name :: symbols =>
    match found.lookup name with
    | none => problems found symbols
    | some sec =>
      match problem run objdump binary name sec with
      | .error text => .error text
      | .ok said =>
        match problems found symbols with
        | .error text => .error text
        | .ok rest => .ok (said.toList ++ rest)

/-- `[s for s in args.symbols if s not in found]` -/
def missing (found : List (List Char × Sec)) (symbols : List (List Char)) : List (List Char) :=
  symbols.filter fun s => (found.lookup s).isNone

/-- `[s for s in found if s not in args.symbols]` -/
def extra (found : List (List Char × Sec)) (symbols : List (List Char)) : List (List Char) :=
  (found.map (·.1)).filter fun s => !symbols.contains s

def sayUnreadable (exc : List Char) : List Char :=
  "isr-z-check: cannot read the linker map ".toList ++ mapfile ++ ": ".toList ++ exc ++
    ("\n  emu68_module_layout() emits it with -Wl,-Map; the check needs it\n" ++
      "  because HUNK has no symbol table.").toList

def sayMissing (missing : List (List Char)) : List Char :=
  "isr-z-check: no .text.isr.<name> section in ".toList ++ mapfile ++ " for: ".toList ++
    [',', ' '].intercalate missing ++
    ("\n  An interrupt server declares itself with EMU68_INTSERVER(<name>)\n" ++
      "  from <intserver.h>, and the name in it must match the function.\n" ++
      "  Note LTO targets build with -Wno-attributes, so a misspelled\n" ++
      "  section(...) is silently a no-op - this error is the only signal.").toList

/-- The names in order, by the characters' codes. -/
def sorted (names : List (List Char)) : List (List Char) :=
  names.mergeSort fun a b => a.map Char.toNat ≤ b.map Char.toNat

def sayExtra (extra : List (List Char)) : List Char :=
  "isr-z-check: ".toList ++ binary ++
    " carries interrupt server(s) the build does not know about: ".toList ++
    [',', ' '].intercalate (sorted extra) ++
    ("\n  Every EMU68_INTSERVER() must be listed in emu68_isr_z_check(... SERVERS ...),\n" ++
      "  otherwise it ships unchecked.").toList

def sayProblems (problems : List (List Char)) : List Char :=
  "isr-z-check: interrupt server(s) may return the wrong Z flag.\n\n".toList ++
    ['\n', '\n'].intercalate problems ++
    ("\n\nAn Exec interrupt server signals \"handled, stop the chain\" with Z\n" ++
      "clear and \"not mine, keep walking\" with Z set; the caller tests the\n" ++
      "flag, not D0.  A compiler epilogue ending in MOVE (rather than the\n" ++
      "CCR-transparent MOVEM) overwrites it with the restored register.\n" ++
      "Write the server in assembly -- see interrupt-chaining.md in\n" ++
      "emu68-gic400-library.\n").toList

/-- **`main`**, of what the map's file reads as; an error is what the script exits with. -/
def main (map : Except (List Char) (List (List Char))) (symbols : List (List Char)) :
    Except (List Char) Unit :=
  match map with
  | .error exc => .error (sayUnreadable mapfile exc)
  | .ok lines =>
    let found := sections lines
    if missing found symbols ≠ [] then .error (sayMissing mapfile (missing found symbols))
    else if extra found symbols ≠ [] then .error (sayExtra binary (extra found symbols))
    else
      match problems run objdump binary found symbols with
      | .error text => .error text
      | .ok [] => .ok ()
      | .ok ps => .error (sayProblems ps)

end Script

/-! ## What the disassembler prints -/

/-- **An instruction's line.** -/
structure InsnLine where
  before : List Char
  addr : Hex
  opcode : List Char
  text : List Char
  blank : ∀ c ∈ before, isBlank c = true
  ne_nil : opcode ≠ []
  words : ∀ c ∈ opcode, isOpcode c = true
  line : ∀ c ∈ text, (c != '\n') = true

/-- **A line**: an instruction, or anything else. -/
inductive Listed where
  | insn (i : InsnLine)
  | other (line : List Char) (h : matchFront INSN line = none)

def Listed.text : Listed → List Char
  | .insn i => i.before ++ (i.addr.chars ++ ([':', '\t'] ++ (i.opcode ++ '\t' :: i.text)))
  | .other line _ => line

/-- The instruction, if it is one. -/
def Listed.toInsn : Listed → Option (List Char × List Char)
  | .insn i => some (i.addr.chars, strip isBlank i.text)
  | .other _ _ => none

/-- **The instructions of a listing.** -/
def instructions (lines : List Listed) : List (List Char × List Char) :=
  lines.filterMap Listed.toInsn

/-- An instruction is read. -/
theorem results_insn (i : InsnLine) :
    results INSN (Listed.insn i).text = [[i.addr.chars, i.text]] := by
  have hop : ∀ c, isOpcode c = true → (c == '\t') = false := by
    intro c hc
    refine beq_false_of_ne ?_
    rintro rfl
    exact absurd hc (by decide)
  have hlast : results [.many 0 (· != '\n') true, .ahead atEnd] i.text = [[i.text]] := by
    have h := results_many_whole (r := [.ahead atEnd]) (k := 0) (l := []) (g := true) i.line
      (fun d hd => nomatch hd) (Nat.zero_le _) fun c v hd => results_ahead_of_not (by
        rw [List.append_nil, atEnd, decide_eq_false (List.cons_ne_nil c v), Bool.false_or]
        refine decide_eq_false fun heq => ?_
        have hc := hd c List.mem_cons_self
        rw [(List.cons.inj heq).1] at hc
        exact absurd hc (by decide))
    rw [List.append_nil] at h
    rw [h]
    rfl
  have hopcode : results [.many 1 isOpcode false, .one (· == '\t'), .many 0 (· != '\n') true,
      .ahead atEnd] (i.opcode ++ '\t' :: i.text) = [[i.text]] := by
    rw [results_many_one i.words (by decide) hop (List.length_pos_iff.mpr i.ne_nil),
      results_one (p := (· == '\t')) (by decide), hlast]
    rfl
  have haddr : results (.many 1 isHex true :: (lit [':', '\t'] ++ [.many 1 isOpcode false,
      .one (· == '\t'), .many 0 (· != '\n') true, .ahead atEnd]))
        (i.addr.chars ++ ([':', '\t'] ++ (i.opcode ++ '\t' :: i.text))) =
      [[i.addr.chars, i.text]] := by
    rw [results_many_lit i.addr.hex (by decide) i.addr.one_le, hopcode]
    rfl
  obtain ⟨c, v, hv⟩ := List.exists_cons_of_ne_nil i.addr.ne_nil
  have hc : isBlank c = false := isBlank_of_isHex (i.addr.hex c (by
    rw [hv]
    exact List.mem_cons_self))
  rw [INSN, Listed.text, results_many_whole i.blank _ (Nat.zero_le _), haddr]
  · rfl
  · intro d w hd
    refine results_many_of_not ?_
    by_contra h
    rw [Bool.not_eq_false] at h
    exact Bool.false_ne_true ((isBlank_of_isHex h).symm.trans (hd d List.mem_cons_self))
  · intro d hd
    rw [hv] at hd
    exact Option.some.inj hd ▸ hc

theorem insnLine_text (l : Listed) : insnLine l.text = l.toInsn := by
  cases l with
  | insn i =>
    rw [insnLine, matchFront, results_insn]
    rfl
  | other line h =>
    rw [Listed.text, insnLine, h]
    rfl

/-- **Every line of a listing is one of these.** -/
theorem exists_listed {line : List Char} (hline : '\n' ∉ line) : ∃ l : Listed, l.text = line := by
  by_cases hmatch : results INSN line = []
  · exact ⟨.other line (by rw [matchFront, hmatch]; rfl), rfl⟩
  · obtain ⟨before, l, rfl, -, hbefore, h⟩ := exists_of_many hmatch
    obtain ⟨addr, l, rfl, haddr, hhex, h⟩ := exists_of_many h
    obtain ⟨l, rfl, h⟩ := exists_of_lit h
    obtain ⟨opcode, l, rfl, hopcode, hwords, h⟩ := exists_of_many h
    obtain ⟨c, l, rfl, hc, h⟩ := exists_of_one h
    obtain ⟨text, l, rfl, -, htext, h⟩ := exists_of_many h
    obtain rfl : l = [] := by
      rcases Bool.or_eq_true_iff.mp (of_ahead h) with hnil | hnewline
      · exact of_decide_eq_true hnil
      · rw [of_decide_eq_true hnewline] at hline
        exact absurd (by simp) hline
    refine ⟨.insn ⟨before, ⟨addr, List.ne_nil_of_length_pos haddr, hhex⟩, opcode, text, hbefore,
      List.ne_nil_of_length_pos hopcode, hwords, htext⟩, ?_⟩
    rw [Listed.text, eq_of_beq hc, List.append_nil]

/-! ## What is found in a map -/

section Placed

variable {name : List Char} {pieces : List Piece} {found : List (List Char × Sec)}

/-- What a piece says of the server of a name. -/
def Piece.place (name : List Char) : Piece → Option Sec
  | .server n _ place syms => if name = n.chars then some (said place syms) else none
  | .other .. => none

/-- **The section of a server**: the last of its name. -/
def placed (name : List Char) : List Piece → Option Sec
  | [] => none
  | piece :: pieces => (placed name pieces).or (piece.place name)

theorem lookup_record (piece : Piece) :
    (record found piece).lookup name = (piece.place name).or (found.lookup name) := by
  cases piece with
  | server n wrapped place syms =>
    rw [record, lookup_setSec, Piece.place]
    split
    · rfl
    · rfl
  | other first more hfirst hsym hmore => rfl

theorem lookup_foldl_record : (pieces.foldl record found).lookup name =
    (placed name pieces).or (found.lookup name) := by
  induction pieces generalizing found with
  | nil => rfl
  | cons piece pieces ih => rw [List.foldl_cons, ih, lookup_record, placed, Option.or_assoc]

/-- **What is found under a name** is the last section of it. -/
theorem lookup_sections : (sections (pieces.flatMap Piece.lines)).lookup name =
    placed name pieces := by
  rw [sections_printed, lookup_foldl_record, List.lookup_nil, Option.or_none]

end Placed

/-! ## When the script passes -/

section Passes

variable {run : List (List Char) → Except (List Char) (List (List Char))}
variable {listing : ℕ → ℕ → Except (List Char) (List Listed)}
variable {objdump binary mapfile name : List Char} {sec : Sec} {symbols : List (List Char)}
variable {found : List (List Char × Sec)} {lines : List (List Char)}

/-- **A server that is in order**: one function, with instructions, and no complaint about them. -/
def Good (listing : ℕ → ℕ → Except (List Char) (List Listed)) (sec : Sec) : Prop :=
  sec.syms.length ≤ 1 ∧ ∃ lines, listing sec.vma sec.size = .ok lines ∧ instructions lines ≠ [] ∧
    check (instructions lines) sec.vma (sec.vma + sec.size) = []

/-- The disassembler prints this of the module. -/
def Prints (run : List (List Char) → Except (List Char) (List (List Char)))
    (objdump binary : List Char) (listing : ℕ → ℕ → Except (List Char) (List Listed)) : Prop :=
  ∀ vma size, run (command objdump binary vma size) =
    (listing vma size).map (List.map Listed.text)

/-- **Whatever the disassembler prints**, in lines, is such a listing. -/
theorem exists_prints (hrun : ∀ args out, run args = .ok out → ∀ line ∈ out, '\n' ∉ line) :
    ∃ listing, Prints run objdump binary listing := by
  have hlines : ∀ out : List (List Char), (∀ line ∈ out, '\n' ∉ line) →
      ∃ ls : List Listed, ls.map Listed.text = out := by
    intro out hout
    induction out with
    | nil => exact ⟨[], rfl⟩
    | cons line out ih =>
      obtain ⟨l, hl⟩ := exists_listed (hout line List.mem_cons_self)
      obtain ⟨ls, hls⟩ := ih fun line' hmem => hout line' (List.mem_cons_of_mem line hmem)
      exact ⟨l :: ls, by rw [List.map_cons, hl, hls]⟩
  have hlisting : ∀ vma size, ∃ x : Except (List Char) (List Listed),
      run (command objdump binary vma size) = x.map (List.map Listed.text) := by
    intro vma size
    cases hout : run (command objdump binary vma size) with
    | error exc => exact ⟨.error exc, rfl⟩
    | ok out =>
      obtain ⟨ls, hls⟩ := hlines out (hrun _ _ hout)
      exact ⟨.ok ls, by rw [← hls]; rfl⟩
  choose listing hprints using hlisting
  exact ⟨listing, hprints⟩

theorem disassemble_of_error {vma size : ℕ} {exc : List Char} (hrun : Prints run objdump binary
    listing) (h : listing vma size = .error exc) :
    ∃ text, disassemble run objdump binary vma size = .error text := by
  rw [disassemble, hrun, h]
  exact ⟨_, rfl⟩

theorem disassemble_of_ok {vma size : ℕ} {lines : List Listed} (hrun : Prints run objdump binary
    listing) (h : listing vma size = .ok lines) :
    disassemble run objdump binary vma size = .ok (instructions lines) := by
  have hread : (lines.map Listed.text).filterMap insnLine = instructions lines := by
    rw [List.filterMap_map, instructions]
    exact congrArg (List.filterMap · lines) (funext insnLine_text)
  rw [disassemble, hrun, h]
  exact congrArg Except.ok hread

/-- **There is nothing wrong with a server** iff it is in order. -/
theorem problem_eq_none_iff (hrun : Prints run objdump binary listing) :
    problem run objdump binary name sec = .ok none ↔ Good listing sec := by
  rw [problem, Good]
  split
  · rename_i hmore
    exact iff_of_false (fun h => Option.some_ne_none _ (Except.ok.inj h))
      fun h => absurd h.1 (Nat.not_le.mpr hmore)
  · rename_i hone
    rw [and_iff_right (Nat.not_lt.mp hone)]
    cases hlist : listing sec.vma sec.size with
    | error exc =>
      obtain ⟨text, htext⟩ := disassemble_of_error hrun hlist
      rw [htext]
      refine iff_of_false (fun h => nomatch h) ?_
      rintro ⟨lines, h, -⟩
      exact nomatch h
    | ok lines =>
      have hex : (∃ lines', Except.ok (ε := List Char) lines = .ok lines' ∧
          instructions lines' ≠ [] ∧ check (instructions lines') sec.vma (sec.vma + sec.size) = [])
            ↔ instructions lines ≠ [] ∧
              check (instructions lines) sec.vma (sec.vma + sec.size) = [] :=
        ⟨fun ⟨_, h, hgood⟩ => Except.ok.inj h ▸ hgood, fun hgood => ⟨lines, rfl, hgood⟩⟩
      rw [disassemble_of_ok hrun hlist, hex]
      cases instructions lines with
      | nil =>
        exact iff_of_false (fun h => Option.some_ne_none _ (Except.ok.inj h)) fun h => h.1 rfl
      | cons e body =>
        rw [and_iff_right (List.cons_ne_nil e body)]
        cases hbad : check (e :: body) sec.vma (sec.vma + sec.size) with
        | nil =>
          simp only [hbad]
        | cons text bad =>
          simp only [hbad]
          exact iff_of_false (fun h => Option.some_ne_none _ (Except.ok.inj h))
            (List.cons_ne_nil text bad)

theorem problems_eq_nil_iff (hrun : Prints run objdump binary listing) :
    problems run objdump binary found symbols = .ok [] ↔
      ∀ name ∈ symbols, ∀ sec, found.lookup name = some sec → Good listing sec := by
  induction symbols with
  | nil => exact iff_of_true rfl fun name hname => absurd hname List.not_mem_nil
  | cons name symbols ih =>
    rw [problems, List.forall_mem_cons]
    cases hfound : found.lookup name with
    | none => exact ih.trans (and_iff_right fun sec h => nomatch h).symm
    | some sec =>
      have hone : (∀ sec', some sec = some sec' → Good listing sec') ↔ Good listing sec :=
        ⟨fun h => h sec rfl, fun h sec' heq => Option.some.inj heq ▸ h⟩
      have hgood : problem run objdump binary name sec = .ok none ↔ Good listing sec :=
        problem_eq_none_iff hrun
      rw [hone, ← ih, ← hgood]
      simp only
      cases problem run objdump binary name sec with
      | error text =>
        refine iff_of_false (fun h => nomatch h) ?_
        rintro ⟨h, -⟩
        exact nomatch h
      | ok said =>
        cases problems run objdump binary found symbols with
        | error text =>
          refine iff_of_false (fun h => nomatch h) ?_
          rintro ⟨-, h⟩
          exact nomatch h
        | ok rest =>
          cases said with
          | none => exact (and_iff_right rfl).symm
          | some text =>
            refine iff_of_false (fun h => nomatch h) ?_
            rintro ⟨h, -⟩
            exact nomatch h

theorem missing_eq_nil_iff : missing found symbols = [] ↔
    ∀ name ∈ symbols, (found.lookup name).isSome = true := by
  rw [missing, List.filter_eq_nil_iff]
  refine forall₂_congr fun name _ => ?_
  rw [Bool.not_eq_true, Option.isNone_eq_false_iff]

theorem extra_eq_nil_iff : extra found symbols = [] ↔
    ∀ name, (found.lookup name).isSome = true → name ∈ symbols := by
  rw [extra, List.filter_eq_nil_iff]
  refine forall_congr' fun name => ?_
  rw [Bool.not_eq_true, Bool.not_eq_false', List.contains_iff_mem, List.lookup_isSome_iff,
    List.mem_map]
  exact imp_congr_left (exists_congr fun e => and_congr_right fun _ => by rw [beq_iff_eq, eq_comm])

/-- **The script passes** iff the servers in the map are those it was given, and all in order. -/
theorem main_eq_ok_iff (hrun : Prints run objdump binary listing) :
    main run objdump binary mapfile (.ok lines) symbols = .ok () ↔
      (∀ name, name ∈ symbols ↔ ((sections lines).lookup name).isSome = true) ∧
        ∀ name sec, (sections lines).lookup name = some sec → Good listing sec := by
  rw [main]
  by_cases hmissing : missing (sections lines) symbols = []
  · have hhas := missing_eq_nil_iff.mp hmissing
    by_cases hextra : extra (sections lines) symbols = []
    · have hlisted : ∀ name, name ∈ symbols ↔ ((sections lines).lookup name).isSome = true :=
        fun name => ⟨hhas name, extra_eq_nil_iff.mp hextra name⟩
      have hall : (∀ name sec, (sections lines).lookup name = some sec → Good listing sec) ↔
          ∀ name ∈ symbols, ∀ sec, (sections lines).lookup name = some sec → Good listing sec :=
        ⟨fun h name _ => h name, fun h name sec hsec =>
          h name ((hlisted name).mpr (hsec ▸ rfl)) sec hsec⟩
      simp only [hmissing, hextra, ne_eq, not_true_eq_false, if_false]
      rw [and_iff_right hlisted, hall, ← problems_eq_nil_iff hrun]
      cases problems run objdump binary (sections lines) symbols with
      | error text => exact iff_of_false (fun h => nomatch h) fun h => nomatch h
      | ok ps =>
        cases ps with
        | nil => exact iff_of_true rfl rfl
        | cons p ps => exact iff_of_false (fun h => nomatch h) fun h => nomatch h
    · simp only [hmissing, hextra, ne_eq, not_true_eq_false, not_false_eq_true, if_false, if_true]
      exact iff_of_false (fun h => nomatch h) fun h =>
        hextra (extra_eq_nil_iff.mpr fun name => (h.1 name).mpr)
  · simp only [hmissing, ne_eq, not_false_eq_true, if_true]
    exact iff_of_false (fun h => nomatch h) fun h =>
      hmissing (missing_eq_nil_iff.mpr fun name => (h.1 name).mp)

end Passes

/-! ## The results -/

section Module

variable {run : List (List Char) → Except (List Char) (List (List Char))}
variable {listing : ℕ → ℕ → Except (List Char) (List Listed)}
variable {objdump binary mapfile name : List Char} {sec : Sec} {symbols : List (List Char)}
variable {alu : Alu} {sp : Spelling} {body : List Line} {lines : List Listed} {s s' : State}

/-- **What a module passes by**: whatever the linker and the disassembler print, the script passes
iff the servers in the map are those it was given, and the last section of each name is in order. -/
theorem build_check_exact (hrun : Prints run objdump binary listing) (pieces : List Piece) :
    main run objdump binary mapfile (.ok (pieces.flatMap Piece.lines)) symbols = .ok () ↔
      (∀ name, name ∈ symbols ↔ (placed name pieces).isSome = true) ∧
        ∀ name sec, placed name pieces = some sec → Good listing sec := by
  rw [main_eq_ok_iff hrun]
  refine and_congr ?_ ?_
  · exact forall_congr' fun name => by rw [lookup_sections]
  · exact forall₂_congr fun name sec => by rw [lookup_sections]

/-! ## A module with one server -/

/-- `moveq #1,d0; rts`: every interrupt is its own. -/
def claiming : List Line :=
  [⟨0x1000, 2, .data .moveq .l [.imm 1] (.reg (.d 0))⟩, ⟨0x1002, 2, .rts⟩]

/-- Its name. -/
def claimingName : Name := ⟨['i', 's', 'r'], List.cons_ne_nil _ _, List.all_eq_true.mp rfl⟩

def blank : Blank := ⟨[' '], List.cons_ne_nil _ _, List.all_eq_true.mp rfl⟩

/-- Where it is: four bytes at `0x1000`. -/
def claimingStart : Hex := ⟨['1', '0', '0', '0'], List.cons_ne_nil _ _, List.all_eq_true.mp rfl⟩

def claimingPlace : Placed where
  before := blank
  vma := claimingStart
  between := blank
  size := ⟨['4'], List.cons_ne_nil _ _, List.all_eq_true.mp rfl⟩
  behind := blank
  object := ⟨['o'], List.cons_ne_nil _ _, List.all_eq_true.mp rfl⟩
  rest := []

/-- The map: a heading, and the server's section with its one symbol. -/
def claimingMap : List Piece :=
  [.other ['m', 'a', 'p'] [] ⟨rfl, rfl⟩ rfl (List.forall_mem_nil _),
    .server claimingName true claimingPlace
      [⟨blank, claimingStart, blank, ['i', 's', 'r'], rfl, List.all_eq_true.mp rfl⟩]]

/-- What the disassembler prints of it. -/
def claimingListing : List Listed :=
  [.other [] rfl,
    .insn ⟨[], claimingStart, ['7', '0', '0', '1'],
      ['m', 'o', 'v', 'e', 'q', ' ', '#', '1', ',', '%', 'd', '0'], List.forall_mem_nil _,
      List.cons_ne_nil _ _, List.all_eq_true.mp rfl, List.all_eq_true.mp rfl⟩,
    .insn ⟨[], ⟨['1', '0', '0', '2'], List.cons_ne_nil _ _, List.all_eq_true.mp rfl⟩,
      ['4', 'e', '7', '5'], ['r', 't', 's'], List.forall_mem_nil _, List.cons_ne_nil _ _,
      List.all_eq_true.mp rfl, List.all_eq_true.mp rfl⟩]

theorem good_claiming : Good (fun _ _ => .ok claimingListing) ⟨0x1000, 4, [['i', 's', 'r']]⟩ :=
  ⟨by decide, claimingListing, rfl, by decide, by decide +kernel⟩

theorem placed_claiming (name : List Char) : placed name claimingMap =
    if name = ['i', 's', 'r'] then some ⟨0x1000, 4, [['i', 's', 'r']]⟩ else none := by
  rw [claimingMap, placed, placed, placed, Option.none_or]
  exact Option.or_none

theorem mem_claiming (name : List Char) :
    name ∈ [['i', 's', 'r']] ↔ (placed name claimingMap).isSome = true := by
  rw [placed_claiming, List.mem_singleton]
  split
  · rename_i h
    exact iff_of_true h rfl
  · rename_i h
    exact iff_of_false h Bool.false_ne_true

theorem good_of_placed (h : placed name claimingMap = some sec) :
    Good (fun _ _ => .ok claimingListing) sec := by
  rw [placed_claiming] at h
  split at h
  · exact Option.some.inj h ▸ good_claiming
  · exact nomatch h

theorem prints_claiming : Prints (fun _ => .ok (claimingListing.map Listed.text)) ['o', 'd'] ['m']
    fun _ _ => .ok claimingListing := fun _ _ => rfl

/-- The script passes this module. -/
theorem build_check_exact_claiming :
    main (fun _ => .ok (claimingListing.map Listed.text)) ['o', 'd'] ['m'] ['m', 'a', 'p']
      (.ok (claimingMap.flatMap Piece.lines)) [['i', 's', 'r']] = .ok () :=
  (build_check_exact prints_claiming claimingMap).mpr ⟨mem_claiming, fun _ _ => good_of_placed⟩

/-! ## What a module does -/

/-- **What a module that passed does**: any server in its map, listed or not, run from its start in
the order of its lines, has `Z` set iff `D0` is zero wherever an epilogue of it is. -/
theorem module_tells {told : Bool} (hrun : Prints run objdump binary listing) (pieces : List Piece)
    (hpass : main run objdump binary mapfile (.ok (pieces.flatMap Piece.lines)) symbols = .ok ())
    (hname : placed name pieces = some sec) (hlist : listing sec.vma sec.size = .ok lines)
    (hbody : instructions lines = body.map (Line.printed sp))
    (hfill : Fills body sec.vma (sec.vma + sec.size)) (hentry : s.pc = sec.vma)
    (hsteps : Relation.ReflTransGen (fun t t' => Watched alu sp body t t' ∧ Orderly sp body t t')
      (s, false) (s', told))
    (hep : AtEpilogue sp body s'.pc) : Tells s'.cpu := by
  have hgood : Good listing sec :=
    ((main_eq_ok_iff hrun).mp hpass).2 name sec (lookup_sections.trans hname)
  have hcheck : check (body.map (Line.printed sp)) sec.vma (sec.vma + sec.size) = [] := by
    obtain ⟨-, lines', hlist', -, hcheck⟩ := hgood
    obtain rfl := Except.ok.inj (hlist.symm.trans hlist')
    rwa [hbody] at hcheck
  have hinv : Inv sp body (s', told) := inv_run hfill hcheck hentry hsteps
  exact hinv.tells (hinv.known hep)

/-- At its `rts`, this server has `Z` clear. -/
theorem module_tells_claiming :
    Tells (Op.run arith .moveq .l [.imm 1] (.reg (.d 0)) (cpu 0 0 0)) := by
  have hpass : main (fun _ => .ok (claimingListing.map Listed.text)) ['o', 'd'] ['m']
      ['m', 'a', 'p'] (.ok (claimingMap.flatMap Piece.lines)) [['i', 's', 'r']] = .ok () := by
    refine (main_eq_ok_iff prints_claiming).mpr ⟨fun name => ?_, fun name sec hsec => ?_⟩
    · rw [lookup_sections]
      exact mem_claiming name
    · rw [lookup_sections] at hsec
      exact good_of_placed hsec
  have hbody : instructions claimingListing = claiming.map (Line.printed .mit) := by decide +kernel
  have hfill : Fills claiming 0x1000 0x1004 := ⟨rfl, by decide, rfl, by decide, rfl⟩
  have hstep : Watched arith .mit claiming (⟨0x1000, cpu 0 0 0⟩, false)
      (⟨0x1002, Op.run arith .moveq .l [.imm 1] (.reg (.d 0)) (cpu 0 0 0)⟩, true) :=
    ⟨.insn (e := claiming[0]) (by decide) rfl rfl, by decide +kernel⟩
  have hep : AtEpilogue .mit claiming 0x1002 := ⟨[_], _, [], rfl, rfl, by decide +kernel⟩
  exact module_tells prints_claiming claimingMap hpass (placed_claiming ['i', 's', 'r']) rfl hbody
    hfill rfl (.single ⟨hstep, orderly_of_told hfill hstep.2 rfl⟩) hep

end Module

end IsrCheck
