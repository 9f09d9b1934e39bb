import Emu68Common.Machinery.Lines
import Emu68Common.Prefs.Number
import Emu68Common.Text.Buffer
import Emu68Common.Text.Echo

/-!
# Text/Numbers — `atoi`, and the numbers `_SNPrintfArgs` prints

`atoi` goes over blanks, takes a sign and reads digits as far as there are any; its `int` overflows
from `2 ^ 31` on.  What a decimal directive prints is a sign and digits with blanks or zeros filled
in, so `atoi` reads every number back but the least, and `prefs_number` reads back those that no
blanks were filled in for (`numbers_read_back`).

    -42  ──%06d──▸  -00042    ──atoi, prefs_number──▸  -42
    -42  ──%-6d──▸  -42␣␣␣    ──atoi──▸  -42, refused by prefs_number
-/

namespace Text

open Machinery Printf Prefs

/-! ## The source -/

/-- `*s == ' ' || (*s >= '\t' && *s <= '\r')` -/
def isSpace (c : UInt8) : Bool :=
  c == ' '.toUInt8 || (decide (char '\t'.toUInt8 ≤ char c) && decide (char c ≤ char '\r'.toUInt8))

/-- `while (*s >= '0' && *s <= '9') value = value * 10 + (*s++ - '0');` -/
def atoiLoop : List UInt8 → ℤ → Option ℤ
  | [], value => return value
  | c :: s, value =>
    if char '0'.toUInt8 ≤ char c ∧ char c ≤ char '9'.toUInt8 then do
      let tens ← checked (value * 10)
      let digit ← checked (char c - char '0'.toUInt8)
      let value ← checked (tens + digit)
      atoiLoop s value
    else return value

/-- **`atoi(s)`**; nothing, if a computation overflows. -/
def atoi (s : CString) : Option ℤ := do
  let s := s.bytes.dropWhile isSpace
  let sign : ℤ := if s.head? == some '-'.toUInt8 then -1 else 1
  let s := if s.head? == some '-'.toUInt8 || s.head? == some '+'.toUInt8 then s.tail else s
  let value ← atoiLoop s 0
  checked (sign * value)

/-! ## What `atoi` reads -/

theorem isDigit_iff_char {c : UInt8} :
    isDigit c = true ↔ char '0'.toUInt8 ≤ char c ∧ char c ≤ char '9'.toUInt8 := by
  have h0 : char '0'.toUInt8 = 48 := rfl
  have h9 : char '9'.toUInt8 = 57 := rfl
  constructor
  · intro h
    obtain ⟨heq, hle⟩ := char_digit h
    omega
  · rintro ⟨hge, hle⟩
    by_contra h
    have := char_not_digit h
    omega

theorem checked_none {z : ℤ} (h : 2 ^ 31 ≤ z) : checked z = none :=
  if_neg fun hz => absurd hz.2 (by rw [PREFS_NUMBER_MOST]; omega)

/-- **One more digit**: there is a number as long as an `int` holds it. -/
theorem oneDigit_eq {v d : ℕ} (hv : v < 2 ^ 31) (hd : d ≤ 9) (k : ℤ → Option ℤ) :
    (checked (v * 10)).bind (fun tens => (checked (d : ℤ)).bind fun digit =>
        (checked (tens + digit)).bind k)
      = if v * 10 + d < 2 ^ 31 then k ((v * 10 + d : ℕ) : ℤ) else none := by
  rw [checked_eq (z := (d : ℤ)) (by omega) (by omega)]
  by_cases htens : v * 10 < 2 ^ 31
  · rw [checked_eq (z := (v : ℤ) * 10) (by omega) (by omega), Option.bind_some, Option.bind_some]
    by_cases hsum : v * 10 + d < 2 ^ 31
    · rw [if_pos hsum, checked_eq (by omega) (by omega), Option.bind_some]
      exact congrArg k (by omega)
    · rw [if_neg hsum, checked_none (by omega), Option.bind_none]
  · rw [if_neg (by omega), checked_none (by omega), Option.bind_none]

/-- **The digits are read as long as an `int` holds their number**, and only then does a number
come out. -/
theorem atoiLoop_eq (s : List UInt8) {v : ℕ} (hv : v < 2 ^ 31) : atoiLoop s v =
    if (s.takeWhile isDigit).foldl (fun v c => v * 10 + (c.toNat - 48)) v < 2 ^ 31 then
      some (((s.takeWhile isDigit).foldl (fun v c => v * 10 + (c.toNat - 48)) v : ℕ) : ℤ)
    else none := by
  induction s generalizing v with
  | nil => exact (if_pos hv).symm
  | cons c s ih =>
    rw [atoiLoop]
    by_cases hc : isDigit c = true
    · obtain ⟨hdigit, hd⟩ := char_digit hc
      rw [if_pos (isDigit_iff_char.mp hc), List.takeWhile_cons_of_pos hc, List.foldl_cons, hdigit]
      refine (oneDigit_eq hv hd (atoiLoop s)).trans ?_
      by_cases hv' : v * 10 + (c.toNat - 48) < 2 ^ 31
      · rw [if_pos hv', ih hv']
      · -- a number never comes out smaller than a part of it
        have hle := le_foldl_value (s.takeWhile isDigit) (v * 10 + (c.toNat - 48))
        rw [if_neg hv', if_neg (by omega)]
    · rw [if_neg (mt isDigit_iff_char.mpr hc), List.takeWhile_cons_of_neg hc]
      exact (if_pos hv).symm

/-- **What `atoi` returns**: the number of the digits behind blanks and a sign, with the sign on, if
an `int` can hold it without. -/
theorem atoi_eq (s : CString) : atoi s =
    if value ((unsigned (s.bytes.dropWhile isSpace)).takeWhile isDigit) < 2 ^ 31 then
      some (if (s.bytes.dropWhile isSpace).head? = some '-'.toUInt8
        then -(value ((unsigned (s.bytes.dropWhile isSpace)).takeWhile isDigit) : ℤ)
        else value ((unsigned (s.bytes.dropWhile isSpace)).takeWhile isDigit))
    else none := by
  rw [atoi]
  generalize s.bytes.dropWhile isSpace = t
  have hunsigned : (if (t.head? == some '-'.toUInt8 || t.head? == some '+'.toUInt8) = true
      then t.tail else t) = unsigned t := by
    rw [unsigned]
    simp only [Bool.or_eq_true, beq_iff_eq]
  have hloop := atoiLoop_eq (unsigned t) (Nat.two_pow_pos 31)
  rw [Nat.cast_zero, ← value] at hloop
  simp only [hunsigned, hloop]
  by_cases hv : value ((unsigned t).takeWhile isDigit) < 2 ^ 31
  · rw [if_pos hv, if_pos hv, Option.bind_eq_bind, Option.bind_some]
    by_cases hminus : t.head? = some '-'.toUInt8
    · rw [if_pos hminus, if_pos (beq_iff_eq.mpr hminus), neg_one_mul]
      exact checked_eq (by omega) (by omega)
    · rw [if_neg hminus, if_neg (mt beq_iff_eq.mp hminus), one_mul]
      exact checked_eq (by omega) (by omega)
  · rw [if_neg hv, if_neg hv]
    rfl

/-! ## Numerals -/

variable {l : List UInt8} {c : UInt8} {m : ℕ} {z : ℤ} {mem : Block} {n buffer bufsize : ℕ}
  {f : List UInt8} {args : Cells}

theorem value_concat (l : List UInt8) (c : UInt8) :
    value (l ++ [c]) = value l * 10 + (c.toNat - 48) := List.foldl_append

/-- Leading zeros count nothing. -/
theorem value_zeros (k : ℕ) (l : List UInt8) :
    value (List.replicate k '0'.toUInt8 ++ l) = value l := by
  induction k with
  | zero => rfl
  | succ k ih => exact ih

theorem digit_spec : ∀ d < 10, isDigit (Nat.digitChar d).toUInt8 = true ∧
    (Nat.digitChar d).toUInt8.toNat - 48 = d := by decide +kernel

/-- **A decimal numeral is digits, and their number is its own.** -/
theorem numeral_spec (m : ℕ) : (∀ c ∈ numeral 10 false m, isDigit c = true) ∧
    numeral 10 false m ≠ [] ∧ value (numeral 10 false m) = m := by
  induction m using Nat.strong_induction_on with
  | _ m ih =>
    obtain ⟨hdigit, hlast⟩ := digit_spec (m % 10) (Nat.mod_lt m (by decide))
    rw [numeral_eq (by decide), if_neg Bool.false_ne_true, value_concat, hlast]
    refine ⟨fun c hc => ?_, List.append_ne_nil_of_right_ne_nil _ (List.cons_ne_nil _ _), ?_⟩
    · rcases List.mem_append.mp hc with hc | hc
      · split at hc
        · exact absurd hc List.not_mem_nil
        · exact (ih (m / 10) (by omega)).1 c hc
      · rwa [List.mem_singleton.mp hc]
    · by_cases h0 : m / 10 = 0
      · rw [if_pos h0, value, List.foldl_nil]
        omega
      · rw [if_neg h0, (ih (m / 10) (by omega)).2.2]
        omega

/-! ## What a decimal directive prints -/

/-- The number a decimal conversion prints of a cell. -/
def number (cell : BitVec 32) : Conversion → Option ℤ
  | .signed => some cell.toInt
  | .unsigned => some cell.toNat
  | _ => none

/-- The sign of a number. -/
def sign (z : ℤ) : List UInt8 := if z < 0 then ['-'.toUInt8] else []

/-- How many characters a directive fills in for a number. -/
def fill (d : Directive) (z : ℤ) : ℕ :=
  d.width - ((sign z).length + (numeral 10 false z.natAbs).length)

/-- Whether blanks are filled in, and not zeros. -/
def Padded (d : Directive) (z : ℤ) : Prop := 0 < fill d z ∧ (d.left = true ∨ d.zero = false)

instance (d : Directive) (z : ℤ) : Decidable (Padded d z) :=
  inferInstanceAs (Decidable (0 < fill d z ∧ (d.left = true ∨ d.zero = false)))

/-- The digits of a number, zeros in front. -/
def digits (j : ℕ) (z : ℤ) : List UInt8 :=
  List.replicate j '0'.toUInt8 ++ numeral 10 false z.natAbs

theorem digits_spec (j : ℕ) (z : ℤ) : (∀ c ∈ digits j z, isDigit c = true) ∧ digits j z ≠ [] ∧
    value (digits j z) = z.natAbs := by
  obtain ⟨hall, hne, hvalue⟩ := numeral_spec z.natAbs
  refine ⟨fun c hc => ?_, List.append_ne_nil_of_right_ne_nil _ hne, ?_⟩
  · rcases List.mem_append.mp hc with hc | hc
    · rw [(List.mem_replicate.mp hc).2]
      rfl
    · exact hall c hc
  · rw [digits, value_zeros, hvalue]

/-- **A number as it is printed**: a sign, zeros and a numeral, with blanks on either side; there
are some exactly if the directive is padded. -/
theorem bytes_decimal {d : Directive} {k : Conversion} {cell : BitVec 32} (mem : Block)
    (hk : d.conversion = some k) (hz : number cell k = some z) : ∃ i j k,
    d.bytes mem cell = List.replicate i ' '.toUInt8 ++ (sign z ++ digits j z) ++
      List.replicate k ' '.toUInt8 ∧ i + j + k = fill d z ∧ (0 < i + k ↔ Padded d z) := by
  have hr : d.rendering mem cell k
      = ⟨decide (z < 0), numeral 10 false z.natAbs, d.width, d.zero⟩ := by
    cases k <;> cases hz
    · rfl
    · rw [Directive.rendering, Int.natAbs_natCast,
        decide_eq_false (Int.not_lt.mpr (Int.natCast_nonneg _))]
  have hbytes : d.bytes mem cell =
      if d.left then sign z ++ digits 0 z ++ List.replicate (fill d z) ' '.toUInt8
      else if d.zero then sign z ++ List.replicate (fill d z) '0'.toUInt8 ++ digits 0 z
      else List.replicate (fill d z) ' '.toUInt8 ++ sign z ++ digits 0 z := by
    have hk' : d.bytes mem cell = (d.rendering mem cell k).bytes d.left := by
      rw [Directive.bytes, hk]
    rw [hk', hr, Rendering.bytes]
    simp only [decide_eq_true_eq]
    rfl
  rw [hbytes]
  cases hleft : d.left with
  | true =>
    refine ⟨0, 0, fill d z, rfl, Nat.zero_add _, ?_⟩
    rw [Padded, hleft, Nat.zero_add]
    exact (and_iff_left (.inl rfl)).symm
  | false =>
    cases hzero : d.zero with
    | true =>
      refine ⟨0, fill d z, 0, ?_, Nat.zero_add _, ?_⟩
      · rw [List.replicate_zero, List.append_nil]
        exact List.append_assoc _ _ _
      · rw [Padded, hleft, hzero]
        exact iff_of_false (Nat.lt_irrefl 0) fun h =>
          h.2.elim Bool.false_ne_true (Ne.symm Bool.false_ne_true)
    | false =>
      refine ⟨fill d z, 0, 0, ?_, rfl, ?_⟩
      · rw [List.replicate_zero, List.append_nil]
        exact List.append_assoc _ _ _
      · rw [Padded, hzero]
        exact (and_iff_left (.inr rfl)).symm

/-! ## It is read back -/

/-- A sign stands in front exactly if there is one. -/
theorem unsigned_sign (j : ℕ) (z : ℤ) (w : List UInt8) :
    unsigned (sign z ++ digits j z ++ w) = digits j z ++ w ∧
      ((sign z ++ digits j z ++ w).head? = some '-'.toUInt8 ↔ z < 0) := by
  obtain ⟨hall, hne, -⟩ := digits_spec j z
  rw [sign]
  split
  case isTrue hz => exact ⟨rfl, iff_of_true rfl hz⟩
  case isFalse hz =>
    obtain ⟨c, t, ht⟩ := List.exists_cons_of_ne_nil hne
    have hc : isDigit c = true := hall c (ht ▸ List.mem_cons_self)
    have hsign : ¬ (some c = some '-'.toUInt8 ∨ some c = some '+'.toUInt8) := by
      rintro (h | h) <;> rw [Option.some.inj h] at hc <;> exact absurd hc (by decide)
    rw [List.nil_append, ht]
    exact ⟨if_neg hsign, iff_of_false (fun h => hsign (.inl h)) hz⟩

/-- No character of a number is a blank. -/
theorem not_isSpace {j : ℕ} (hc : c ∈ sign z ++ digits j z) : isSpace c = false := by
  rcases List.mem_append.mp hc with hc | hc
  · rw [sign] at hc
    split at hc
    · rw [List.mem_singleton.mp hc]
      rfl
    · exact absurd hc List.not_mem_nil
  · have hdigit := isDigit_iff_char.mp ((digits_spec j z).1 c hc)
    have h0 : char '0'.toUInt8 = 48 := rfl
    have hcr : char '\r'.toUInt8 = 13 := rfl
    have hne : c ≠ ' '.toUInt8 := by
      rintro rfl
      exact absurd hdigit.1 (by decide)
    rw [isSpace, beq_false_of_ne hne, Bool.false_or, decide_eq_false (p := char c ≤ _) (by omega),
      Bool.and_false]

/-- **`atoi` goes past the blanks** and stops at those behind the number. -/
theorem atoi_decimal {s : CString} {i j k : ℕ} (hs : s.bytes = List.replicate i ' '.toUInt8 ++
      (sign z ++ digits j z) ++ List.replicate k ' '.toUInt8) :
    atoi s = if z.natAbs < 2 ^ 31 then some z else none := by
  obtain ⟨hall, hne, hvalue⟩ := digits_spec j z
  obtain ⟨hunsigned, hhead⟩ := unsigned_sign j z (List.replicate k ' '.toUInt8)
  have hskip : s.bytes.dropWhile isSpace
      = sign z ++ digits j z ++ List.replicate k ' '.toUInt8 := by
    rw [hs, List.append_assoc]
    refine dropWhile_append_stop (fun c hc => ?_) fun c hc => ?_
    · rw [(List.mem_replicate.mp hc).2]
      rfl
    · rw [List.head?_append_of_ne_nil _ (List.append_ne_nil_of_right_ne_nil _ hne)] at hc
      exact not_isSpace (List.mem_of_mem_head? hc)
  have hread : (digits j z ++ List.replicate k ' '.toUInt8).takeWhile isDigit = digits j z := by
    rw [List.takeWhile_append_of_pos hall]
    cases k with
    | zero => exact List.append_nil _
    | succ k => exact List.append_nil _
  rw [atoi_eq, hskip, hunsigned, hread, hvalue]
  simp only [hhead]
  congr 2
  split <;> omega

/-- What is no sign is not taken for one. -/
theorem mem_unsigned (hc : c ∈ l) (hminus : c ≠ '-'.toUInt8) (hplus : c ≠ '+'.toUInt8) :
    c ∈ unsigned l := by
  rw [unsigned]
  split
  case isFalse => exact hc
  case isTrue h =>
    cases l with
    | nil => exact absurd hc List.not_mem_nil
    | cons d l =>
      rcases List.mem_cons.mp hc with rfl | hc
      · exact (h.elim (fun h => hminus (Option.some.inj h)) fun h => hplus (Option.some.inj h)).elim
      · exact hc

/-- **`prefs_number` refuses blanks**, and reads anything else. -/
theorem prefsNumber_decimal {s : CString} {i j k : ℕ}
    (hs : s.bytes = List.replicate i ' '.toUInt8 ++ (sign z ++ digits j z) ++
      List.replicate k ' '.toUInt8) (hlong : PREFS_NUMBER_LEAST ≤ z) (least most out : ℤ) :
    prefsNumber s least most out = some
      (if ¬ 0 < i + k ∧ z ≤ PREFS_NUMBER_MOST ∧ least ≤ z ∧ z ≤ most then (true, z)
        else (false, out)) := by
  obtain ⟨hall, hne, hvalue⟩ := digits_spec j z
  rw [prefsNumber_eq]
  by_cases hblank : 0 < i + k
  · have hmem : ' '.toUInt8 ∈ s.bytes := by
      rw [hs, List.mem_append, List.mem_append, List.mem_replicate, List.mem_replicate]
      rcases Nat.add_pos_iff_pos_or_pos.mp hblank with hi | hk
      · exact .inl (.inl ⟨Nat.ne_of_gt hi, rfl⟩)
      · exact .inr ⟨Nat.ne_of_gt hk, rfl⟩
    have hin := mem_unsigned hmem (by decide) (by decide)
    rw [if_neg fun h => absurd (h.2.1 _ hin) (by decide), if_neg fun h => h.1 hblank]
  · obtain ⟨rfl, rfl⟩ : i = 0 ∧ k = 0 := by omega
    obtain ⟨hunsigned, hhead⟩ := unsigned_sign j z []
    rw [List.append_nil] at hunsigned hhead
    rw [List.replicate_zero, List.nil_append, List.append_nil] at hs
    have hnumber : numberOf s.bytes = z := by
      rw [numberOf, hs, hunsigned, List.append_nil, hvalue]
      simp only [hhead]
      split <;> omega
    rw [hnumber, hs, hunsigned, List.append_nil]
    refine congrArg some (if_congr ?_ rfl rfl)
    exact ⟨fun h => ⟨hblank, h.2.2.1.2, h.2.2.2⟩, fun h => ⟨hne, hall, ⟨hlong, h.2.1⟩, h.2.2⟩⟩

/-! ## Formats without strings -/

/-- A format no directive of which asks for a string. -/
def Stringless (f : List UInt8) : Prop :=
  ∀ d, Piece.directive d ∈ pieces f → d.conversion ≠ some .string

/-- **Without a string nothing is read from memory.** -/
theorem noAlias_of_stringless (e : Engine (List UInt8) Cells) (off : ℕ → Prop)
    (hf : Stringless f) : NoAlias e off n f args := by
  induction n generalizing f args with
  | zero => trivial
  | succ n ih =>
    cases f with
    | nil => trivial
    | cons c f =>
      rw [NoAlias]
      by_cases hc : c = '%'.toUInt8
      · subst hc
        rw [Stringless, pieces_directive] at hf
        have hscan : fmtModifiers (fmtPrec (fmtNumber (f.dropWhile isFlag) 0).2).2
            = scanned f := by
          rw [fmtModifiers_eq, fmtPrec_snd, fmtNumber_snd, scanned]
        rw [if_neg (not_not.mpr rfl), fmtFlags_eq]
        simp only [hscan]
        refine ⟨fun hs _ => absurd ?_ (hf _ List.mem_cons_self), ?_⟩
        · -- the scanned type character is the directive's
          have htype : (directive f).1.type = (scanned f).head? := rfl
          rw [Directive.conversion, htype]
          cases hg : scanned f with
          | nil => rw [hg] at hs; exact absurd hs (by decide)
          | cons c g =>
            rw [hg, List.headD_cons] at hs
            rw [hs]
            rfl
        · split
          · trivial
          · exact ih fun d hd => hf d (List.mem_cons_of_mem _ hd)
      · rw [Stringless, pieces_lit hc] at hf
        rw [if_pos hc]
        exact ih fun d hd => hf d (List.mem_cons_of_mem _ hd)

theorem supplied_of_stringless {ps : List Piece} {cells : Cells}
    (h : ∀ d, Piece.directive d ∈ ps → d.conversion ≠ some .string) : Supplied mem ps cells := by
  induction ps generalizing cells with
  | nil => trivial
  | cons p ps ih =>
    have hrest := fun d hd => h d (List.mem_cons_of_mem p hd)
    cases p with
    | lit c => exact ih hrest
    | directive d => exact ⟨fun hs => absurd hs (h d List.mem_cons_self), ih hrest⟩

theorem puts_keeper (mem : Block) (l out : List UInt8) : (keeper mem).puts l out = out ++ l := by
  induction l generalizing out with
  | nil => exact (List.append_nil out).symm
  | cons c l ih => rw [puts_cons, ih, keeper, List.append_assoc, List.singleton_append]

theorem supply_va (args : Cells) : supply fmtNextVa args = args := by
  ext1 i
  have hdrop : (fun a : Cells => (fmtNextVa a).2)^[i] args = fun j => args (j + i) := by
    induction i with
    | zero => rfl
    | succ i ih =>
      rw [Function.iterate_succ_apply', ih]
      ext1 j
      exact congrArg args (Nat.succ_add_eq_add_succ j i)
  rw [supply, hdrop]
  exact congrArg args (Nat.zero_add i)

/-- **What a format without strings prints to a buffer with room for it.** -/
theorem snprintfArgs_text {fmt : CString} (hn : fmt.bytes.length + 2 ^ 31 < n)
    (hsmall : ∀ p ∈ pieces fmt.bytes, p.Small) (hf : Stringless fmt.bytes) (hb : buffer ≠ 0)
    (hroom : (render mem (pieces fmt.bytes) args).length < bufsize)
    (hlong : (render mem (pieces fmt.bytes) args).length < 2 ^ 31)
    (hnul : (0 : UInt8) ∉ render mem (pieces fmt.bytes) args) : ∃ mem',
    snPrintfArgs n mem buffer bufsize (some fmt) args
        = some (((render mem (pieces fmt.bytes) args).length : ℤ), mem') ∧
      mem'.Text buffer (render mem (pieces fmt.bytes) args) := by
  have hout : output n mem (some fmt) args = some (render mem (pieces fmt.bytes) args) := by
    have hcore := fmtCore_eq (e := keeper mem) [] args fmt.nul_free hn hsmall
      (supplied_of_stringless hf)
    rw [output, hcore, Option.map_some, puts_keeper, List.nil_append]
    exact congrArg (fun cells => some (render mem (pieces fmt.bytes) cells)) (supply_va args)
  have haway : Away n mem (some fmt) args buffer bufsize := fun f hsome =>
    Option.some.inj hsome ▸ noAlias_of_stringless (keeper mem) _ hf
  refine ⟨_, (snprintfArgs_eq ..).trans (vsnprintf_eq hout hlong haway), ?_⟩
  have hput : printed mem buffer bufsize (render mem (pieces fmt.bytes) args)
      = mem.put buffer (render mem (pieces fmt.bytes) args ++ [0]) := by
    rw [printed, if_pos ⟨hb, Nat.ne_of_gt (Nat.zero_lt_of_lt hroom)⟩,
      List.take_of_length_le (by omega)]
  rw [hput]
  refine Block.Text.intro hnul (fun i hi => ?_) ?_
  · rw [Block.put_add, List.getD_append _ _ _ _ hi, List.getD_eq_getElem _ _ hi]
  · rw [Block.put_add, List.getD_append_right _ _ _ _ le_rfl, Nat.sub_self]
    rfl

/-! ## The round trip -/

/-- What is printed has no NUL in it. -/
theorem nul_notMem_decimal (i j k : ℕ) (z : ℤ) : (0 : UInt8) ∉ List.replicate i ' '.toUInt8 ++
    (sign z ++ digits j z) ++ List.replicate k ' '.toUInt8 := by
  intro h
  rw [List.mem_append, List.mem_append, List.mem_replicate, List.mem_replicate] at h
  rcases h with (h | h) | h
  · exact absurd h.2 (by decide)
  · rw [List.mem_append, sign] at h
    rcases h with h | h
    · split at h
      · exact absurd (List.mem_singleton.mp h) (by decide)
      · exact absurd h List.not_mem_nil
    · exact absurd ((digits_spec j z).1 0 h) (by decide)
  · exact absurd h.2 (by decide)

/-- A cell's number, as far as a directive can print it. -/
theorem number_bounds {k : Conversion} {cell : BitVec 32} (hz : number cell k = some z) :
    PREFS_NUMBER_LEAST ≤ z ∧ z < 2 ^ 32 := by
  have hlt := cell.isLt
  have hlow := BitVec.le_toInt cell
  have hhigh := BitVec.toInt_lt (x := cell)
  cases k <;> cases hz <;> rw [PREFS_NUMBER_LEAST] <;> omega

/-- How long it gets. -/
theorem length_bytes {d : Directive} {k : Conversion} {cell : BitVec 32} (mem : Block)
    (hk : d.conversion = some k) (hz : number cell k = some z) :
    (d.bytes mem cell).length ≤ max d.width 11 := by
  obtain ⟨i, j, k, hbytes, hfill, -⟩ := bytes_decimal mem hk hz
  obtain ⟨hleast, hmost⟩ := number_bounds hz
  have hnumeral := numeral_length (le_refl 10) false (v := z.natAbs) (by
    rw [PREFS_NUMBER_LEAST] at hleast
    omega)
  have hsign : (sign z).length ≤ 1 := by
    rw [sign]
    split
    · exact le_rfl
    · exact Nat.zero_le 1
  rw [hbytes, digits]
  simp only [List.length_append, List.length_replicate]
  rw [fill] at hfill
  omega

/-- **A printed number is read back.**  Whatever the flags, the width and the room beyond it, what a
decimal directive leaves in the buffer is a text from which `atoi` reads the number exactly if its
magnitude fits an `int` (else it overflows), and `prefs_number` reads it exactly if no blanks were
filled in and the number is in the range asked for; its `*out` is otherwise as it was. -/
theorem numbers_read_back {fmt : CString} {d : Directive} {k : Conversion}
    (hfmt : pieces fmt.bytes = [.directive d]) (hsmall : d.Small) (hk : d.conversion = some k)
    (hz : number (args 0) k = some z) (hn : fmt.bytes.length + 2 ^ 31 < n) (hb : buffer ≠ 0)
    (hroom : max d.width 11 < bufsize) : ∃ mem' s,
    snPrintfArgs n mem buffer bufsize (some fmt) args = some ((s.bytes.length : ℤ), mem') ∧
      mem'.Text buffer s.bytes ∧
      atoi s = (if z.natAbs < 2 ^ 31 then some z else none) ∧
      ∀ least most out, prefsNumber s least most out = some
        (if ¬ Padded d z ∧ z ≤ PREFS_NUMBER_MOST ∧ least ≤ z ∧ z ≤ most then (true, z)
          else (false, out)) := by
  obtain ⟨i, j, m, hbytes, -, hpad⟩ := bytes_decimal mem hk hz
  have hrender : render mem (pieces fmt.bytes) args = d.bytes mem (args 0) := by
    rw [hfmt]
    exact List.append_nil _
  have hlen := length_bytes mem hk hz
  have hnul : (0 : UInt8) ∉ d.bytes mem (args 0) := hbytes ▸ nul_notMem_decimal i j m z
  have hstringless : Stringless fmt.bytes := by
    rintro d' hd' hstring
    rw [hfmt, List.mem_singleton] at hd'
    rw [Piece.directive.inj hd', hk] at hstring
    rw [Option.some.inj hstring] at hz
    exact Option.some_ne_none z hz.symm
  have hpieces : ∀ p ∈ pieces fmt.bytes, p.Small := by
    rintro p hp
    rw [hfmt, List.mem_singleton] at hp
    exact hp ▸ hsmall
  have hlong : (d.bytes mem (args 0)).length < 2 ^ 31 :=
    hlen.trans_lt (max_lt hsmall.1 (by decide))
  rw [← hrender] at hlen hnul hlong
  obtain ⟨mem', hcall, htext⟩ :=
    snprintfArgs_text hn hpieces hstringless hb (hlen.trans_lt hroom) hlong hnul
  rw [← hrender] at hbytes
  refine ⟨mem', ⟨_, hnul⟩, hcall, htext, atoi_decimal hbytes, fun least most out => ?_⟩
  rw [prefsNumber_decimal hbytes (number_bounds hz).1]
  exact congrArg some (if_congr (and_congr_left' (not_congr hpad)) rfl rfl)

/-- `"%6ld"`. -/
def paddedFormat : CString := ⟨['%', '6', 'l', 'd'].map Char.toUInt8, by decide⟩

/-- -42 comes out with blanks in front: `atoi` reads it, `prefs_number` does not. -/
theorem numbers_read_back_padded : ∃ mem' s,
    snPrintfArgs (2 ^ 32) (fun _ => 0) 16 32 (some paddedFormat) (fun _ => -42)
        = some ((s.bytes.length : ℤ), mem') ∧
      mem'.Text 16 s.bytes ∧ atoi s = some (-42) ∧
      prefsNumber s PREFS_NUMBER_LEAST PREFS_NUMBER_MOST 7 = some (false, 7) := by
  have hpieces : pieces paddedFormat.bytes
      = [.directive ⟨false, false, 6, none, some 'd'.toUInt8⟩] := by decide +kernel
  obtain ⟨mem', s, hcall, htext, hatoi, hprefs⟩ := @numbers_read_back (-42) (fun _ => 0) (2 ^ 32)
    16 32 (fun _ => -42) paddedFormat _ .signed hpieces (by decide) rfl rfl (by decide) (by decide)
    (by decide)
  exact ⟨mem', s, hcall, htext, hatoi, (hprefs _ _ _).trans (by decide +kernel)⟩

end Text
