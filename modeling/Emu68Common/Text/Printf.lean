import Emu68Common.Text.Fmt

/-!
# Text/Printf — `fmt_core` prints what its format says

Each loop of the engine is a walk over a stretch of the format or of a string, each switch case
builds the characters its conversion stands for, and no `LONG` overflows on the way as long as the
numerals of the format and the lengths of its strings fit in one.  `fmt_core_renders`: what the
engine puts out is `render` of the format's pieces.

    Engine.puts e l out   `l` handed to `putch`, character by character
    supply next args      the cells `next` will give, in order
-/

namespace Printf

open Machinery

variable {σ α : Type} {e : Engine σ α} {f l : List UInt8} {s : Block} {p n : ℕ}

/-! ## `LONG` arithmetic -/

theorem long_eq {z : ℤ} (h : -2 ^ 31 ≤ z) (h' : z < 2 ^ 31) : long z = z :=
  Int.bmod_eq_of_le_mul_two (by omega) (by omega)

/-! ## Emitting -/

/-- Characters handed to `putch`, one after another. -/
def Engine.puts (e : Engine σ α) (l : List UInt8) (out : σ) : σ :=
  l.foldl (fun out c => e.putch c out) out

@[simp] theorem puts_nil (out : σ) : e.puts [] out = out := rfl

@[simp] theorem puts_cons (c : UInt8) (l : List UInt8) (out : σ) :
    e.puts (c :: l) out = e.puts l (e.putch c out) := rfl

@[simp] theorem puts_append (l l' : List UInt8) (out : σ) :
    e.puts (l ++ l') out = e.puts l' (e.puts l out) := List.foldl_append

theorem fmtEmit_eq (h : s.Spans p l) (out : σ) : fmtEmit e s p l.length out = e.puts l out := by
  induction l generalizing p out with
  | nil => rfl
  | cons c l ih =>
    rw [List.length_cons, fmtEmit, h.1, ih h.2, puts_cons]

theorem fmtPad_eq (pad : UInt8) (count : ℤ) (out : σ) :
    fmtPad e pad count out = e.puts (List.replicate count.toNat pad) out := by
  rw [fmtPad]
  induction count.toNat generalizing out with
  | zero => rfl
  | succ n ih => rw [Function.iterate_succ_apply, ih, List.replicate_succ, puts_cons]

/-! ## Digits -/

theorem dig_eq {d : ℕ} (hd : d < 16) (upper : Bool) :
    (dig upper).getD d 0 =
      (if upper then d.digitChar.toUpper else d.digitChar).toUInt8 := by
  have h : ∀ d < 16, ∀ upper, (dig upper).getD d 0 =
      (if upper then d.digitChar.toUpper else d.digitChar).toUInt8 := by decide +kernel
  exact h d hd upper

/-- A numeral is the numeral of all but its last digit, and the last digit. -/
theorem numeral_eq {radix : ℕ} (hr : 1 < radix) (upper : Bool) (v : ℕ) :
    numeral radix upper v = (if v / radix = 0 then [] else numeral radix upper (v / radix)) ++
      [(if upper then (v % radix).digitChar.toUpper else (v % radix).digitChar).toUInt8] := by
  rw [numeral, Nat.toDigits_eq_if hr]
  by_cases h : v < radix
  · rw [if_pos h, Nat.div_eq_of_lt h, if_pos rfl, Nat.mod_eq_of_lt h]
    rfl
  · have h0 : v / radix ≠ 0 := fun h0 => h (Nat.lt_of_div_eq_zero (Nat.zero_lt_of_lt hr) h0)
    rw [if_neg h, if_neg h0, List.map_append, numeral]
    rfl

/-- **The digits stand at the end of the buffer**, and what is behind them is left alone. -/
theorem fmtDigits_eq {radix v : ℕ} {upper : Bool} (buf : Block) (hr : 1 < radix) (hr' : radix ≤ 16)
    (hp : (numeral radix upper v).length ≤ p) : ∃ buf' start,
    fmtDigits radix upper p buf v = some (buf', start) ∧
      start + (numeral radix upper v).length = p ∧ buf'.Spans start (numeral radix upper v) ∧
      ∀ i, p ≤ i → buf' i = buf i := by
  have hdig := dig_eq ((Nat.mod_lt v (Nat.zero_lt_of_lt hr)).trans_le hr') upper
  induction p generalizing v buf with
  | zero =>
    rw [numeral_eq hr, List.length_append] at hp
    exact absurd hp (Nat.not_succ_le_zero _)
  | succ p ih =>
    rw [numeral_eq hr] at hp ⊢
    rw [fmtDigits, ← hdig] at *
    generalize (dig upper).getD (v % radix) 0 = c at *
    rw [List.length_append, List.length_singleton] at *
    by_cases hv : v / radix = 0
    · rw [if_neg (not_not.mpr hv), if_pos hv]
      refine ⟨_, p, rfl, rfl, ⟨Function.update_self .., trivial⟩, fun i hi => ?_⟩
      exact Function.update_of_ne (Nat.ne_of_gt hi) _ _
    · rw [if_pos hv, if_neg hv] at *
      obtain ⟨buf', start, hd, hlen, hspans, hrest⟩ :=
        ih (Function.update buf p c) (Nat.le_of_succ_le_succ hp)
          (dig_eq ((Nat.mod_lt _ (Nat.zero_lt_of_lt hr)).trans_le hr') upper)
      refine ⟨buf', start, hd, by omega, hspans.concat ?_, fun i hi => ?_⟩
      · rw [hlen, hrest p le_rfl, Function.update_self]
      · rw [hrest i (Nat.le_of_succ_le hi), Function.update_of_ne (Nat.ne_of_gt hi)]

/-- Twelve bytes hold the digits of every cell. -/
theorem numeral_length {radix : ℕ} (hr : 10 ≤ radix) (upper : Bool) {v : ℕ} (hv : v < 2 ^ 32) :
    (numeral radix upper v).length ≤ 10 := by
  rw [numeral, List.length_map, Nat.length_toDigits_le_iff (by omega) (by decide)]
  exact hv.trans_le ((by decide : 2 ^ 32 ≤ 10 ^ 10).trans (Nat.pow_le_pow_left hr 10))

/-! ## Scanning -/

theorem isFlag_iff {c : UInt8} : isFlag c = true ↔ c = '-'.toUInt8 ∨ c = '0'.toUInt8 := by
  simp only [oneOf, List.any_cons, List.any_nil, Bool.or_false, Bool.or_eq_true, beq_iff_eq]

theorem isModifier_iff {c : UInt8} :
    isModifier c = true ↔ c = 'h'.toUInt8 ∨ c = 'l'.toUInt8 ∨ c = 'z'.toUInt8 := by
  simp only [oneOf, List.any_cons, List.any_nil, Bool.or_false, Bool.or_eq_true, beq_iff_eq]

theorem fmtFlags_eq (f : List UInt8) (left zero : Bool) :
    fmtFlags f left zero = (left || (f.takeWhile isFlag).contains '-'.toUInt8,
      zero || (f.takeWhile isFlag).contains '0'.toUInt8, f.dropWhile isFlag) := by
  induction f generalizing left zero with
  | nil => rw [fmtFlags, List.takeWhile_nil, List.contains_nil, List.contains_nil, Bool.or_false,
      Bool.or_false, List.dropWhile_nil]
  | cons c f ih =>
    rw [fmtFlags]
    by_cases hf : isFlag c = true
    · rw [List.takeWhile_cons_of_pos hf, List.dropWhile_cons_of_pos hf, List.contains_cons,
        List.contains_cons]
      rcases isFlag_iff.mp hf with rfl | rfl
      · rw [if_pos rfl, ih, beq_self_eq_true, Bool.true_or, Bool.or_true,
          show ('0'.toUInt8 == '-'.toUInt8) = false from rfl, Bool.false_or]
      · rw [if_neg (by decide), if_pos rfl, ih, beq_self_eq_true, Bool.true_or,
          Bool.or_true, show ('-'.toUInt8 == '0'.toUInt8) = false from rfl, Bool.false_or]
    · have hc := mt isFlag_iff.mpr hf
      rw [if_neg fun h => hc (.inl h), if_neg fun h => hc (.inr h), List.takeWhile_cons_of_neg hf,
        List.dropWhile_cons_of_neg hf, List.contains_nil, List.contains_nil, Bool.or_false,
        Bool.or_false]

theorem fmtNumber_eq (f : List UInt8) (v : ℕ)
    (h : (f.takeWhile isDigit).foldl (fun v c => v * 10 + (c.toNat - 48)) v < 2 ^ 31) :
    fmtNumber f v = ((((f.takeWhile isDigit).foldl
      (fun v c => v * 10 + (c.toNat - 48)) v : ℕ) : ℤ),
      f.dropWhile isDigit) := by
  induction f generalizing v with
  | nil => rfl
  | cons c f ih =>
    rw [fmtNumber]
    by_cases hc : '0'.toUInt8 ≤ c ∧ c ≤ '9'.toUInt8
    · have hd : isDigit c = true := by rw [isDigit, decide_eq_true hc.1, decide_eq_true hc.2]; rfl
      have h48 : 48 ≤ c.toNat := hc.1
      rw [List.takeWhile_cons_of_pos hd, List.foldl_cons] at h ⊢
      have hle := le_foldl_value (f.takeWhile isDigit) (v * 10 + (c.toNat - 48))
      have hv : long (long ((v : ℤ) * 10) + ((c.toNat : ℤ) - 48)) =
        ((v * 10 + (c.toNat - 48) : ℕ) : ℤ) := by
        rw [long_eq (z := (v : ℤ) * 10) (by omega) (by omega), long_eq (by omega) (by omega)]
        omega
      rw [if_pos hc, hv, ih _ h, List.dropWhile_cons_of_pos hd]
    · have hd : ¬ isDigit c = true := fun hd => hc (by
        rw [isDigit, Bool.and_eq_true] at hd
        exact ⟨of_decide_eq_true hd.1, of_decide_eq_true hd.2⟩)
      rw [if_neg hc, List.takeWhile_cons_of_neg hd, List.dropWhile_cons_of_neg hd]
      rfl

/-- How the engine writes a precision. -/
def precOf : Option ℕ → ℤ
  | none => -1
  | some p => p

theorem fmtPrec_eq (h : ∀ p ∈ (precision f).1, p < 2 ^ 31) :
    fmtPrec f = (precOf (precision f).1, (precision f).2) := by
  cases f with
  | nil => rfl
  | cons c f =>
    rw [fmtPrec]
    rw [precision] at h ⊢
    split at h
    case isTrue hc =>
      rw [if_pos hc, if_pos hc]
      exact fmtNumber_eq f 0 (h _ rfl)
    case isFalse hc =>
      rw [if_neg hc, if_neg hc]
      rfl

theorem fmtModifiers_eq (f : List UInt8) : fmtModifiers f = f.dropWhile isModifier := by
  induction f with
  | nil => rfl
  | cons c f ih =>
    rw [fmtModifiers]
    by_cases hc : isModifier c = true
    · rw [if_pos (isModifier_iff.mp hc), ih, List.dropWhile_cons_of_pos hc]
    · rw [if_neg (mt isModifier_iff.mpr hc), List.dropWhile_cons_of_neg hc]

/-! ## Strings -/

/-- How much is printed of a string of this length. -/
def shown (prec : Option ℕ) (len : ℕ) : ℕ := prec.elim len fun p => min p len

theorem shown_le (prec : Option ℕ) (len : ℕ) : shown prec len ≤ len := by
  cases prec with
  | none => exact le_rfl
  | some p => exact min_le_right p len

/-- **The walk over a string stops at its end, or at the precision.** -/
theorem fmtLen_eq (prec : Option ℕ) {k : ℕ} (h : s.Text p l) (hl : l.length < 2 ^ 31)
    (hk : k ≤ shown prec l.length) (hn : shown prec l.length < k + n) :
    fmtLen s p (precOf prec) n k = some ((shown prec l.length : ℕ) : ℤ) := by
  have hp : ((p : ℤ) + k).toNat = p + k := by omega
  have hle := shown_le prec l.length
  induction n generalizing k with
  | zero => exact absurd hk (Nat.not_le_of_lt hn)
  | succ n ih =>
    rw [fmtLen, hp]
    by_cases hlt : k < shown prec l.length
    · have hgo : s (p + k) ≠ 0 ∧ (precOf prec < 0 ∨ (k : ℤ) < precOf prec) := by
        refine ⟨h.ne_zero (hlt.trans_le hle), ?_⟩
        cases prec with
        | none => exact .inl (by decide)
        | some q => exact .inr (Int.ofNat_lt.mpr (hlt.trans_le (min_le_left q _)))
      rw [if_pos hgo, long_eq (by omega) (by omega)]
      exact ih (k := k + 1) hlt (by omega) (by omega)
    · obtain rfl : k = shown prec l.length := by omega
      have hstop : ¬ (s (p + shown prec l.length) ≠ 0 ∧
          (precOf prec < 0 ∨ (shown prec l.length : ℤ) < precOf prec)) := by
        rintro ⟨h0, hq⟩
        cases prec with
        | none => exact h0 h.end_eq
        | some q =>
          have hq : min q l.length < q := by
            rcases hq with hq | hq
            · exact absurd hq (by rw [precOf]; omega)
            · exact Int.ofNat_lt.mp hq
          refine h0 ?_
          rw [show shown (some q) l.length = l.length by rw [shown, Option.elim]; omega]
          exact h.end_eq
      rw [if_neg hstop]

/-! ## What the switch leaves -/

/-- **A field shows a rendering**: the characters are there, and every number in it is right. -/
structure Field.Shows (w : Field) (left : Bool) (r : Rendering) : Prop where
  spans : w.body.Spans w.start r.body
  len : w.len = r.body.length
  negative : w.negative = r.negative
  width : w.width = r.width
  pad : left = false → w.pad = if r.zeros then '0'.toUInt8 else ' '.toUInt8
  short : r.body.length < 2 ^ 31
  narrow : r.width < 2 ^ 31

/-- **The code behind the switch** fills the field up. -/
theorem fmtField_eq {w : Field} {left : Bool} {r : Rendering} (h : w.Shows left r) (out : σ) :
    fmtField e left w out = e.puts (r.bytes left) out := by
  obtain ⟨hspans, hlen, hneg, hwidth, hpad, hshort, hnarrow⟩ := h
  have hfill : (long (long (w.width - w.len) - if w.negative then 1 else 0)).toNat =
      r.width - ((if r.negative then ['-'.toUInt8] else []).length + r.body.length) := by
    rw [hwidth, hlen, hneg, long_eq (z := (r.width : ℤ) - r.body.length) (by omega) (by omega)]
    cases r.negative
    · simp only [Bool.false_eq_true, if_false, List.length_nil]
      rw [long_eq (by omega) (by omega)]
      omega
    · simp only [if_true, List.length_singleton]
      rw [long_eq (by omega) (by omega)]
      omega
  have hemit (out : σ) : fmtEmit e w.body w.start w.len.toNat out = e.puts r.body out := by
    rw [hlen, Int.toNat_natCast, fmtEmit_eq hspans]
  have hsign (out : σ) : (if w.negative then e.putch '-'.toUInt8 out else out) =
      e.puts (if r.negative then ['-'.toUInt8] else []) out := by
    rw [hneg]
    cases r.negative <;> rfl
  rw [fmtField, Rendering.bytes]
  simp only [fmtPad_eq, hfill, hemit, hsign]
  cases left with
  | true => simp only [Bool.not_true, Bool.false_and, Bool.false_eq_true, if_false, if_true,
    puts_append]
  | false =>
    rw [hpad rfl]
    cases r.zeros
    · simp only [Bool.not_false, Bool.true_and, Bool.false_eq_true, if_false, puts_append,
        beq_self_eq_true, if_true, show (' '.toUInt8 == '0'.toUInt8) = false from rfl]
    · simp only [Bool.not_false, Bool.true_and, Bool.false_eq_true, if_false, puts_append,
        beq_self_eq_true, if_true, show ('0'.toUInt8 == ' '.toUInt8) = false from rfl]

/-- The digits of a cell, in the buffer. -/
theorem fmtNumeral_eq (radix : ℕ) (upper negative : Bool) {v : ℕ} {zero left : Bool} {pad : UInt8}
    {width : ℕ} (hr : 10 ≤ radix) (hr' : radix ≤ 16) (hv : v < 2 ^ 32) (hw : width < 2 ^ 31)
    (hpad : left = false → pad = if zero then '0'.toUInt8 else ' '.toUInt8) : ∃ w,
    fmtNumeral radix upper v negative pad width = some w ∧
      w.Shows left ⟨negative, numeral radix upper v, width, zero⟩ := by
  have hlen := numeral_length hr upper hv
  obtain ⟨buf, start, hd, hstart, hspans, -⟩ :=
    fmtDigits_eq (p := bufEnd) (fun _ => 0) (by omega) hr'
    (hlen.trans (by decide))
  refine ⟨_, by rw [fmtNumeral, hd]; rfl, hspans, ?_, rfl, rfl, hpad,
    hlen.trans_lt (by decide), hw⟩
  have h12 : bufEnd = 12 := rfl
  change long _ = ((numeral radix upper v).length : ℤ)
  rw [long_eq (by omega) (by omega)]
  omega

/-- The magnitude of a cell. -/
theorem natAbs_eq (cell : BitVec 32) :
    (if cell.toInt < 0 then 0 - cell else cell).toNat = cell.toInt.natAbs := by
  have hlt := cell.isLt
  rw [BitVec.toInt_eq_toNat_cond]
  by_cases h : 2 * cell.toNat < 2 ^ 32
  · rw [if_pos h, if_neg (by omega)]
    omega
  · rw [if_neg h, if_pos (by omega), BitVec.toNat_sub]
    change (2 ^ 32 - cell.toNat + 0) % 2 ^ 32 = _
    omega

/-- One character, in the buffer. -/
theorem fmt_char_shows {c : UInt8} {left : Bool} {width : ℕ} (hw : width < 2 ^ 31) :
    Field.Shows ⟨Function.update (fun _ => 0) 0 c, 0, 1, false, ' '.toUInt8, width⟩ left
      ⟨false, [c], width, false⟩ where
  spans := ⟨Function.update_self (β := fun _ => UInt8) 0 c fun _ => 0, trivial⟩
  len := rfl
  negative := rfl
  width := rfl
  pad _ := rfl
  short := (by decide : 1 < 2 ^ 31)
  narrow := hw

/-- Where the engine finds the string of a cell. -/
theorem fmt_string_eq {mem : Block} {cell : BitVec 32} (h : Points mem cell) : ∃ s p,
    (if cell = 0 then (nullBlock, 0) else (mem, cell.toNat)) = (s, p) ∧
      s.Text p (stringAt mem cell) ∧ (stringAt mem cell).length < 2 ^ 31 := by
  rw [stringAt]
  by_cases h0 : cell = 0
  · rw [if_pos h0, if_pos h0]
    refine ⟨_, _, rfl, ?_, by decide⟩
    exact ⟨rfl, by decide, rfl, by decide, rfl, by decide, rfl, by decide, rfl, by decide, rfl,
      by decide, rfl⟩
  · obtain ⟨l, hl, hlen⟩ := h h0
    rw [if_neg h0, if_neg h0, hl.read_eq hlen.le]
    exact ⟨_, _, rfl, hl, hlen⟩

/-- A string, or as much of it as the precision allows. -/
theorem fmt_string_shows {d : Directive} (h : s.Text p l) (hl : l.length < 2 ^ 31)
    (hw : d.width < 2 ^ 31) :
    Field.Shows ⟨s, p, (shown d.prec l.length : ℕ), false, ' '.toUInt8, d.width⟩ d.left
      ⟨false, match d.prec with | none => l | some p => l.take p, d.width, false⟩ := by
  cases d.prec with
  | none => exact ⟨h.spans, rfl, rfl, rfl, fun _ => rfl, hl, hw⟩
  | some q =>
    have hlen : (l.take q).length = min q l.length := List.length_take
    exact ⟨h.spans.take q, congrArg Nat.cast hlen.symm, rfl, rfl, fun _ => rfl,
      hlen.trans_lt ((min_le_right _ _).trans_lt hl), hw⟩

/-- **What each conversion leaves**: a field that shows what it prints, and the cells behind the one
it took. -/
theorem fmtSwitch_some (args : α) {d : Directive} {c : UInt8} {k : Conversion} {pad : UInt8}
    (hk : conversion c = some k) (hd : d.Small)
    (hpad : d.left = false → pad = if d.zero then '0'.toUInt8 else ' '.toUInt8)
    (hs : k = .string → Points e.mem (e.next args).1) (hn : 2 ^ 31 ≤ n) : ∃ w,
    fmtSwitch e n c d.width (precOf d.prec) pad args =
        some (some w, if k.takes then (e.next args).2 else args) ∧
      w.Shows d.left (d.rendering e.mem (e.next args).1 k) := by
  obtain ⟨hwidth, hprec⟩ := hd
  rcases hnext : e.next args with ⟨cell, rest⟩
  rw [hnext] at hs
  have hcell : cell.toNat < 2 ^ 32 := cell.isLt
  rw [conversion] at hk
  split_ifs at hk with h₁ h₂ h₃ h₄ h₅ h₆ h₇ h₈ <;> obtain rfl := Option.some.inj hk
  · -- a string: the walk over it stops within `2 ^ 31` steps
    obtain ⟨s, p, hsp, htext, hl⟩ := fmt_string_eq (hs rfl)
    have hshort : shown d.prec (stringAt e.mem cell).length < n :=
      (shown_le _ _).trans_lt (hl.trans_le hn)
    have hlen := fmtLen_eq d.prec (k := 0) htext hl (Nat.zero_le _)
      (hshort.trans_eq (Nat.zero_add n).symm)
    refine ⟨⟨s, p, _, false, ' '.toUInt8, d.width⟩, ?_, fmt_string_shows htext hl hwidth⟩
    rw [fmtSwitch, if_pos h₁, hnext]
    simp only [hsp]
    rw [show fmtLen s p (precOf d.prec) n 0 = _ from hlen]
    rfl
  · rw [fmtSwitch, if_neg h₁, if_pos h₂, hnext]
    exact ⟨_, rfl, fmt_char_shows hwidth⟩
  · obtain ⟨w, hw, hshows⟩ := fmtNumeral_eq 10 false (decide (cell.toInt < 0))
      (by decide) (by decide) (natAbs_eq cell ▸ BitVec.isLt _) hwidth hpad
    refine ⟨w, ?_, hshows⟩
    rw [← natAbs_eq] at hw
    rw [fmtSwitch, if_neg h₁, if_neg h₂, if_pos h₃, hnext]
    simp only [decide_eq_true_eq, hw]
    rfl
  · obtain ⟨w, hw, hshows⟩ := fmtNumeral_eq 10 false false
      (by decide) (by decide) hcell hwidth hpad
    refine ⟨w, ?_, hshows⟩
    rw [fmtSwitch, if_neg h₁, if_neg h₂, if_neg h₃, if_pos h₄, hnext]
    simp only [hw]
    rfl
  · obtain ⟨w, hw, hshows⟩ := fmtNumeral_eq 16 false false
      (by decide) (by decide) hcell hwidth hpad
    refine ⟨w, ?_, hshows⟩
    rw [fmtSwitch, if_neg h₁, if_neg h₂, if_neg h₃, if_neg h₄, if_pos (.inl h₅), h₅, hnext]
    simp only [show ('x'.toUInt8 == 'X'.toUInt8) = false from rfl, hw]
    rfl
  · obtain ⟨w, hw, hshows⟩ := fmtNumeral_eq 16 true false
      (by decide) (by decide) hcell hwidth hpad
    refine ⟨w, ?_, hshows⟩
    rw [fmtSwitch, if_neg h₁, if_neg h₂, if_neg h₃, if_neg h₄, if_pos (.inr h₆), h₆, hnext]
    simp only [beq_self_eq_true, hw]
    rfl
  · have hzeros : d.left = false → '0'.toUInt8 = if true then '0'.toUInt8 else ' '.toUInt8 :=
      fun _ => rfl
    have hmax : max d.width 8 < 2 ^ 31 := max_lt hwidth (by decide)
    obtain ⟨w, hw, hshows⟩ :=
      fmtNumeral_eq 16 false false (by decide) (by decide) hcell hmax hzeros
    have hraised : (if (d.width : ℤ) < 8 then 8 else (d.width : ℤ)) = (max d.width 8 : ℕ) := by
      split <;> omega
    refine ⟨w, ?_, hshows⟩
    rw [fmtSwitch, if_neg h₁, if_neg h₂, if_neg h₃, if_neg h₄, if_neg (not_or.mpr ⟨h₅, h₆⟩),
      if_pos h₇, hnext]
    simp only [hraised, hw]
    rfl
  · rw [fmtSwitch, if_neg h₁, if_neg h₂, if_neg h₃, if_neg h₄, if_neg (not_or.mpr ⟨h₅, h₆⟩),
      if_neg h₇, if_pos h₈]
    exact ⟨_, rfl, fmt_char_shows hwidth⟩

/-- A type character that is none takes nothing. -/
theorem fmtSwitch_none {c : UInt8} {args : α} {width prec : ℤ} {pad : UInt8}
    (hk : conversion c = none) : fmtSwitch e n c width prec pad args = some (none, args) := by
  rw [conversion] at hk
  split_ifs at hk with h₁ h₂ h₃ h₄ h₅ h₆ h₇ h₈
  rw [fmtSwitch, if_neg h₁, if_neg h₂, if_neg h₃, if_neg h₄, if_neg (not_or.mpr ⟨h₅, h₆⟩),
    if_neg h₇, if_neg h₈]

/-! ## The engine -/

/-- The cells `next` will give, in order. -/
def supply (next : α → BitVec 32 × α) (args : α) (i : ℕ) : BitVec 32 :=
  (next ((fun a => (next a).2)^[i] args)).1

/-- **The switch and the code behind it** put out what the directive prints. -/
theorem fmtCore_switched {d : Directive} {g : List UInt8} {pad : UInt8} {out : σ} {args : α}
    (htype : d.type = g.head?) (hg : (0 : UInt8) ∉ g) (hd : d.Small) (hn : 2 ^ 31 ≤ n)
    (hpad : d.left = false → pad = if d.zero then '0'.toUInt8 else ' '.toUInt8)
    (hs : d.conversion = some .string → Points e.mem (e.next args).1) :
    (match fmtSwitch e n (g.headD 0) d.width (precOf d.prec) pad args with
      | none => none
      | some (some w, args) => fmtCore e n g.tail (fmtField e d.left w out) args
      | some (none, args) =>
        fmtCore e n g.tail (if g.headD 0 ≠ 0 then e.putch (g.headD 0) (e.putch '%'.toUInt8 out)
          else e.putch '%'.toUInt8 out) args) =
      fmtCore e n g.tail (e.puts (d.bytes e.mem (e.next args).1) out)
        (if d.takes then (e.next args).2 else args) := by
  rw [Directive.bytes, Directive.takes]
  cases g with
  | nil =>
    have hnone : d.conversion = none := by
      rw [Directive.conversion, htype]
      rfl
    rw [hnone, fmtSwitch_none rfl, htype]
    rfl
  | cons c g =>
    have hconv : d.conversion = conversion c := by
      rw [Directive.conversion, htype]
      rfl
    rw [hconv] at hs ⊢
    rw [List.headD_cons]
    cases hk : conversion c with
    | none =>
      have hc : c ≠ 0 := fun h => hg (h ▸ List.mem_cons_self)
      rw [fmtSwitch_none hk, htype]
      simp only [if_pos hc]
      rfl
    | some k =>
      obtain ⟨w, hw, hshows⟩ := fmtSwitch_some args hk hd hpad
        (fun h => hs (hk.trans (congrArg some h))) hn
      rw [hw]
      simp only [fmtField_eq hshows, Option.any_some]

/-- **One directive**: the engine scans it as far as the grammar reads it, and puts out what it
prints. -/
theorem fmtCore_directive (out : σ) (args : α) (hf : (0 : UInt8) ∉ f)
    (hd : (directive f).1.Small) (hn : 2 ^ 31 ≤ n)
    (hs : (directive f).1.conversion = some .string → Points e.mem (e.next args).1) :
    fmtCore e (n + 1) ('%'.toUInt8 :: f) out args =
      fmtCore e n (directive f).2 (e.puts ((directive f).1.bytes e.mem (e.next args).1) out)
        (if (directive f).1.takes then (e.next args).2 else args) := by
  have hnumber := fmtNumber_eq (f.dropWhile isFlag) 0 hd.1
  have hprec := fmtPrec_eq (f := (f.dropWhile isFlag).dropWhile isDigit) hd.2
  rw [fmtCore, if_neg (not_not.mpr rfl), fmtFlags_eq]
  simp only [Bool.false_or]
  rw [show ((0 : ℕ) : ℤ) = 0 from rfl] at hnumber
  simp only [hnumber, hprec, fmtModifiers_eq]
  have hg : (0 : UInt8) ∉
    (precision ((f.dropWhile isFlag).dropWhile isDigit)).2.dropWhile isModifier :=
    fun h => hf ((scanned_suffix f).subset h)
  refine fmtCore_switched (d := (directive f).1) rfl hg hd hn (fun hleft => ?_) hs
  rw [show (f.takeWhile isFlag).contains '-'.toUInt8 = false from hleft, Bool.not_false,
    Bool.and_true]
  rfl

/-- The engine, and the cells it has left. -/
theorem fmtCore_eq (out : σ) (args : α) (hf : (0 : UInt8) ∉ f) (hn : f.length + 2 ^ 31 < n)
    (hd : ∀ p ∈ pieces f, p.Small)
    (hs : Supplied e.mem (pieces f) (supply e.next args)) :
    fmtCore e n f out args = some (e.puts (render e.mem (pieces f) (supply e.next args)) out,
      (fun a => (e.next a).2)^[taken (pieces f)] args) := by
  induction n generalizing f out args with
  | zero => exact absurd hn (Nat.not_lt_zero _)
  | succ n ih =>
    cases f with
    | nil => rfl
    | cons c f =>
      have hf' : (0 : UInt8) ∉ f := fun h => hf (List.mem_cons_of_mem _ h)
      rw [List.length_cons] at hn
      by_cases hc : c = '%'.toUInt8
      · subst hc
        rw [pieces_directive] at hd hs ⊢
        obtain ⟨hstring, hrest⟩ := hs
        have hlen := length_directive (f := f)
        have hf₂ : (0 : UInt8) ∉ (directive f).2 := fun h => hf' ((directive_suffix f).subset h)
        rw [fmtCore_directive out args hf' (hd _ List.mem_cons_self)
          (by omega : 2 ^ 31 ≤ n) hstring, render, taken, puts_append]
        have hd' := fun p hp => hd p (List.mem_cons_of_mem _ hp)
        by_cases ht : (directive f).1.takes = true
        · rw [if_pos ht] at hrest ⊢
          rw [if_pos ht, if_pos ht, ih _ _ hf₂ (by omega) hd' hrest, Nat.add_comm 1,
            Function.iterate_succ_apply]
          rfl
        · rw [if_neg ht] at hrest ⊢
          rw [if_neg ht, if_neg ht, ih _ _ hf₂ (by omega) hd' hrest, Nat.zero_add]
          rfl
      · rw [pieces_lit hc] at hd hs ⊢
        rw [fmtCore, if_pos hc, ih _ _ hf' (by omega)
          (fun p hp => hd p (List.mem_cons_of_mem _ hp)) hs]
        rfl

/-- **The engine renders its whole format language**: every front end, every format whose numerals
fit a `LONG`, every supply of cells. -/
theorem fmt_core_renders (e : Engine σ α) (format : CString) (out : σ) (args : α)
    (hn : format.bytes.length + 2 ^ 31 < n)
    (hd : ∀ p ∈ pieces format.bytes, p.Small)
    (hs : Supplied e.mem (pieces format.bytes) (supply e.next args)) :
    (fmtCore e n format.bytes out args).map Prod.fst =
      some (e.puts (render e.mem (pieces format.bytes) (supply e.next args)) out) := by
  rw [fmtCore_eq out args format.nul_free hn hd hs]
  rfl

/-- An engine that collects its output, newest first, with an array of cells and no memory. -/
def collector : Engine (List UInt8) (List (BitVec 32)) where
  putch := List.cons
  next args := (args.headD 0, args.tail)
  mem _ := 0

/-- `"%05d|%s%q"` of -42 and `NULL`. -/
theorem fmt_core_renders_null :
    (fmtCore collector (2 ^ 32) ("%05d|%s%q".toList.map Char.toUInt8) [] [-42, 0]).map Prod.fst =
      some ("-0042|(null)%q".toList.map Char.toUInt8).reverse :=
  have hp : pieces ("%05d|%s%q".toList.map Char.toUInt8) =
      [.directive ⟨false, true, 5, none, some 0x64⟩, .lit 0x7c,
        .directive ⟨false, false, 0, none, some 0x73⟩,
          .directive ⟨false, false, 0, none, some 0x71⟩] :=
    by decide +kernel
  have hs : Supplied collector.mem (pieces ("%05d|%s%q".toList.map Char.toUInt8))
      (supply collector.next [-42, 0]) := by
    rw [hp]
    exact ⟨fun h => absurd h (by decide), fun _ h => absurd rfl h, fun h => absurd h (by decide),
      trivial⟩
  (fmt_core_renders collector ⟨"%05d|%s%q".toList.map Char.toUInt8, by decide⟩ [] [-42, 0]
    (by decide) (by decide +kernel) hs).trans (by decide +kernel)

end Printf
