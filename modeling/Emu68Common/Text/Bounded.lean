import Emu68Common.Machinery.Guarded
import Emu68Common.Text.Echo

/-!
# Text/Bounded — what a `%.Ns` reads

The same engine over memory of which only some bytes may be read, and over `LONG`s that must not
overflow.  What it comes to, `fmt_core` comes to as well (`fmtCore_agrees`).  The loop over a
string looks at a character *before* it looks at the precision, so it reads the one behind the last
that it may print: `string_bounded_iff` says when that does no harm.

    array   c₀ c₁ ··· c_{N-1} | ×        without a NUL the loop goes on to ×, then sees `len = prec`
-/

namespace Printf

open Machinery

namespace Guarded

variable {σ α : Type}

/-- A `LONG` computation: no result, if it overflows. -/
def exact (z : ℤ) : Option ℤ := if -2 ^ 31 ≤ z ∧ z < 2 ^ 31 then some z else none

/-! ## The source -/

/-- `fmt_emit`. -/
def fmtEmit (R : ℕ → Bool) (e : Engine σ α) (s : Block) : ℕ → ℕ → σ → Option σ
  | _, 0, out => return out
  | p, len + 1, out => do
    let c ← fetch R s p
    fmtEmit R e s (p + 1) len (e.putch c out)

/-- `while (*f >= '0' && *f <= '9') v = v * 10 + (*f++ - '0');` -/
def fmtNumber : List UInt8 → ℤ → Option (ℤ × List UInt8)
  | [], v => return (v, [])
  | c :: f, v =>
    if '0'.toUInt8 ≤ c ∧ c ≤ '9'.toUInt8 then do
      let tens ← exact (v * 10)
      let v ← exact (tens + ((c.toNat : ℤ) - 48))
      fmtNumber f v
    else return (v, c :: f)

/-- The precision, -1 if there is none. -/
def fmtPrec : List UInt8 → Option (ℤ × List UInt8)
  | [] => return (-1, [])
  | c :: f => if c = '.'.toUInt8 then fmtNumber f 0 else return (-1, c :: f)

/-- `while (s[len] != '\0' && (prec < 0 || len < prec)) len++;` -/
def fmtLen (R : ℕ → Bool) (s : Block) (p : ℕ) (prec : ℤ) : ℕ → ℤ → Option ℤ
  | 0, _ => none
  | n + 1, len => do
    let c ← fetch R s (p + len).toNat
    if c ≠ 0 ∧ (prec < 0 ∨ len < prec) then
      let len ← exact (len + 1)
      fmtLen R s p prec n len
    else return len

/-- `switch (conv)`: the field, and the bytes its characters may be read from. -/
def fmtSwitch (R : ℕ → Bool) (e : Engine σ α) (n : ℕ) (conv : UInt8) (width prec : ℤ)
    (pad : UInt8) (args : α) : Option (Option ((ℕ → Bool) × Field) × α) :=
  if conv = 's'.toUInt8 then do
    let (cell, args) := e.next args
    -- `"(null)"` is the engine's own
    let (R, s, p) := if cell = 0 then (fun _ => true, nullBlock, 0) else (R, e.mem, cell.toNat)
    let len ← fmtLen R s p prec n 0
    return (some (R, ⟨s, p, len, false, ' '.toUInt8, width⟩), args)
  else do
    -- every other conversion has its characters in `buf`
    let (w, args) ← Printf.fmtSwitch e n conv width prec pad args
    return (w.map fun w => (fun _ => true, w), args)

/-- The code behind the switch. -/
def fmtField (R : ℕ → Bool) (e : Engine σ α) (left : Bool) (w : Field) (out : σ) : Option σ := do
  let fill ← exact (w.width - w.len)
  let fill ← exact (fill - if w.negative then 1 else 0)
  let out := if !left && w.pad == ' '.toUInt8 then fmtPad e ' '.toUInt8 fill out else out
  let out := if w.negative then e.putch '-'.toUInt8 out else out
  let out := if !left && w.pad == '0'.toUInt8 then fmtPad e '0'.toUInt8 fill out else out
  let out ← fmtEmit R e w.body w.start w.len.toNat out
  return if left then fmtPad e ' '.toUInt8 fill out else out

/-- **`fmt_core(putch, out, format, next, args)`**; nothing, if a string is read outside `R` or a
`LONG` overflows. -/
def fmtCore (R : ℕ → Bool) (e : Engine σ α) : ℕ → List UInt8 → σ → α → Option (σ × α)
  | 0, _, _, _ => none
  | _ + 1, [], out, args => return (out, args)
  | n + 1, c :: f, out, args =>
    if c ≠ '%'.toUInt8 then fmtCore R e n f (e.putch c out) args
    else do
      let (left, zero, f) := fmtFlags f false false
      let (width, f) ← fmtNumber f 0
      let (prec, f) ← fmtPrec f
      let f := fmtModifiers f
      let pad := if zero && !left then '0'.toUInt8 else ' '.toUInt8
      let conv := f.headD 0
      match ← fmtSwitch R e n conv width prec pad args with
      | (some (R', w), args) =>
        let out ← fmtField R' e left w out
        fmtCore R e n f.tail out args
      | (none, args) =>
        let out := e.putch '%'.toUInt8 out
        fmtCore R e n f.tail (if conv ≠ 0 then e.putch conv out else out) args

/-! ## The same engine -/

variable {e : Engine σ α} {R : ℕ → Bool} {f : List UInt8} {s : Block} {n p len : ℕ} {out out' : σ}
  {args : α} {prec z v : ℤ} {left : Bool} {w : Field}

theorem exact_eq (h : -2 ^ 31 ≤ z) (h' : z < 2 ^ 31) : exact z = some z := if_pos ⟨h, h'⟩

/-- What does not overflow is what a `LONG` makes of it. -/
theorem of_exact {z' : ℤ} (h : exact z = some z') : z' = z ∧ long z = z := by
  rw [exact] at h
  split at h
  case isTrue hz => exact ⟨(Option.some.inj h).symm, long_eq hz.1 hz.2⟩
  case isFalse => exact absurd h nofun

theorem of_fetch {ι β : Type*} {R : ι → Bool} {m : ι → β} {i : ι} {c : β}
    (h : fetch R m i = some c) : c = m i := by
  rw [fetch] at h
  split at h
  · exact (Option.some.inj h).symm
  · exact absurd h nofun

theorem fmtEmit_agrees (h : fmtEmit R e s p len out = some out') :
    Printf.fmtEmit e s p len out = out' := by
  induction len generalizing p out with
  | zero => exact Option.some.inj h
  | succ len ih =>
    obtain ⟨c, hc, hrest⟩ := Option.bind_eq_some_iff.mp h
    rw [of_fetch hc] at hrest
    exact ih hrest

theorem fmtNumber_agrees {r : ℤ × List UInt8} (h : fmtNumber f v = some r) :
    Printf.fmtNumber f v = r := by
  induction f generalizing v with
  | nil => exact Option.some.inj h
  | cons c f ih =>
    rw [fmtNumber] at h
    rw [Printf.fmtNumber]
    split_ifs at h ⊢ with hc
    · obtain ⟨tens, htens, h⟩ := Option.bind_eq_some_iff.mp h
      obtain ⟨v', hv', h⟩ := Option.bind_eq_some_iff.mp h
      obtain ⟨rfl, hlong⟩ := of_exact htens
      obtain ⟨rfl, hlong'⟩ := of_exact hv'
      rw [hlong, hlong']
      exact ih h
    · exact Option.some.inj h

theorem fmtPrec_agrees {r : ℤ × List UInt8} (h : fmtPrec f = some r) : Printf.fmtPrec f = r := by
  cases f with
  | nil => exact Option.some.inj h
  | cons c f =>
    rw [fmtPrec] at h
    rw [Printf.fmtPrec]
    split_ifs at h ⊢ with hc
    · exact fmtNumber_agrees h
    · exact Option.some.inj h

theorem fmtLen_agrees {r : ℤ} (h : fmtLen R s p prec n v = some r) :
    Printf.fmtLen s p prec n v = some r := by
  induction n generalizing v with
  | zero => exact absurd h nofun
  | succ n ih =>
    rw [fmtLen] at h
    rw [Printf.fmtLen]
    obtain ⟨c, hc, h⟩ := Option.bind_eq_some_iff.mp h
    rw [of_fetch hc] at h
    split_ifs at h ⊢ with hgo
    · obtain ⟨len, hlen, h⟩ := Option.bind_eq_some_iff.mp h
      obtain ⟨rfl, hlong⟩ := of_exact hlen
      rw [hlong]
      exact ih h
    · exact h

theorem fmtSwitch_agrees {conv pad : UInt8} {width : ℤ} {r : Option ((ℕ → Bool) × Field)}
    {args' : α} (h : fmtSwitch R e n conv width prec pad args = some (r, args')) :
    Printf.fmtSwitch e n conv width prec pad args = some (r.map Prod.snd, args') := by
  rw [fmtSwitch] at h
  split_ifs at h with hs
  · rw [Printf.fmtSwitch, if_pos hs]
    by_cases h0 : (e.next args).1 = 0
    all_goals
      simp only [h0, if_true, if_false] at h ⊢
      obtain ⟨len, hlen, h⟩ := Option.bind_eq_some_iff.mp h
      obtain ⟨rfl, rfl⟩ := Prod.mk.inj (Option.some.inj h)
      simp only [fmtLen_agrees hlen]
      rfl
  · obtain ⟨⟨w, args⟩, hw, h⟩ := Option.bind_eq_some_iff.mp h
    obtain ⟨rfl, rfl⟩ := Prod.mk.inj (Option.some.inj h)
    rw [hw, Option.map_map]
    cases w <;> rfl

theorem fmtField_agrees (h : fmtField R e left w out = some out') :
    Printf.fmtField e left w out = out' := by
  obtain ⟨fill, hfill, h⟩ := Option.bind_eq_some_iff.mp h
  obtain ⟨fill', hfill', h⟩ := Option.bind_eq_some_iff.mp h
  obtain ⟨rfl, hlong⟩ := of_exact hfill
  obtain ⟨rfl, hlong'⟩ := of_exact hfill'
  obtain ⟨out'', hemit, h⟩ := Option.bind_eq_some_iff.mp h
  rw [Printf.fmtField, hlong, hlong']
  simp only [fmtEmit_agrees hemit]
  exact Option.some.inj h

/-- **What the guarded engine comes to, the engine comes to.** -/
theorem fmtCore_agrees {r : σ × α} (h : fmtCore R e n f out args = some r) :
    Printf.fmtCore e n f out args = some r := by
  induction n generalizing f out args with
  | zero => exact absurd h nofun
  | succ n ih =>
    cases f with
    | nil => exact h
    | cons c f =>
      rw [fmtCore] at h
      rw [Printf.fmtCore]
      split_ifs at h ⊢ with hc
      · exact ih h
      · obtain ⟨⟨width, f₁⟩, hwidth, h⟩ := Option.bind_eq_some_iff.mp h
        obtain ⟨⟨prec, f₂⟩, hprec, h⟩ := Option.bind_eq_some_iff.mp h
        obtain ⟨⟨w, args'⟩, hswitch, h⟩ := Option.bind_eq_some_iff.mp h
        simp only [fmtNumber_agrees hwidth, fmtPrec_agrees hprec, fmtSwitch_agrees hswitch]
        cases w with
        | none => exact ih h
        | some w =>
          obtain ⟨out', hfield, h⟩ := Option.bind_eq_some_iff.mp h
          simp only [Option.map_some, fmtField_agrees hfield]
          exact ih h

/-! ## The numerals -/

/-- **A numeral comes out if a `LONG` holds it**, and only then. -/
theorem fmtNumber_exact (f : List UInt8) {v : ℕ} (hv : v < 2 ^ 31) : fmtNumber f v =
    if (f.takeWhile isDigit).foldl (fun v c => v * 10 + (c.toNat - 48)) v < 2 ^ 31 then
      some ((((f.takeWhile isDigit).foldl (fun v c => v * 10 + (c.toNat - 48)) v : ℕ) : ℤ),
        f.dropWhile isDigit)
    else none := by
  induction f generalizing v with
  | nil => exact (if_pos hv).symm
  | cons c f ih =>
    rw [fmtNumber]
    by_cases hc : '0'.toUInt8 ≤ c ∧ c ≤ '9'.toUInt8
    · have hd : isDigit c = true := by rw [isDigit, decide_eq_true hc.1, decide_eq_true hc.2]; rfl
      have h48 : 48 ≤ c.toNat := hc.1
      rw [if_pos hc, List.takeWhile_cons_of_pos hd, List.dropWhile_cons_of_pos hd, List.foldl_cons]
      by_cases hv' : v * 10 + (c.toNat - 48) < 2 ^ 31
      · have hsum : (v : ℤ) * 10 + ((c.toNat : ℤ) - 48) = (v * 10 + (c.toNat - 48) : ℕ) := by omega
        rw [exact_eq (by omega) (by omega), Option.bind_eq_bind, Option.bind_some,
          exact_eq (by omega) (by omega), Option.bind_some, hsum]
        exact ih hv'
      · -- a numeral never comes out smaller than a part of it
        have hle := le_foldl_value (f.takeWhile isDigit) (v * 10 + (c.toNat - 48))
        rw [if_neg (by omega)]
        refine Option.eq_none_iff_forall_ne_some.mpr fun r hr => ?_
        obtain ⟨tens, htens, hr⟩ := Option.bind_eq_some_iff.mp hr
        obtain ⟨v', hsum, -⟩ := Option.bind_eq_some_iff.mp hr
        rw [(of_exact htens).1, exact] at hsum
        split at hsum
        · omega
        · exact absurd hsum.symm (Option.some_ne_none v')
    · have hd : ¬ isDigit c = true := fun hd => hc (by
        rw [isDigit, Bool.and_eq_true] at hd
        exact ⟨of_decide_eq_true hd.1, of_decide_eq_true hd.2⟩)
      rw [if_neg hc, List.takeWhile_cons_of_neg hd, List.dropWhile_cons_of_neg hd]
      exact (if_pos hv).symm

theorem fmtPrec_exact {N : ℕ} (h : (precision f).1 = some N) :
    fmtPrec f = if N < 2 ^ 31 then some ((N : ℤ), (precision f).2) else none := by
  cases f with
  | nil => exact absurd h.symm (Option.some_ne_none N)
  | cons c f =>
    rw [fmtPrec]
    rw [precision] at h ⊢
    split at h
    case isTrue hc =>
      obtain rfl := Option.some.inj h
      rw [if_pos hc, if_pos hc]
      exact fmtNumber_exact f (by decide)
    case isFalse => exact absurd h.symm (Option.some_ne_none N)

/-! ## The loop over the string -/

variable {N i k : ℕ}

/-- One round of the loop inside the array. -/
theorem fmtLen_step (hi : i < N) (hN : N < 2 ^ 31) : fmtLen (within p N) s p N (n + 1) i =
    if s (p + i) ≠ 0 then fmtLen (within p N) s p N n ((i + 1 : ℕ) : ℤ) else some (i : ℤ) := by
  have hp : ((p : ℤ) + i).toNat = p + i := by omega
  rw [fmtLen, hp, fetch_eq (within_add p hi), Option.bind_eq_bind, Option.bind_some]
  by_cases h0 : s (p + i) = 0
  · rw [if_neg (not_not_intro h0), if_neg fun h => h.1 h0]
    rfl
  · rw [if_pos h0, if_pos ⟨h0, .inr (Int.ofNat_lt.mpr hi)⟩, exact_eq (by omega) (by omega)]
    rfl

/-- **The loop stops at a NUL of the array.** -/
theorem fmtLen_nul (hk : k < N) (hN : N < 2 ^ 31) (hne : ∀ j < k, s (p + j) ≠ 0)
    (h0 : s (p + k) = 0) (hi : i ≤ k) (hn : k < i + n) :
    fmtLen (within p N) s p N n i = some (k : ℤ) := by
  induction n generalizing i with
  | zero => exact absurd hn (Nat.not_lt.mpr hi)
  | succ n ih =>
    rw [fmtLen_step (hi.trans_lt hk) hN]
    rcases Nat.lt_or_eq_of_le hi with hlt | rfl
    · rw [if_pos (hne i hlt)]
      exact ih hlt (by omega)
    · rw [if_neg (not_not_intro h0)]

/-- **Without a NUL the loop reads the byte behind the array.** -/
theorem fmtLen_past (hN : N < 2 ^ 31) (hne : ∀ j < N, s (p + j) ≠ 0) (hi : i ≤ N) :
    fmtLen (within p N) s p N n i = none := by
  induction n generalizing i with
  | zero => rfl
  | succ n ih =>
    rcases Nat.lt_or_eq_of_le hi with hlt | rfl
    · rw [fmtLen_step hlt hN, if_pos (hne i hlt)]
      exact ih hlt
    · have hp : ((p : ℤ) + i).toNat = p + i := by omega
      rw [fmtLen, hp, fetch_none (within_end p i)]
      rfl

/-! ## The field -/

theorem fmtEmit_within (h : i + len ≤ N) : fmtEmit (within p N) e s (p + i) len out =
    some (Printf.fmtEmit e s (p + i) len out) := by
  induction len generalizing i out with
  | zero => rfl
  | succ len ih =>
    rw [fmtEmit, fetch_eq (within_add p (by omega)), Printf.fmtEmit, Nat.add_assoc]
    exact ih (by omega)

/-- So many bytes from a place on, as a field. -/
theorem bytes_shows {width : ℕ} (hk : k < 2 ^ 31) (hw : width < 2 ^ 31) :
    Field.Shows ⟨s, p, k, false, ' '.toUInt8, width⟩ left ⟨false, s.bytes p k, width, false⟩ where
  spans := s.spans_bytes p k
  len := congrArg Nat.cast (s.length_bytes p k).symm
  negative := rfl
  width := rfl
  pad _ := rfl
  short := (s.length_bytes p k).trans_lt hk
  narrow := hw

/-- **A string of the array is emitted from inside it**, filled up as usual. -/
theorem fmtField_within {width : ℕ} (hk : k ≤ N) (hN : N < 2 ^ 31) (hw : width < 2 ^ 31) :
    fmtField (within p N) e left ⟨s, p, k, false, ' '.toUInt8, width⟩ out =
      some (e.puts (Rendering.bytes ⟨false, s.bytes p k, width, false⟩ left) out) := by
  have hemit (out : σ) : fmtEmit (within p N) e s p k out = some (Printf.fmtEmit e s p k out) :=
    fmtEmit_within (i := 0) (by omega)
  have hexact : exact ((width : ℤ) - k) = some ((width : ℤ) - k) := exact_eq (by omega) (by omega)
  have hlong : long ((width : ℤ) - k) = (width : ℤ) - k := long_eq (by omega) (by omega)
  rw [← fmtField_eq (bytes_shows (hk.trans_lt hN) hw), fmtField, Printf.fmtField]
  simp only [Bool.false_eq_true, if_false, hexact, hlong, Option.bind_eq_bind, Option.bind_some,
    sub_zero, Int.toNat_natCast, hemit]
  rfl

/-! ## The directive -/

/-- **The scan of a `%.Ns`**: past it are the loop over the string and the field, unless a numeral
is too large for a `LONG`. -/
theorem fmtCore_string (out : σ) (htype : (directive f).1.type = some 's'.toUInt8)
    (hprec : (directive f).1.prec = some N) (hcell : (e.next args).1 ≠ 0) :
    fmtCore R e (n + 1) ('%'.toUInt8 :: f) out args =
      if (directive f).1.width < 2 ^ 31 ∧ N < 2 ^ 31 then
        (fmtLen R e.mem (e.next args).1.toNat N n 0).bind fun len =>
          (fmtField R e (directive f).1.left ⟨e.mem, (e.next args).1.toNat, len, false,
            ' '.toUInt8, (directive f).1.width⟩ out).bind fun out =>
              fmtCore R e n (directive f).2 out (e.next args).2
      else none := by
  have hnumber := fmtNumber_exact (f.dropWhile isFlag) (v := 0) (by decide)
  have hprec' := fmtPrec_exact (f := (f.dropWhile isFlag).dropWhile isDigit) hprec
  have hscan : (scanned f).headD 0 = 's'.toUInt8 := by
    rw [List.headD_eq_head?_getD, show (scanned f).head? = some 's'.toUInt8 from htype]
    rfl
  rw [Nat.cast_zero] at hnumber
  by_cases hwidth : value ((f.dropWhile isFlag).takeWhile isDigit) < 2 ^ 31
  · replace hnumber := hnumber.trans (if_pos hwidth)
    by_cases hN : N < 2 ^ 31
    · replace hprec' := hprec'.trans (if_pos hN)
      refine Eq.trans ?_ (if_pos ⟨hwidth, hN⟩).symm
      rw [fmtCore, if_neg (not_not.mpr rfl), fmtFlags_eq]
      simp only [Bool.false_or, Option.bind_eq_bind, hnumber, hprec', Option.bind_some,
        fmtModifiers_eq]
      change (fmtSwitch R e n ((scanned f).headD 0) _ _ _ args).bind _ = _
      rw [hscan, fmtSwitch, if_pos rfl]
      simp only [if_neg hcell, Option.bind_eq_bind, Option.bind_assoc]
      rfl
    · replace hprec' := hprec'.trans (if_neg hN)
      refine Eq.trans ?_ (if_neg fun h => hN h.2).symm
      rw [fmtCore, if_neg (not_not.mpr rfl), fmtFlags_eq]
      simp only [Bool.false_or, Option.bind_eq_bind, hnumber, hprec', Option.bind_some,
        Option.bind_none]
  · replace hnumber := hnumber.trans (if_neg hwidth)
    refine Eq.trans ?_ (if_neg fun h => hwidth h.1).symm
    rw [fmtCore, if_neg (not_not.mpr rfl), fmtFlags_eq]
    simp only [Bool.false_or, Option.bind_eq_bind, hnumber, Option.bind_none]

/-- Characters that stand for themselves. -/
theorem fmtCore_lit {u : List UInt8} (hu : ∀ c ∈ u, c ≠ '%'.toUInt8) (out : σ) (args : α) :
    fmtCore R e (n + u.length) (u ++ f) out args = fmtCore R e n f (e.puts u out) args := by
  induction u generalizing out with
  | nil => rfl
  | cons c u ih =>
    obtain ⟨hc, hu⟩ := List.forall_mem_cons.mp hu
    rw [List.length_cons, ← Nat.add_assoc, List.cons_append, fmtCore, if_pos hc, ih hu, puts_cons]

/-- The part of an array up to its first NUL. -/
theorem takeWhile_bytes (hk : k < N) (hne : ∀ j < k, s (p + j) ≠ 0) (h0 : s (p + k) = 0) :
    (s.bytes p N).takeWhile (· != 0) = s.bytes p k := by
  obtain ⟨rest, rfl⟩ := Nat.exists_eq_add_of_lt hk
  rw [Nat.add_assoc, Block.bytes_add, Block.bytes_succ, h0,
    List.takeWhile_append_of_pos fun c hc => ?_]
  · rw [List.takeWhile_cons_of_neg (by decide), List.append_nil]
  · obtain ⟨j, hj, rfl⟩ := List.mem_map.mp hc
    exact bne_iff_ne.mpr (hne j (List.mem_range.mp hj))

/-- **A NUL inside the array**: the directive prints what is in front of it. -/
theorem fmtCore_nul (out : σ) (htype : (directive f).1.type = some 's'.toUInt8)
    (hprec : (directive f).1.prec = some N) (hcell : (e.next args).1 ≠ 0)
    (hw : (directive f).1.width < 2 ^ 31) (hN : N < 2 ^ 31) (hk : k < N)
    (hne : ∀ j < k, e.mem ((e.next args).1.toNat + j) ≠ 0)
    (h0 : e.mem ((e.next args).1.toNat + k) = 0) (hn : N < n) :
    fmtCore (within (e.next args).1.toNat N) e (n + 1) ('%'.toUInt8 :: f) out args =
      fmtCore (within (e.next args).1.toNat N) e n (directive f).2
        (e.puts (Rendering.bytes ⟨false, e.mem.bytes (e.next args).1.toNat k,
          (directive f).1.width, false⟩ (directive f).1.left) out) (e.next args).2 := by
  have hlen := fmtLen_nul (n := n) hk hN hne h0 (Nat.zero_le k) (by omega)
  rw [Nat.cast_zero] at hlen
  rw [fmtCore_string out htype hprec hcell, if_pos ⟨hw, hN⟩, hlen, Option.bind_some,
    fmtField_within hk.le hN hw, Option.bind_some]

/-- **No NUL inside the array**, or a numeral too large: no result. -/
theorem fmtCore_past (out : σ) (htype : (directive f).1.type = some 's'.toUInt8)
    (hprec : (directive f).1.prec = some N) (hcell : (e.next args).1 ≠ 0)
    (h : ¬ ((directive f).1.width < 2 ^ 31 ∧ N < 2 ^ 31 ∧
      ∃ k < N, e.mem ((e.next args).1.toNat + k) = 0)) :
    fmtCore (within (e.next args).1.toNat N) e (n + 1) ('%'.toUInt8 :: f) out args = none := by
  rw [fmtCore_string out htype hprec hcell]
  split
  · rename_i hsmall
    have hne : ∀ j < N, e.mem ((e.next args).1.toNat + j) ≠ 0 := fun j hj h0 =>
      h ⟨hsmall.1, hsmall.2, j, hj, h0⟩
    have hlen := fmtLen_past (n := n) hsmall.2 hne (Nat.zero_le N)
    rw [Nat.cast_zero] at hlen
    rw [hlen, Option.bind_none]
  · rfl

end Guarded

/-- **A precision bounds what `%s` reads exactly if there is a NUL inside it.**  For a directive
`%.Ns` in a format of characters that stand for themselves, and a cell that points to an array of
`N` bytes: the engine reads the array only and puts out its bytes up to the first NUL or all of
them, exactly if the array has a NUL and a `LONG` holds the two numerals. -/
theorem string_bounded_iff {α : Type} (next : α → BitVec 32 × α) (mem : Block) (args : α)
    (pre : List UInt8) {f : List UInt8} {n N : ℕ} (hpre : ∀ c ∈ pre, c ≠ '%'.toUInt8)
    (htype : (directive f).1.type = some 's'.toUInt8) (hprec : (directive f).1.prec = some N)
    (hpost : ∀ c ∈ (directive f).2, c ≠ '%'.toUInt8) (hcell : (next args).1 ≠ 0)
    (hn : pre.length + f.length + N + 1 < n) :
    Guarded.fmtCore (within (next args).1.toNat N) (writer next mem) n (pre ++ '%'.toUInt8 :: f) []
        args = some (pre ++ Rendering.bytes ⟨false,
          (mem.bytes (next args).1.toNat N).takeWhile (· != 0), (directive f).1.width, false⟩
          (directive f).1.left ++ (directive f).2, (next args).2) ↔
      (directive f).1.width < 2 ^ 31 ∧ N < 2 ^ 31 ∧
        ∃ k < N, mem ((next args).1.toNat + k) = 0 := by
  obtain ⟨m, rfl⟩ := Nat.exists_eq_add_of_lt (show pre.length < n by omega)
  rw [show pre.length + m + 1 = m + 1 + pre.length by omega, Guarded.fmtCore_lit hpre]
  by_cases h : (directive f).1.width < 2 ^ 31 ∧ N < 2 ^ 31 ∧
      ∃ k, k < N ∧ mem ((next args).1.toNat + k) = 0
  · refine iff_of_true ?_ h
    obtain ⟨hw, hN, hnul⟩ := h
    obtain ⟨k, ⟨hk, h0⟩, hmin⟩ := Nat.findX hnul
    have hne : ∀ j < k, mem ((next args).1.toNat + j) ≠ 0 := fun j hj hzero =>
      hmin j hj ⟨hj.trans hk, hzero⟩
    have hdir := length_directive (f := f)
    have hrun := Guarded.fmtCore_nul (e := writer next mem) ((writer next mem).puts pre []) htype
      hprec hcell hw hN hk hne h0 (show N < m by omega)
    obtain ⟨fuel, hfuel⟩ := Nat.exists_eq_add_of_lt (show (directive f).2.length < m by omega)
    have hrest := Guarded.fmtCore_lit (R := within (next args).1.toNat N) (e := writer next mem)
      (n := fuel + 1) (f := []) hpost
    rw [show fuel + 1 + (directive f).2.length = m by omega, List.append_nil] at hrest
    refine hrun.trans ((hrest _ _).trans ?_)
    rw [puts_writer, puts_writer, puts_writer, List.nil_append,
      Guarded.takeWhile_bytes hk hne h0]
    rfl
  · refine iff_of_false (fun heq => ?_) h
    have hrun := Guarded.fmtCore_past (e := writer next mem) (n := m)
      ((writer next mem).puts pre []) htype hprec hcell h
    exact absurd (hrun.symm.trans heq) nofun

/-- `"ab"` at 16, and a NUL behind it. -/
def sampleArray : Block := fun i => ['a'.toUInt8, 'b'.toUInt8].getD (i - 16) 0

/-- **`"%.2s"` reads the byte behind an array of two**: there is no result without it, with it there
is. -/
theorem string_not_bounded :
    Guarded.fmtCore (within 16 2) (writer (fun c : BitVec 32 => (c, c)) sampleArray) 10
      ("%.2s".toList.map Char.toUInt8) [] 16 = none ∧
    Guarded.fmtCore (within 16 3) (writer (fun c : BitVec 32 => (c, c)) sampleArray) 10
      ("%.2s".toList.map Char.toUInt8) [] 16 = some ("ab".toList.map Char.toUInt8, 16) := by
  decide

theorem string_bounded_iff_nul :
    Guarded.fmtCore (within 16 3) (writer (fun c : BitVec 32 => (c, c)) sampleArray) 12
      ("(%-4.3s)".toList.map Char.toUInt8) [] 16
        = some ("(ab  )".toList.map Char.toUInt8, 16) :=
  (string_bounded_iff (n := 12) (N := 3) (fun c : BitVec 32 => (c, c)) sampleArray 16
    ("(".toList.map Char.toUInt8) (f := "-4.3s)".toList.map Char.toUInt8) (by decide +kernel)
    (by decide) (by decide) (by decide +kernel) (by decide) (by decide)).mpr
    ⟨by decide, by decide, 2, by decide, by decide⟩

end Printf
