import Emu68Common.Text.Format
import Mathlib

/-!
# Prefs/Number — `prefs_number`, a value as a decimal number

The digits are counted downwards, since a `LONG` reaches one further below zero than above it, and
the sign goes on last.  Every 32-bit computation is carried out on integers and has no result when
it leaves the `LONG`s, so a number that comes out is one no computation overflowed for.

    Denotes l z                     the text is a sign or none and digits, and `z` is its number
    prefs_number value least most   what is returned, and `*out` after it
-/

namespace Prefs

open Machinery Printf

/-! ## What a text denotes -/

/-- **A decimal number**: a sign or none, and digits; nothing else. -/
def Denotes (l : List UInt8) (z : ℤ) : Prop :=
  ∃ digits, digits ≠ [] ∧ (∀ c ∈ digits, isDigit c = true) ∧
    ((l = digits ∨ l = '+'.toUInt8 :: digits) ∧ z = value digits ∨
      l = '-'.toUInt8 :: digits ∧ z = -(value digits : ℤ))

/-! ## `prefs_number` -/

/-- `PREFS_NUMBER_LEAST` -/
def PREFS_NUMBER_LEAST : ℤ := -0x7FFFFFFF - 1

/-- `PREFS_NUMBER_MOST` -/
def PREFS_NUMBER_MOST : ℤ := 0x7FFFFFFF

/-- A `LONG` computation: no result, if it overflows. -/
def checked (z : ℤ) : Option ℤ :=
  if PREFS_NUMBER_LEAST ≤ z ∧ z ≤ PREFS_NUMBER_MOST then some z else none

/-- A `char`, which is signed. -/
def char (c : UInt8) : ℤ := if c.toNat < 128 then c.toNat else c.toNat - 256

/-- The loop: `number` at the NUL, or FALSE. -/
def countDown : List UInt8 → ℤ → Option (Option ℤ)
  | [], number => some (some number)
  | c :: value, number => do
    let digit ← checked (char c - char '0'.toUInt8)
    if digit < 0 then return none
    if digit > 9 then return none
    let room ← checked (PREFS_NUMBER_LEAST + digit)
    let room ← checked (room.tdiv 10)
    if number < room then return none
    let tens ← checked (number * 10)
    let number ← checked (tens - digit)
    countDown value number

/-- `if (!negative) …`: the number with its sign on, or FALSE. -/
def signed (negative : Bool) (number : ℤ) : Option (Option ℤ) := do
  if !negative then
    if number == PREFS_NUMBER_LEAST then return none
    let number ← checked (-number)
    return some number
  return some number

/-- **`prefs_number(value, least, most, &out)`**: what it returns and what `out` is after it;
nothing, if a computation overflows. -/
def prefsNumber (value : CString) (least most out : ℤ) : Option (Bool × ℤ) := do
  let value := value.bytes
  let negative := value.head? == some '-'.toUInt8
  let value := if negative || value.head? == some '+'.toUInt8 then value.tail else value
  if value.isEmpty then return (false, out)
  let some number ← countDown value 0 | return (false, out)
  let some number ← signed negative number | return (false, out)
  if number < least || number > most then return (false, out)
  return (true, number)

/-! ## Counting down -/

theorem checked_eq {z : ℤ} (h : -2 ^ 31 ≤ z) (h' : z < 2 ^ 31) : checked z = some z :=
  if_pos ⟨h, Int.le_sub_one_of_lt h'⟩

/-- A digit, as the loop sees it. -/
theorem char_digit {c : UInt8} (h : isDigit c = true) :
    char c - char '0'.toUInt8 = ((c.toNat - 48 : ℕ) : ℤ) ∧ c.toNat - 48 ≤ 9 := by
  rw [isDigit, Bool.and_eq_true, decide_eq_true_iff, decide_eq_true_iff] at h
  have h48 : 48 ≤ c.toNat := h.1
  have h57 : c.toNat ≤ 57 := h.2
  have h0 : char '0'.toUInt8 = 48 := rfl
  rw [h0, char, if_pos (by omega)]
  exact ⟨by omega, by omega⟩

/-- Nothing else passes for one. -/
theorem char_not_digit {c : UInt8} (h : ¬ isDigit c = true) :
    char c - char '0'.toUInt8 < 0 ∨ char c - char '0'.toUInt8 > 9 := by
  by_contra hc
  refine h ?_
  have h0 : char '0'.toUInt8 = 48 := rfl
  rw [h0, char] at hc
  have hrange : 48 ≤ c.toNat ∧ c.toNat ≤ 57 := by
    have := c.toNat_lt
    split at hc <;> omega
  rw [isDigit, Bool.and_eq_true, decide_eq_true_iff, decide_eq_true_iff]
  exact hrange

theorem char_range (c : UInt8) : -128 ≤ char c ∧ char c < 128 := by
  have := c.toNat_lt
  rw [char]
  split <;> omega

/-- **The bound on what is there already is the bound on what comes out**: division rounds the
lowest `LONG` up. -/
theorem lt_room_iff {m d : ℕ} (hd : d ≤ 9) :
    (-(m : ℤ) < (PREFS_NUMBER_LEAST + d).tdiv 10) ↔ 2 ^ 31 < m * 10 + d := by
  have hneg : PREFS_NUMBER_LEAST + d = -(2 ^ 31 - d : ℤ) := by
    rw [PREFS_NUMBER_LEAST]
    omega
  rw [hneg, Int.neg_tdiv, Int.tdiv_eq_ediv_of_nonneg (by omega)]
  omega

/-- **The loop reads digits, as long as a `LONG` can hold them negated.** -/
theorem countDown_eq (l : List UInt8) {m : ℕ} (hm : m ≤ 2 ^ 31) :
    countDown l (-(m : ℤ)) = some (if (∀ c ∈ l, isDigit c = true) ∧
      l.foldl (fun v c => v * 10 + (c.toNat - 48)) m ≤ 2 ^ 31
      then some (-((l.foldl (fun v c => v * 10 + (c.toNat - 48)) m : ℕ) : ℤ)) else none) := by
  induction l generalizing m with
  | nil => rw [if_pos ⟨nofun, hm⟩]; rfl
  | cons c l ih =>
    have hrange := char_range c
    have h0 : char '0'.toUInt8 = 48 := rfl
    rw [countDown, checked_eq (z := char c - char '0'.toUInt8) (by omega) (by omega)]
    simp only [Option.bind_eq_bind, Option.bind_some]
    by_cases hc : isDigit c = true
    · obtain ⟨hdigit, hd⟩ := char_digit hc
      rw [hdigit, if_neg (by omega), if_neg (by omega)]
      generalize hdef : c.toNat - 48 = d at hd
      have hroom : checked (PREFS_NUMBER_LEAST + d) = some (PREFS_NUMBER_LEAST + d) := by
        rw [PREFS_NUMBER_LEAST]
        exact checked_eq (by omega) (by omega)
      have htenth : checked ((PREFS_NUMBER_LEAST + d).tdiv 10)
          = some ((PREFS_NUMBER_LEAST + d).tdiv 10) := by
        rw [PREFS_NUMBER_LEAST, show (-0x7FFFFFFF - 1 + d : ℤ) = -(2 ^ 31 - d : ℤ) by omega,
          Int.neg_tdiv, Int.tdiv_eq_ediv_of_nonneg (by omega)]
        exact checked_eq (by omega) (by omega)
      rw [hroom, Option.bind_some, htenth, Option.bind_some, List.foldl_cons, hdef]
      by_cases hlt : 2 ^ 31 < m * 10 + d
      · have hle := le_foldl_value l (m * 10 + d)
        rw [if_pos ((lt_room_iff hd).mpr hlt), if_neg fun h => by omega]
        rfl
      · rw [if_neg ((lt_room_iff hd).not.mpr hlt),
          checked_eq (z := -(m : ℤ) * 10) (by omega) (by omega),
          Option.bind_some, checked_eq (by omega) (by omega), Option.bind_some,
          show -(m : ℤ) * 10 - d = -((m * 10 + d : ℕ) : ℤ) by omega, ih (by omega)]
        simp only [List.mem_cons, forall_eq_or_imp, hc, true_and]
    · have hall : ¬ ∀ d ∈ c :: l, isDigit d = true := fun h => hc (h c List.mem_cons_self)
      by_cases hlt : char c - char '0'.toUInt8 < 0
      · rw [if_pos hlt, if_neg fun h => hall h.1]
        rfl
      · rw [if_neg hlt, if_pos ((char_not_digit hc).resolve_left hlt), if_neg fun h => hall h.1]
        rfl

/-! ## The sign -/

/-- **A number with a minus is the number there is; without one, the lowest has no counterpart.** -/
theorem signed_eq {v : ℕ} (hv : v ≤ 2 ^ 31) (negative : Bool) :
    signed negative (-(v : ℤ)) = some (if negative then some (-(v : ℤ))
      else if v = 2 ^ 31 then none else some (v : ℤ)) := by
  cases negative with
  | true => rfl
  | false =>
    rw [signed, Bool.not_false, if_pos rfl, if_neg Bool.false_ne_true]
    by_cases hleast : v = 2 ^ 31
    · subst hleast
      rfl
    · have hne : ¬ (-(v : ℤ) == PREFS_NUMBER_LEAST) = true := by
        rw [PREFS_NUMBER_LEAST, beq_iff_eq]
        omega
      rw [if_neg hne, if_neg hleast, checked_eq (by omega) (by omega), neg_neg]
      rfl

/-! ## The whole of it -/

/-- The text behind the sign. -/
def unsigned (l : List UInt8) : List UInt8 :=
  if l.head? = some '-'.toUInt8 ∨ l.head? = some '+'.toUInt8 then l.tail else l

/-- A digit is no sign. -/
theorem unsigned_of_isDigit {l : List UInt8} (h : ∀ c ∈ l, isDigit c = true) : unsigned l = l := by
  refine if_neg fun hsign => ?_
  cases l with
  | nil => exact hsign.elim nofun nofun
  | cons c l =>
    have hc := h c List.mem_cons_self
    rcases hsign with hs | hs <;> rw [Option.some.inj hs] at hc <;> exact absurd hc (by decide)

/-- **What a text denotes**: digits behind the sign, and their number with the sign on. -/
theorem denotes_iff (l : List UInt8) (z : ℤ) : Denotes l z ↔
    unsigned l ≠ [] ∧ (∀ c ∈ unsigned l, isDigit c = true) ∧
      z = if l.head? = some '-'.toUInt8 then -(value (unsigned l) : ℤ) else value (unsigned l) := by
  constructor
  · rintro ⟨digits, hne, hall, ⟨rfl | rfl, rfl⟩ | ⟨rfl, rfl⟩⟩
    · have hminus : l.head? ≠ some '-'.toUInt8 := fun h => by
        have hc := hall _ (List.mem_of_mem_head? h)
        exact absurd hc (by decide)
      rw [unsigned_of_isDigit hall, if_neg hminus]
      exact ⟨hne, hall, rfl⟩
    · exact ⟨hne, hall, rfl⟩
    · exact ⟨hne, hall, rfl⟩
  · rintro ⟨hne, hall, rfl⟩
    refine ⟨unsigned l, hne, hall, ?_⟩
    by_cases hminus : l.head? = some '-'.toUInt8
    · obtain ⟨l', rfl⟩ := List.head?_eq_some_iff.mp hminus
      exact .inr ⟨rfl, rfl⟩
    · rw [if_neg hminus]
      by_cases hplus : l.head? = some '+'.toUInt8
      · obtain ⟨l', rfl⟩ := List.head?_eq_some_iff.mp hplus
        exact .inl ⟨.inr rfl, rfl⟩
      · exact .inl ⟨.inl (if_neg (not_or.mpr ⟨hminus, hplus⟩)).symm, rfl⟩

/-- The number a text denotes if it denotes one. -/
def numberOf (l : List UInt8) : ℤ :=
  if l.head? = some '-'.toUInt8 then -(value (unsigned l) : ℤ) else value (unsigned l)

/-- The sign goes on if what comes out is a `LONG`. -/
theorem signed_numberOf {l : List UInt8} (h : value (unsigned l) ≤ 2 ^ 31) :
    signed (l.head? == some '-'.toUInt8) (-(value (unsigned l) : ℤ))
      = some (if numberOf l ≤ PREFS_NUMBER_MOST then some (numberOf l) else none) := by
  rw [signed_eq h, numberOf, PREFS_NUMBER_MOST]
  by_cases hminus : l.head? = some '-'.toUInt8
  · rw [if_pos hminus, if_pos (beq_iff_eq.mpr hminus), if_pos (by omega)]
  · rw [if_neg hminus, if_neg (mt beq_iff_eq.mp hminus)]
    by_cases hleast : value (unsigned l) = 2 ^ 31
    · rw [if_pos hleast, if_neg (by omega)]
    · rw [if_neg hleast, if_pos (by omega)]

/-- What is no `LONG` is refused by the loop or by the sign. -/
theorem inLong_numberOf (l : List UInt8) :
    PREFS_NUMBER_LEAST ≤ numberOf l ∧ numberOf l ≤ PREFS_NUMBER_MOST ↔
      value (unsigned l) ≤ 2 ^ 31 ∧ numberOf l ≤ PREFS_NUMBER_MOST := by
  rw [numberOf, PREFS_NUMBER_LEAST, PREFS_NUMBER_MOST]
  split <;> omega

theorem prefsNumber_eq (value : CString) (least most out : ℤ) :
    prefsNumber value least most out = some
      (if unsigned value.bytes ≠ [] ∧ (∀ c ∈ unsigned value.bytes, isDigit c = true) ∧
          (PREFS_NUMBER_LEAST ≤ numberOf value.bytes ∧ numberOf value.bytes ≤ PREFS_NUMBER_MOST) ∧
          least ≤ numberOf value.bytes ∧ numberOf value.bytes ≤ most
        then (true, numberOf value.bytes) else (false, out)) := by
  simp only [inLong_numberOf]
  have hunsigned : (if (value.bytes.head? == some '-'.toUInt8 ||
      value.bytes.head? == some '+'.toUInt8) = true then value.bytes.tail else value.bytes)
      = unsigned value.bytes := by
    rw [unsigned]
    simp only [Bool.or_eq_true, beq_iff_eq]
  rw [prefsNumber]
  simp only [hunsigned, List.isEmpty_iff]
  by_cases hempty : unsigned value.bytes = []
  · rw [if_pos hempty, if_neg fun h => h.1 hempty]
    rfl
  have hloop := countDown_eq (unsigned value.bytes) (Nat.zero_le (2 ^ 31))
  rw [Nat.cast_zero, neg_zero, ← Printf.value] at hloop
  rw [if_neg hempty, hloop]
  simp only [Option.bind_eq_bind, Option.bind_some]
  by_cases hread : (∀ c ∈ unsigned value.bytes, isDigit c = true) ∧
      Printf.value (unsigned value.bytes) ≤ 2 ^ 31
  · rw [if_pos hread]
    simp only [signed_numberOf hread.2, Option.bind_some]
    by_cases hmost : numberOf value.bytes ≤ PREFS_NUMBER_MOST
    · rw [if_pos hmost]
      simp only [pure]
      by_cases hrange : least ≤ numberOf value.bytes ∧ numberOf value.bytes ≤ most
      · rw [if_neg (by simpa using hrange), if_pos ⟨hempty, hread.1, ⟨hread.2, hmost⟩, hrange⟩]
      · rw [if_pos (by simpa [imp_iff_not_or] using hrange), if_neg fun h => hrange h.2.2.2]
    · rw [if_neg hmost, if_neg fun h => hmost h.2.2.1.2]
      rfl
  · rw [if_neg hread, if_neg fun h => hread ⟨h.2.1, h.2.2.1.1⟩]
    rfl

/-- **`prefs_number` reads exactly the decimal numbers in range.**  No computation overflows; it
returns TRUE exactly if the text is a decimal number that a `LONG` can hold and that is from `least`
to `most`, which `*out` then is; otherwise `*out` is as it was. -/
theorem prefs_number_exact (value : CString) (least most out : ℤ) :
    ∃ ret out', prefsNumber value least most out = some (ret, out') ∧
      (ret = true ↔ ∃ z, Denotes value.bytes z ∧
        (PREFS_NUMBER_LEAST ≤ z ∧ z ≤ PREFS_NUMBER_MOST) ∧ least ≤ z ∧ z ≤ most) ∧
      (ret = true → ∀ z, Denotes value.bytes z → out' = z) ∧ (ret = false → out' = out) := by
  have hiff : (∃ z, Denotes value.bytes z ∧
      (PREFS_NUMBER_LEAST ≤ z ∧ z ≤ PREFS_NUMBER_MOST) ∧ least ≤ z ∧ z ≤ most) ↔
      unsigned value.bytes ≠ [] ∧ (∀ c ∈ unsigned value.bytes, isDigit c = true) ∧
        (PREFS_NUMBER_LEAST ≤ numberOf value.bytes ∧ numberOf value.bytes ≤ PREFS_NUMBER_MOST) ∧
        least ≤ numberOf value.bytes ∧ numberOf value.bytes ≤ most := by
    simp only [denotes_iff]
    constructor
    · rintro ⟨z, ⟨hne, hall, rfl⟩, hin⟩
      exact ⟨hne, hall, hin⟩
    · rintro ⟨hne, hall, hin⟩
      exact ⟨_, ⟨hne, hall, rfl⟩, hin⟩
  rw [prefsNumber_eq, hiff]
  split
  case isTrue h =>
    exact ⟨true, _, rfl, by simpa using h, fun _ z hz => ((denotes_iff _ z).mp hz).2.2.symm, nofun⟩
  case isFalse h => exact ⟨false, out, rfl, by simpa using h, nofun, fun _ => rfl⟩

/-- The digit that would overflow is refused, the one below it is not. -/
example : prefsNumber ⟨[0x32, 0x31, 0x34, 0x37, 0x34, 0x38, 0x33, 0x36, 0x34, 0x38], by decide⟩
    PREFS_NUMBER_LEAST PREFS_NUMBER_MOST 7 = some (false, 7) := by decide

end Prefs
