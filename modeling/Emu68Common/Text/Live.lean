import Emu68Common.Text.Printf

/-!
# Text/Live — the engine over memory it writes to itself

A front end that puts its output into memory changes what the engine reads: the characters of a
string are read one at a time, with what was put out in between (`liveCore`).  As long as no string
lies where the output goes (`NoAlias`) that makes no difference: the engine puts out what it would
over the memory as it was at the start (`liveCore_eq`).

    Live σ α               a front end whose state has the memory in it
    e.Follows E V off      it does what `E` does, whose memory stays as it is
-/

namespace Printf

open Machinery

variable {σ α : Type}

/-- **What a front end supplies**, its memory a part of its state. -/
structure Live (σ α : Type) where
  putch : UInt8 → σ → σ
  next : α → BitVec 32 × α
  mem : σ → Block

/-- The front end as it is now. -/
def Live.now (e : Live σ α) (out : σ) : Engine σ α := ⟨e.putch, e.next, e.mem out⟩

/-- `fmt_emit`, each character as it stands when its turn comes. -/
def liveEmit (e : Live σ α) (s : σ → Block) : ℕ → ℕ → σ → σ
  | _, 0, out => out
  | p, len + 1, out => liveEmit e s (p + 1) len (e.putch (s out p) out)

/-- The code behind the switch. -/
def liveField (e : Live σ α) (left : Bool) (w : Field) (body : σ → Block) (out : σ) : σ :=
  let fill := long (long (w.width - w.len) - if w.negative then 1 else 0)
  let out := if !left && w.pad == ' '.toUInt8 then fmtPad (e.now out) ' '.toUInt8 fill out else out
  let out := if w.negative then e.putch '-'.toUInt8 out else out
  let out := if !left && w.pad == '0'.toUInt8 then fmtPad (e.now out) '0'.toUInt8 fill out else out
  let out := liveEmit e body w.start w.len.toNat out
  if left then fmtPad (e.now out) ' '.toUInt8 fill out else out

/-- **`fmt_core`**, over memory that changes.  What is emitted of a string is read from it; the
other conversions are read from the engine's own buffer. -/
def liveCore (e : Live σ α) : ℕ → List UInt8 → σ → α → Option (σ × α)
  | 0, _, _, _ => none
  | _ + 1, [], out, args => some (out, args)
  | n + 1, c :: f, out, args =>
    if c ≠ '%'.toUInt8 then liveCore e n f (e.putch c out) args
    else
      let (left, zero, f) := fmtFlags f false false
      let (width, f) := fmtNumber f 0
      let (prec, f) := fmtPrec f
      let f := fmtModifiers f
      let pad := if zero && !left then '0'.toUInt8 else ' '.toUInt8
      let conv := f.headD 0
      match fmtSwitch (e.now out) n conv width prec pad args with
      | none => none
      | some (some w, rest) =>
        let body := if conv = 's'.toUInt8 ∧ (e.next args).1 ≠ 0 then e.mem else fun _ => w.body
        liveCore e n f.tail (liveField e left w body out) rest
      | some (none, rest) =>
        let out := e.putch '%'.toUInt8 out
        liveCore e n f.tail (if conv ≠ 0 then e.putch conv out else out) rest

/-! ## Strings away from the output -/

/-- Whether every byte that matters to the walk over a string is off some memory. -/
def LenOff (off : ℕ → Prop) (s : Block) (p : ℕ) (prec : ℤ) : ℕ → ℤ → Prop
  | 0, _ => True
  | n + 1, len => prec < 0 ∨ len < prec → off (p + len).toNat ∧
      (s (p + len).toNat ≠ 0 → LenOff off s p prec n (long (len + 1)))

/-- **No string argument lies in some memory.** -/
def NoAlias (e : Engine σ α) (off : ℕ → Prop) : ℕ → List UInt8 → α → Prop
  | 0, _, _ => True
  | _ + 1, [], _ => True
  | n + 1, c :: f, args =>
    if c ≠ '%'.toUInt8 then NoAlias e off n f args
    else
      let (left, zero, f) := fmtFlags f false false
      let (width, f) := fmtNumber f 0
      let (prec, f) := fmtPrec f
      let f := fmtModifiers f
      let pad := if zero && !left then '0'.toUInt8 else ' '.toUInt8
      let conv := f.headD 0
      (conv = 's'.toUInt8 → (e.next args).1 ≠ 0 →
        LenOff off e.mem (e.next args).1.toNat prec n 0) ∧
      match fmtSwitch e n conv width prec pad args with
      | none => True
      | some (_, rest) => NoAlias e off n f.tail rest

section Walk

variable {off off' : ℕ → Prop} {s s' : Block} {p n : ℕ} {prec len k : ℤ}

theorem LenOff.mono (h : LenOff off s p prec n len) (hoff : ∀ i, off i → off' i) :
    LenOff off' s p prec n len := by
  induction n generalizing len with
  | zero => trivial
  | succ n ih => exact fun hgo => ⟨hoff _ (h hgo).1, fun h0 => ih ((h hgo).2 h0)⟩

/-- A text that lies off it, NUL and all. -/
theorem LenOff.of_text {l : List UInt8} {i : ℕ} (h : s.Text p l) (hl : l.length < 2 ^ 31)
    (hoff : ∀ j, p ≤ j → j ≤ p + l.length → off j) (hi : i ≤ l.length) :
    LenOff off s p prec n i := by
  induction n generalizing i with
  | zero => trivial
  | succ n ih =>
    have hp : ((p : ℤ) + i).toNat = p + i := by omega
    rw [LenOff, hp]
    refine fun _ => ⟨hoff _ (Nat.le_add_right p i) (Nat.add_le_add_left hi p), fun h0 => ?_⟩
    have hlt : i < l.length := hi.lt_of_ne fun heq => h0 (heq ▸ h.end_eq)
    have hnext : long ((i : ℤ) + 1) = ((i + 1 : ℕ) : ℤ) := long_eq (by omega) (by omega)
    rw [hnext]
    exact ih hlt

/-- Less memory is easier to keep out of. -/
theorem NoAlias.mono {e : Engine σ α} {f : List UInt8} {args : α} (h : NoAlias e off n f args)
    (hoff : ∀ i, off i → off' i) : NoAlias e off' n f args := by
  induction n generalizing f args with
  | zero => trivial
  | succ n ih =>
    cases f with
    | nil => trivial
    | cons c f =>
      rw [NoAlias] at h ⊢
      by_cases hc : c ≠ '%'.toUInt8
      · rw [if_pos hc] at h ⊢
        exact ih h
      · rw [if_neg hc] at h ⊢
        refine ⟨fun hs h0 => (h.1 hs h0).mono hoff, ?_⟩
        have hrest := h.2
        split at hrest
        · trivial
        · exact ih hrest

/-- **The walk** reads the bytes that matter to it. -/
theorem fmtLen_congr (h : LenOff off s p prec n len) (hs : ∀ i, off i → s' i = s i) :
    fmtLen s' p prec n len = fmtLen s p prec n len := by
  induction n generalizing len with
  | zero => rfl
  | succ n ih =>
    rw [fmtLen, fmtLen]
    by_cases hgo : prec < 0 ∨ len < prec
    · obtain ⟨hoff, hrest⟩ := h hgo
      rw [hs _ hoff]
      by_cases h0 : s (p + len).toNat ≠ 0
      · rw [if_pos ⟨h0, hgo⟩, if_pos ⟨h0, hgo⟩, ih (hrest h0)]
      · rw [if_neg fun hand => h0 hand.1, if_neg fun hand => h0 hand.1]
    · rw [if_neg fun hand => hgo hand.2, if_neg fun hand => hgo hand.2]

theorem long_succ_le (hlen : -2 ^ 31 ≤ len) : long (len + 1) ≤ len + 1 ∧
    -2 ^ 31 ≤ long (len + 1) := by
  rw [long, Int.bmod_def]
  split <;> omega

/-- What the walk has gone over is off that memory. -/
theorem fmtLen_off (h : LenOff off s p prec n len) (hlen : -2 ^ 31 ≤ len)
    (hdone : ∀ i : ℕ, (i : ℤ) < len → off (p + i)) (hk : fmtLen s p prec n len = some k) :
    ∀ i : ℕ, (i : ℤ) < k → off (p + i) := by
  induction n generalizing len with
  | zero => cases hk
  | succ n ih =>
    rw [fmtLen] at hk
    split at hk
    · rename_i hgo
      obtain ⟨hoff, hrest⟩ := h hgo.2
      obtain ⟨hle, hge⟩ := long_succ_le hlen
      refine ih (hrest hgo.1) hge (fun i hi => ?_) hk
      rcases lt_or_eq_of_le (Int.lt_add_one_iff.mp (hi.trans_le hle)) with hlt | heq
      · exact hdone i hlt
      · rw [← heq] at hoff
        exact hoff
    · obtain rfl := Option.some.inj hk
      exact hdone

end Walk

/-! ## The engine over memory that stays as it is -/

/-- **A front end follows another**, whose memory stays as it is: a character put out leads from one
state to the next for both, and memory is the same off the output. -/
structure Live.Follows {τ : Type} (e : Live σ α) (E : Engine τ α) (V : τ → σ) (off : ℕ → Prop) :
    Prop where
  putch : ∀ c t, e.putch c (V t) = V (E.putch c t)
  next : e.next = E.next
  mem : ∀ t i, off i → e.mem (V t) i = E.mem i

section Follow

variable {τ : Type} {e : Live σ α} {E : Engine τ α} {V : τ → σ} {off : ℕ → Prop} {s : Block}
  {p len n : ℕ} {t : τ} {body : σ → Block}

theorem liveEmit_eq (h : e.Follows E V off)
    (hbody : ∀ t, ∀ i < len, body (V t) (p + i) = s (p + i)) :
    liveEmit e body p len (V t) = V (fmtEmit E s p len t) := by
  induction len generalizing p t with
  | zero => rfl
  | succ len ih =>
    have hfirst := hbody t 0 (Nat.succ_pos len)
    rw [Nat.add_zero] at hfirst
    rw [liveEmit, fmtEmit, hfirst, h.putch]
    refine ih fun t i hi => ?_
    have hnext := hbody t (i + 1) (Nat.succ_lt_succ hi)
    rwa [Nat.add_comm i 1, ← Nat.add_assoc] at hnext

theorem live_pad_eq (h : e.Follows E V off) (pad : UInt8) (count : ℤ) (out : σ) :
    fmtPad (e.now out) pad count (V t) = V (fmtPad E pad count t) := by
  rw [fmtPad, fmtPad]
  generalize count.toNat = k
  induction k generalizing t with
  | zero => rfl
  | succ k ih =>
    rw [Function.iterate_succ_apply, Function.iterate_succ_apply]
    exact (congrArg _ (h.putch pad t)).trans ih

/-- **The code behind the switch** puts out the same. -/
theorem liveField_eq (h : e.Follows E V off) {left : Bool} {w : Field}
    (hbody : ∀ t, ∀ i < w.len.toNat, body (V t) (w.start + i) = w.body (w.start + i)) :
    liveField e left w body (V t) = V (fmtField E left w t) := by
  rw [liveField, fmtField]
  simp only [live_pad_eq h, h.putch, liveEmit_eq h hbody, ← apply_ite V]

/-- Only a string is read from memory. -/
theorem fmtSwitch_of_ne {e : Engine σ α} {conv : UInt8} {width prec : ℤ} {pad : UInt8} {args : α}
    (hc : conv ≠ 's'.toUInt8) (hnext : e.next = E.next) :
    fmtSwitch e n conv width prec pad args = fmtSwitch E n conv width prec pad args := by
  rw [fmtSwitch, fmtSwitch, if_neg hc, if_neg hc, hnext]

/-- A string that is there. -/
theorem fmtSwitch_string (E : Engine τ α) (n : ℕ) (width prec : ℤ) (pad : UInt8) (args : α)
    (h0 : (E.next args).1 ≠ 0) : fmtSwitch E n 's'.toUInt8 width prec pad args
      = (fmtLen E.mem (E.next args).1.toNat prec n 0).map fun len =>
        (some ⟨E.mem, (E.next args).1.toNat, len, false, ' '.toUInt8, width⟩, (E.next args).2) := by
  rw [fmtSwitch, if_pos rfl]
  simp only [if_neg h0]
  cases fmtLen E.mem (E.next args).1.toNat prec n 0 <;> rfl

/-- `NULL` is not read. -/
theorem fmtSwitch_null {e : Engine σ α} {width prec : ℤ} {pad : UInt8} {args : α}
    (h0 : (E.next args).1 = 0) (hnext : e.next = E.next) :
    fmtSwitch e n 's'.toUInt8 width prec pad args
      = fmtSwitch E n 's'.toUInt8 width prec pad args := by
  rw [fmtSwitch, fmtSwitch, if_pos rfl, if_pos rfl, hnext]
  simp only [if_pos h0]

/-- **The switch over changing memory**, with the code behind it: what it leaves puts out the
same. -/
theorem live_switch_cases (h : e.Follows E V off) {conv : UInt8} (width : ℤ) {prec : ℤ}
    (pad : UInt8) {args : α} (hstring : conv = 's'.toUInt8 → (E.next args).1 ≠ 0 →
      LenOff off E.mem (E.next args).1.toNat prec n 0) :
    (fmtSwitch (e.now (V t)) n conv width prec pad args = none ∧
      fmtSwitch E n conv width prec pad args = none) ∨
    (∃ rest, fmtSwitch (e.now (V t)) n conv width prec pad args = some (none, rest) ∧
      fmtSwitch E n conv width prec pad args = some (none, rest)) ∨
    ∃ w' w rest, fmtSwitch (e.now (V t)) n conv width prec pad args = some (some w', rest) ∧
      fmtSwitch E n conv width prec pad args = some (some w, rest) ∧
      ∀ left, liveField e left w'
          (if conv = 's'.toUInt8 ∧ (e.next args).1 ≠ 0 then e.mem else fun _ => w'.body) (V t)
        = V (fmtField E left w t) := by
  have hnow : (e.now (V t)).next = E.next := h.next
  rw [h.next]
  by_cases hread : conv = 's'.toUInt8 ∧ (E.next args).1 ≠ 0
  · -- a string is read from memory, off the output
    obtain ⟨rfl, h0⟩ := hread
    have hoff := hstring rfl h0
    have hlen : fmtLen (e.now (V t)).mem (E.next args).1.toNat prec n 0
        = fmtLen E.mem (E.next args).1.toNat prec n 0 := fmtLen_congr hoff (h.mem t)
    have hlive := fmtSwitch_string (e.now (V t)) n width prec pad args
    rw [hnow, hlen] at hlive
    have hstatic := fmtSwitch_string E n width prec pad args h0
    cases hk : fmtLen E.mem (E.next args).1.toNat prec n 0 with
    | none =>
      rw [hk] at hlive hstatic
      exact Or.inl ⟨hlive h0, hstatic⟩
    | some len =>
      rw [hk] at hlive hstatic
      refine Or.inr (Or.inr ⟨_, _, _, hlive h0, hstatic, fun left => ?_⟩)
      rw [if_pos ⟨rfl, h0⟩]
      have hdone := fmtLen_off hoff (by decide) (fun i hi => absurd hi (by omega)) hk
      exact liveField_eq h (w := ⟨E.mem, (E.next args).1.toNat, len, false, ' '.toUInt8, width⟩)
        fun t i hi => h.mem t _ (hdone i (by dsimp only at hi; omega))
  · -- the same for both
    have hsame : fmtSwitch (e.now (V t)) n conv width prec pad args
        = fmtSwitch E n conv width prec pad args := by
      by_cases hs : conv = 's'.toUInt8
      · obtain rfl := hs
        exact fmtSwitch_null (not_not.mp fun h0 => hread ⟨rfl, h0⟩) hnow
      · exact fmtSwitch_of_ne hs hnow
    rw [hsame]
    rcases fmtSwitch E n conv width prec pad args with _ | ⟨_ | w, rest⟩
    · exact Or.inl ⟨rfl, rfl⟩
    · exact Or.inr (Or.inl ⟨rest, rfl, rfl⟩)
    · refine Or.inr (Or.inr ⟨w, w, rest, rfl, rfl, fun left => ?_⟩)
      rw [if_neg hread]
      exact liveField_eq h fun _ _ _ => rfl

/-- **Off the output the engine puts out the same.** -/
theorem liveCore_eq (h : e.Follows E V off) {f : List UInt8} {args : α}
    (hno : NoAlias E off n f args) :
    liveCore e n f (V t) args = (fmtCore E n f t args).map fun r => (V r.1, r.2) := by
  induction n generalizing f t args with
  | zero => rfl
  | succ n ih =>
    cases f with
    | nil => rfl
    | cons c f =>
      rw [liveCore, fmtCore]
      rw [NoAlias] at hno
      by_cases hc : c ≠ '%'.toUInt8
      · rw [if_pos hc] at hno
        rw [if_pos hc, if_pos hc, h.putch, ih hno]
      · rw [if_neg hc] at hno
        rw [if_neg hc, if_neg hc]
        dsimp only at hno ⊢
        generalize fmtFlags f false false = flags at hno ⊢
        generalize fmtNumber flags.2.2 0 = number at hno ⊢
        generalize fmtPrec number.2 = prec at hno ⊢
        generalize fmtModifiers prec.2 = g at hno ⊢
        generalize (if (flags.2.1 && !flags.1) = true then '0'.toUInt8 else ' '.toUInt8) = pad
          at hno ⊢
        obtain ⟨hstring, hrest⟩ := hno
        rcases live_switch_cases (t := t) h number.1 pad hstring with
          ⟨hlive, hstatic⟩ | ⟨rest, hlive, hstatic⟩ | ⟨w', w, rest, hlive, hstatic, hfield⟩
        · rw [hlive, hstatic]
          rfl
        · rw [hstatic] at hrest
          rw [hlive, hstatic]
          dsimp only
          rw [h.putch, h.putch, ← apply_ite V, ih hrest]
        · rw [hstatic] at hrest
          rw [hlive, hstatic]
          dsimp only
          rw [hfield, ih hrest]

end Follow

end Printf
