import Emu68Common.Text.Printf

/-!
# Text/Echo — a directive without a conversion is echoed

A directive whose type character is none of the language takes no cell, and what is put out for it
is a `%` and that character (`fmtCore_unknown`).  Whatever was scanned between the two is gone: so
the format comes out as it is exactly if nothing was (`unknown_echoed_iff`).

    %q  ──▸  %q          %-5.2lq  ──▸  %q          %  ──▸  %          %05  ──▸  %
-/

namespace Printf

open Machinery

variable {σ α : Type} {e : Engine σ α} {f : List UInt8} {n : ℕ}

/-! ## What is put out -/

/-- Every directive of the format has a type character that is none, or is cut off in front of
it. -/
def Unknown (f : List UInt8) : Prop := ∀ d, Piece.directive d ∈ pieces f → d.conversion = none

/-- What is put out for such a format. -/
def echo : List Piece → List UInt8
  | [] => []
  | .lit c :: ps => c :: echo ps
  | .directive d :: ps => '%'.toUInt8 :: (d.type.toList ++ echo ps)

/-- What the scan of a directive stops at. -/
def scanned (f : List UInt8) : List UInt8 :=
  (precision ((f.dropWhile isFlag).dropWhile isDigit)).2.dropWhile isModifier

/-- A numeral ends where its digits do, whether a `LONG` holds it or not. -/
theorem fmtNumber_snd (f : List UInt8) (v : ℤ) : (fmtNumber f v).2 = f.dropWhile isDigit := by
  induction f generalizing v with
  | nil => rfl
  | cons c f ih =>
    have hiff : isDigit c = true ↔ '0'.toUInt8 ≤ c ∧ c ≤ '9'.toUInt8 := by
      rw [isDigit, Bool.and_eq_true, decide_eq_true_iff, decide_eq_true_iff]
    rw [fmtNumber]
    by_cases hc : '0'.toUInt8 ≤ c ∧ c ≤ '9'.toUInt8
    · rw [if_pos hc, ih, List.dropWhile_cons_of_pos (hiff.mpr hc)]
    · rw [if_neg hc, List.dropWhile_cons_of_neg (mt hiff.mp hc)]

theorem fmtPrec_snd (f : List UInt8) : (fmtPrec f).2 = (precision f).2 := by
  cases f with
  | nil => rfl
  | cons c f =>
    rw [fmtPrec, precision]
    by_cases hc : c = '.'.toUInt8
    · rw [if_pos hc, if_pos hc, fmtNumber_snd]
    · rw [if_neg hc, if_neg hc]

/-- **One directive without a conversion**: the engine puts out `%` and its type character, if it
has one, and takes nothing. -/
theorem fmtCore_unknown (out : σ) (args : α) (hf : (0 : UInt8) ∉ f)
    (hd : (directive f).1.conversion = none) :
    fmtCore e (n + 1) ('%'.toUInt8 :: f) out args = fmtCore e n (directive f).2
      (e.puts ('%'.toUInt8 :: (directive f).1.type.toList) out) args := by
  have hg : (0 : UInt8) ∉ scanned f := fun h => hf ((scanned_suffix f).subset h)
  have htype : (directive f).1.type = (scanned f).head? := rfl
  have hrest : (directive f).2 = (scanned f).tail := rfl
  have hscan : fmtModifiers (fmtPrec (fmtNumber (f.dropWhile isFlag) 0).2).2 = scanned f := by
    rw [fmtModifiers_eq, fmtPrec_snd, fmtNumber_snd, scanned]
  rw [Directive.conversion, htype] at hd
  rw [fmtCore, if_neg (not_not.mpr rfl), fmtFlags_eq, htype, hrest]
  simp only [hscan]
  cases hs : scanned f with
  | nil => rw [fmtSwitch_none (by rfl)]; rfl
  | cons c g =>
    have hc : c ≠ 0 := fun h => hg (hs ▸ h ▸ List.mem_cons_self)
    rw [hs] at hd
    rw [List.headD_cons, fmtSwitch_none hd]
    simp only [if_pos hc]
    rfl

/-- **No directive takes a cell**, and what is put out is the echo. -/
theorem fmtCore_echo (out : σ) (args : α) (hf : (0 : UInt8) ∉ f) (hunknown : Unknown f)
    (hn : f.length < n) : fmtCore e n f out args = some (e.puts (echo (pieces f)) out, args) := by
  induction n generalizing f out with
  | zero => exact absurd hn (Nat.not_lt_zero _)
  | succ n ih =>
    cases f with
    | nil => rfl
    | cons c f =>
      have hf' : (0 : UInt8) ∉ f := fun h => hf (List.mem_cons_of_mem _ h)
      have hn' : f.length < n := Nat.lt_of_succ_lt_succ hn
      by_cases hc : c = '%'.toUInt8
      · subst hc
        rw [Unknown, pieces_directive] at hunknown
        rw [fmtCore_unknown out args hf' (hunknown _ List.mem_cons_self), pieces_directive, echo,
          ih _ (fun h => hf' ((directive_suffix f).subset h))
            (fun d hd => hunknown d (List.mem_cons_of_mem _ hd)) (length_directive.trans_lt hn')]
        rw [← List.cons_append, puts_append]
      · rw [Unknown, pieces_lit hc] at hunknown
        rw [fmtCore, if_pos hc, ih _ hf' (fun d hd => hunknown d (List.mem_cons_of_mem _ hd)) hn',
          pieces_lit hc, echo, puts_cons]

/-! ## When it is the format -/

/-- What a directive may have between its `%` and its type character. -/
def isDecoration (c : UInt8) : Bool := isFlag c || isDigit c || c == '.'.toUInt8 || isModifier c

/-- **Every `%` has its type character right behind it**, or nothing. -/
inductive Plain : List UInt8 → Prop where
  | nil : Plain []
  | lit {c : UInt8} {f : List UInt8} : c ≠ '%'.toUInt8 → Plain f → Plain (c :: f)
  | directive {f : List UInt8} : (∀ c ∈ f.head?, isDecoration c = false) → Plain (directive f).2 →
    Plain ('%'.toUInt8 :: f)

/-- **The scan passes nothing** exactly if there is nothing to pass. -/
theorem scanned_eq_self (h : ∀ c ∈ f.head?, isDecoration c = false) : scanned f = f := by
  cases f with
  | nil => rfl
  | cons c f =>
    have hc := h c rfl
    rw [isDecoration, Bool.or_eq_false_iff, Bool.or_eq_false_iff, Bool.or_eq_false_iff] at hc
    obtain ⟨⟨⟨hflag, hdigit⟩, hpoint⟩, hmod⟩ := hc
    rw [scanned, List.dropWhile_cons_of_neg (Bool.not_eq_true _ ▸ hflag),
      List.dropWhile_cons_of_neg (Bool.not_eq_true _ ▸ hdigit), precision,
      if_neg (beq_eq_false_iff_ne.mp hpoint)]
    exact List.dropWhile_cons_of_neg (Bool.not_eq_true _ ▸ hmod)

theorem scanned_length_lt {c : UInt8} (h : isDecoration c = true) :
    (scanned (c :: f)).length < (c :: f).length := by
  rw [List.length_cons]
  refine Nat.lt_succ_of_le ?_
  by_cases hflag : isFlag c = true
  · have hskip : scanned (c :: f) = scanned f := by
      rw [scanned, List.dropWhile_cons_of_pos hflag, scanned]
    exact hskip ▸ (scanned_suffix f).length_le
  rw [scanned, List.dropWhile_cons_of_neg hflag]
  by_cases hdigit : isDigit c = true
  · rw [List.dropWhile_cons_of_pos hdigit]
    exact ((List.dropWhile_suffix _).trans
      ((precision_suffix _).trans (List.dropWhile_suffix _))).length_le
  rw [List.dropWhile_cons_of_neg hdigit, precision]
  by_cases hpoint : c = '.'.toUInt8
  · rw [if_pos hpoint]
    exact ((List.dropWhile_suffix _).trans (List.dropWhile_suffix _)).length_le
  rw [if_neg hpoint]
  have hmod : isModifier c = true := by
    rw [isDecoration, Bool.eq_false_of_not_eq_true hflag, Bool.eq_false_of_not_eq_true hdigit,
      beq_eq_false_iff_ne.mpr hpoint] at h
    exact h
  rw [List.dropWhile_cons_of_pos hmod]
  exact (List.dropWhile_suffix _).length_le

/-- What a directive without decoration leaves is what its type character does. -/
theorem type_append_rest (h : ∀ c ∈ f.head?, isDecoration c = false) :
    (directive f).1.type.toList ++ (directive f).2 = f := by
  have htype : (directive f).1.type = (scanned f).head? := rfl
  have hrest : (directive f).2 = (scanned f).tail := rfl
  rw [htype, hrest, scanned_eq_self h]
  cases f <;> rfl

/-- The echo of a directive is no longer than it. -/
theorem type_append_length (f : List UInt8) :
    (directive f).1.type.toList.length + (directive f).2.length = (scanned f).length := by
  have htype : (directive f).1.type = (scanned f).head? := rfl
  have hrest : (directive f).2 = (scanned f).tail := rfl
  rw [htype, hrest]
  cases scanned f with
  | nil => rfl
  | cons c g => exact Nat.add_comm 1 g.length

theorem length_echo (f : List UInt8) : (echo (pieces f)).length ≤ f.length := by
  induction hlen : f.length using Nat.strong_induction_on generalizing f with
  | _ n ih =>
    subst hlen
    cases f with
    | nil => exact le_rfl
    | cons c f =>
      by_cases hc : c = '%'.toUInt8
      · subst hc
        rw [pieces_directive, echo, List.length_cons, List.length_cons, List.length_append]
        have hle := ih _ (Nat.lt_succ_of_le length_directive) (directive f).2 rfl
        have hsum := type_append_length f
        have hsuffix := (scanned_suffix f).length_le
        rw [← scanned] at hsuffix
        omega
      · rw [pieces_lit hc, echo, List.length_cons, List.length_cons]
        exact Nat.succ_le_succ (ih _ (Nat.lt_succ_self _) f rfl)

/-- **The echo is the format exactly if nothing was scanned between a `%` and its type.** -/
theorem echo_eq_iff (f : List UInt8) : echo (pieces f) = f ↔ Plain f := by
  induction hlen : f.length using Nat.strong_induction_on generalizing f with
  | _ n ih =>
    subst hlen
    cases f with
    | nil => exact iff_of_true rfl .nil
    | cons c f =>
      by_cases hc : c = '%'.toUInt8
      · subst hc
        have ih' := ih _ (Nat.lt_succ_of_le length_directive) (directive f).2 rfl
        rw [pieces_directive, echo, List.cons_inj_right]
        by_cases hbare : ∀ c ∈ f.head?, isDecoration c = false
        · have hiff : (directive f).1.type.toList ++ echo (pieces (directive f).2) = f ↔
              echo (pieces (directive f).2) = (directive f).2 := by
            constructor
            · exact fun h => List.append_cancel_left (h.trans (type_append_rest hbare).symm)
            · exact fun h => h.symm ▸ type_append_rest hbare
          rw [hiff, ih']
          constructor
          · exact .directive hbare
          · intro h
            cases h with
            | lit hne _ => exact absurd rfl hne
            | directive _ hrest => exact hrest
        · refine iff_of_false (fun heq => ?_) fun h => ?_
          · have hlt : (scanned f).length < f.length := by
              cases f with
              | nil => exact absurd nofun hbare
              | cons d g =>
                refine scanned_length_lt ?_
                by_contra hd
                refine hbare fun c hc => ?_
                rw [← Option.some.inj hc]
                exact Bool.not_eq_true _ ▸ hd
            have hle := length_echo (directive f).2
            have hsum := type_append_length f
            have hlen := congrArg List.length heq
            rw [List.length_append] at hlen
            omega
          · cases h with
            | lit hne _ => exact absurd rfl hne
            | directive hbare' _ => exact hbare hbare'
      · rw [pieces_lit hc, echo, List.cons_inj_right, ih _ (Nat.lt_succ_self _) f rfl]
        constructor
        · exact .lit hc
        · intro h
          cases h with
          | lit _ hf => exact hf
          | directive _ _ => exact absurd rfl hc

/-- An engine that writes down what it is handed. -/
def writer (next : α → BitVec 32 × α) (mem : Block) : Engine (List UInt8) α where
  putch c out := out ++ [c]
  next := next
  mem := mem

theorem puts_writer (next : α → BitVec 32 × α) (mem : Block) (l out : List UInt8) :
    (writer next mem).puts l out = out ++ l := by
  induction l generalizing out with
  | nil => exact (List.append_nil out).symm
  | cons c l ih => rw [puts_cons, ih, writer, List.append_assoc, List.singleton_append]

/-- **Bad specifiers are echoed literally exactly if they are bare.**  A format whose every
directive has an unknown type character, or none, takes no cell; it comes out as it is exactly if no
directive has a flag, digit, point or modifier. -/
theorem unknown_echoed_iff (next : α → BitVec 32 × α) (mem : Block) (format : CString)
    (args : α) (hunknown : Unknown format.bytes) (hn : format.bytes.length < n) :
    ∃ out, fmtCore (writer next mem) n format.bytes [] args = some (out, args) ∧
      (out = format.bytes ↔ Plain format.bytes) := by
  refine ⟨echo (pieces format.bytes), ?_, echo_eq_iff format.bytes⟩
  rw [fmtCore_echo [] args format.nul_free hunknown hn, puts_writer, List.nil_append]

/-- **`"%5q"` comes out as `"%q"`.** -/
theorem unknown_not_echoed : Unknown ("%5q".toList.map Char.toUInt8) ∧
    fmtCore (writer (fun c : BitVec 32 => (c, c)) fun _ => 0) 4 ("%5q".toList.map Char.toUInt8)
      [] 7 = some ("%q".toList.map Char.toUInt8, 7) ∧
    "%q".toList.map Char.toUInt8 ≠ "%5q".toList.map Char.toUInt8 := by
  refine ⟨?_, by decide, by decide⟩
  have hpieces : pieces ("%5q".toList.map Char.toUInt8)
      = [.directive ⟨false, false, 5, none, some 0x71⟩] := by decide
  intro d hd
  rw [hpieces, List.mem_singleton] at hd
  obtain rfl := Piece.directive.inj hd
  decide

theorem unknown_echoed_iff_cut : fmtCore (writer (fun c : BitVec 32 => (c, c)) fun _ => 0) 4
    ("q%".toList.map Char.toUInt8) [] 7 = some ("q%".toList.map Char.toUInt8, 7) := by
  have hpieces : pieces ("q%".toList.map Char.toUInt8)
      = [.lit 0x71, .directive ⟨false, false, 0, none, none⟩] := by decide
  have hunknown : Unknown ("q%".toList.map Char.toUInt8) := fun d hd => by
    rw [hpieces, List.mem_cons, List.mem_singleton] at hd
    obtain rfl := Piece.directive.inj (hd.resolve_left nofun)
    decide
  obtain ⟨out, heq, hiff⟩ := unknown_echoed_iff (n := 4) (fun c : BitVec 32 => (c, c)) (fun _ => 0)
    ⟨"q%".toList.map Char.toUInt8, by decide⟩ 7 hunknown (by decide)
  rw [heq, hiff.mpr (.lit (by decide) (.directive nofun .nil))]

end Printf
