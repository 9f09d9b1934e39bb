import Emu68Common.Machinery.Guarded
import Emu68Common.Text.Bounded
import Emu68Common.Tools.CheckOurs

/-!
# Tools/Memcheck — `memcheck`, and the buffers it works in

Every check of `memcheck` fills a window of `work` from `pattern`, has `memmove` move some of it,
and compares the window with a plain byte copy.  One check tells exactly whether the window came out
right, as long as the window lies in the buffers (`check_move_exact`).  The long moves do not: the
buffers are laid out for twice the longest move, and a move up by its own length takes three times
that.  So no run of the command comes to its end inside its buffers (`main_never_holds`).

    0 ─────── SRC_OFFSET ── dst ═════════ dst + n ── ROOM          n + gap short
    0 ─────── SRC_OFFSET ────────── dst ═════ ROOM ═════ dst + n    n = 65535, gap = 1 - n
-/

namespace Memcheck

open Machinery Printf Printf.Guarded CheckOurs

/-! ## The source -/

def LENGTH_MAX : ℕ := 300

def GAP_MAX : ℕ := 140

def LONG_MOVE_MAX : ℕ := 100000

def GUARD : ℕ := 16

def ROOM : ℕ := LONG_MOVE_MAX * 2 + 4096

def ALIGNMENTS : ℕ := 4

/-- `ROOM / 2u & ~63u` -/
def SRC_OFFSET : ℕ := (BitVec.ofNat 32 (ROOM / 2) &&& ~~~63#32).toNat

/-- `(ULONG)`. -/
def ulong (z : ℤ) : ℕ := (z % 2 ^ 32).toNat

/-- The two buffers, how many moves were made, and what was printed: formats and their arguments. -/
structure State where
  pattern : Block
  work : Block
  moves : ℕ
  printed : List (String × List ℤ)

/-- **What is checked**: what `memmove` makes of `work`, and where in it its result points. -/
abbrev Move : Type := Block → ℕ → ℕ → ℕ → Option (Block × ℤ)

/-- `regs_call`: `memmove` with these registers set, and what they are then. -/
abbrev RegsCall : Type := List ℕ → Block → ℕ → ℕ → ℕ → Option (Block × List ℕ)

/-- `pattern_fill`, over so many bytes. -/
def patternFill : ℕ → ℕ → BitVec 32 → Block → Option Block
  | _, 0, _, pattern => return pattern
  | i, k + 1, x, pattern => do
    let x := x * 1664525 + 1013904223
    let pattern ← pattern.poke 0 (ROOM - 1) i (UInt8.ofNat (x >>> 24).toNat)
    patternFill (i + 1) k x pattern

/-- `for (ULONG i = low; i < high; i++) work[i] = pattern[i];` -/
def fill (pattern : Block) : ℕ → ℕ → Block → Option Block
  | _, 0, work => return work
  | i, k + 1, work => do
    let c ← pattern.peek 0 (ROOM - 1) i
    let work ← work.poke 0 (ROOM - 1) i c
    fill pattern (i + 1) k work

/-- `moved ? pattern[(ULONG)((LONG)i + gap)] : pattern[i]` -/
def want (pattern : Block) (n : ℕ) (gap : ℤ) (dst i : ℕ) : Option UInt8 :=
  if dst ≤ i ∧ i < ulong (dst + n) then do
    let there ← exact (long i + gap)
    pattern.peek 0 (ROOM - 1) (ulong there)
  else pattern.peek 0 (ROOM - 1) i

/-- The comparison, over so many bytes from `i` on: what it prints, if a byte is wrong. -/
def differs (pattern work : Block) (n : ℕ) (gap : ℤ) (align dst : ℕ) :
    ℕ → ℕ → Option (Option (String × List ℤ))
  | _, 0 => return none
  | i, k + 1 => do
    let want ← want pattern n gap dst i
    let c ← work.peek 0 (ROOM - 1) i
    if c ≠ want then
      return some ("%lu bytes, gap %ld, align %lu: byte %ld of dst is %lx, not %lx\n",
        [n, gap, align, long i - long dst, c.toNat, want.toNat])
    differs pattern work n gap align dst (i + 1) k

/-- **`check_move(n, gap, align)`**; nothing, if it leaves the buffers. -/
def checkMove (move : Move) (n : ℕ) (gap : ℤ) (align : ℕ) (s : State) :
    Option (Bool × State) := do
  let src := ulong (SRC_OFFSET + align)
  let dst ← (exact (long src - gap)).map ulong
  let low := ulong ((if dst < src then dst else src) - GUARD)
  let high := ulong ((if dst > src then dst else src) + n + GUARD)
  let work ← fill s.pattern low (high - low) s.work
  let (work, result) ← move work dst src n
  let s := { s with work := work, moves := (s.moves + 1) % 2 ^ 32 }
  if result ≠ dst then
    let line := ("%lu bytes, gap %ld, align %lu: returned the wrong address\n",
      [(n : ℤ), gap, align])
    return (false, { s with printed := s.printed ++ [line] })
  match ← differs s.pattern work n gap align dst low (high - low) with
  | some line => return (false, { s with printed := s.printed ++ [line] })
  | none => return (true, s)

/-- `for (…) if (!check(…)) return FALSE;` -/
def each {α : Type} (check : α → State → Option (Bool × State)) :
    List α → State → Option (Bool × State)
  | [], s => return (true, s)
  | a :: l, s => do
    let (held, s) ← check a s
    if held then each check l s else return (false, s)

/-- `check_short`. -/
def checkShort (move : Move) : State → Option (Bool × State) :=
  each (fun align => each
    (fun n => each (fun gap : ℕ => checkMove move n ((gap : ℤ) - GAP_MAX) align)
    (List.range (2 * GAP_MAX + 1))) (List.range (LENGTH_MAX + 1))) (List.range ALIGNMENTS)

/-- `lengths` of `check_long`. -/
def lengths : List ℕ :=
  [1023, 1024, 1025, 4092, 4095, 4096, 4097, 65535, 65536, 65537, LONG_MOVE_MAX]

/-- `gaps` of `check_long`. -/
def gaps : List ℤ := [1, 2, 3, 4, 5, 31, 32, 33, 52, 53, 54, 55, 63, 64, 65, 4096]

/-- The gaps in the order they are tried. -/
def gapsOf (n : ℤ) : List ℤ := [n - 1, n, 1 - n, -n] ++ gaps.flatMap fun gap => [gap, -gap]

/-- `check_long`. -/
def checkLong (move : Move) : State → Option (Bool × State) :=
  each (fun n : ℕ => each (fun align => each (fun gap => checkMove move n gap align) (gapsOf n))
    (List.range ALIGNMENTS)) lengths

/-- `ways` of `check_registers`: a length and a gap. -/
def ways : List (ℕ × ℤ) :=
  [(0, 0), (3, 1), (3, -1), (40, 8), (40, -8), (200, 9), (200, -9), (200, 300), (40, 300)]

/-- `in` of `check_registers`. -/
def registers : List ℕ :=
  [0x20202020, 0x31313131, 0x42424242, 0x53535353, 0x64646464, 0x75757575, 0x86868686, 0x97979797,
    0xA8A8A8A8, 0xB9B9B9B9, 0xCACACACA]

/-- `check_registers`. -/
def checkRegisters (regsCall : RegsCall) : State → Option (Bool × State) :=
  each (fun way s => do
    let dst ← (exact (long SRC_OFFSET - way.2)).map ulong
    let (work, out) ← regsCall registers s.work dst SRC_OFFSET way.1
    let s := { s with work := work }
    match (List.range registers.length).find? fun r => out.getD r 0 ≠ registers.getD r 0 with
    | some r =>
      let line := ("%lu bytes, gap %ld: register %lu of d2-d7/a2-a6 not kept\n",
        [(way.1 : ℤ), way.2, (r : ℤ)])
      return (false, { s with printed := s.printed ++ [line] })
    | none => return (true, s)) ways

/-- **`main`**: the return code. -/
def main (move : Move) (regsCall : RegsCall) (s : State) : Option (ℕ × State) := do
  let pattern ← patternFill 0 ROOM 0x12345678 s.pattern
  let s := { s with pattern := pattern }
  let (held, s) ← checkRegisters regsCall s
  if !held then return (RETURN_ERROR, s)
  let (held, s) ← checkShort move s
  if !held then return (RETURN_ERROR, s)
  let (held, s) ← checkLong move s
  if !held then return (RETURN_ERROR, s)
  return (RETURN_OK, { s with printed := s.printed ++ [("%lu moves held\n", [(s.moves : ℤ)])] })

/-! ## Loops over the buffers -/

variable {pattern work : Block} {i j k n align : ℕ} {gap : ℤ} {s s' : State} {move : Move}

theorem peek_room (b : Block) (h : i < ROOM) : b.peek 0 (ROOM - 1) i = some (b i) :=
  Block.peek_eq (Nat.zero_le i) (Nat.le_sub_one_of_lt h)

theorem peek_off (b : Block) (h : ROOM ≤ i) : b.peek 0 (ROOM - 1) i = none :=
  if_neg fun hin => absurd (hin.2.trans_lt (Nat.sub_one_lt (by decide : ROOM ≠ 0)))
    (Nat.not_lt_of_le h)

/-- What the window is filled with. -/
def filled (pattern work : Block) (i k : ℕ) : Block :=
  fun j => if i ≤ j ∧ j < i + k then pattern j else work j

theorem fill_eq (h : i + k ≤ ROOM) : fill pattern i k work = some (filled pattern work i k) := by
  induction k generalizing i work with
  | zero =>
    refine congrArg some (funext fun j => ?_)
    rw [filled, if_neg fun hj => by omega]
  | succ k ih =>
    have hi : i < ROOM := by omega
    rw [fill, peek_room pattern hi, Option.bind_eq_bind, Option.bind_some,
      Block.poke_eq (Nat.zero_le i) (Nat.le_sub_one_of_lt hi), Option.bind_eq_bind,
      Option.bind_some, ih (by omega)]
    refine congrArg some (funext fun j => ?_)
    rw [filled, filled]
    by_cases hj : j = i
    · subst hj
      rw [if_neg (by omega), if_pos (by omega), Function.update_self]
    · rw [Function.update_of_ne hj]
      exact if_congr (by omega) rfl rfl

/-- **A window that does not end in the buffers cannot be filled.** -/
theorem fill_none (hk : 0 < k) (h : ROOM < i + k) : fill pattern i k work = none := by
  induction k generalizing i work with
  | zero => exact absurd hk (Nat.lt_irrefl 0)
  | succ k ih =>
    rw [fill]
    by_cases hi : i < ROOM
    · rw [peek_room pattern hi, Option.bind_eq_bind, Option.bind_some,
        Block.poke_eq (Nat.zero_le i) (Nat.le_sub_one_of_lt hi), Option.bind_eq_bind,
        Option.bind_some, ih (by omega) (by omega)]
    · rw [peek_off pattern (Nat.le_of_not_lt hi)]
      rfl

theorem ulong_natCast (h : n < 2 ^ 32) : ulong n = n := by
  rw [ulong]
  omega

/-! ## One check -/

/-- Where the source of a check starts. -/
def srcOf (align : ℕ) : ℕ := SRC_OFFSET + align

/-- Where its destination does. -/
def dstOf (gap : ℤ) (align : ℕ) : ℕ := ((srcOf align : ℤ) - gap).toNat

/-- Where its window starts. -/
def lowOf (gap : ℤ) (align : ℕ) : ℕ := min (srcOf align) (dstOf gap align) - GUARD

/-- Where its window ends. -/
def highOf (n : ℕ) (gap : ℤ) (align : ℕ) : ℕ := max (srcOf align) (dstOf gap align) + n + GUARD

/-- **The checks that are made**, as far as their bounds go. -/
structure Called (n : ℕ) (gap : ℤ) (align : ℕ) : Prop where
  length : n ≤ LONG_MOVE_MAX
  above : -LONG_MOVE_MAX ≤ gap
  below : gap ≤ LONG_MOVE_MAX
  align : align < ALIGNMENTS

/-- **The window of a check lies in the buffers.** -/
def Fits (n : ℕ) (gap : ℤ) (align : ℕ) : Prop := highOf n gap align ≤ ROOM

instance (n : ℕ) (gap : ℤ) (align : ℕ) : Decidable (Fits n gap align) :=
  inferInstanceAs (Decidable (_ ≤ _))

/-- The bounds of a window. -/
theorem Called.bounds (h : Called n gap align) : (dstOf gap align : ℤ) = srcOf align - gap ∧
    GUARD ≤ lowOf gap align + GUARD ∧ lowOf gap align + GUARD ≤ srcOf align ∧
    lowOf gap align + GUARD ≤ dstOf gap align ∧ srcOf align + n + GUARD ≤ highOf n gap align ∧
    dstOf gap align + n + GUARD ≤ highOf n gap align ∧ highOf n gap align < 2 ^ 31 := by
  have hsrc : srcOf align = 102016 + align := rfl
  have hmax : LONG_MOVE_MAX = 100000 := rfl
  have hfour : ALIGNMENTS = 4 := rfl
  obtain ⟨h₁, h₂, h₃, h₄⟩ := h
  rw [lowOf, highOf, dstOf, GUARD]
  omega

/-- A check without the casts. -/
theorem checkMove_eq (h : Called n gap align) : checkMove move n gap align s = do
    let work ← fill s.pattern (lowOf gap align) (highOf n gap align - lowOf gap align) s.work
    let (work, result) ← move work (dstOf gap align) (srcOf align) n
    let s := { s with work := work, moves := (s.moves + 1) % 2 ^ 32 }
    if result ≠ dstOf gap align then
      let line := ("%lu bytes, gap %ld, align %lu: returned the wrong address\n",
        [(n : ℤ), gap, align])
      return (false, { s with printed := s.printed ++ [line] })
    match ← differs s.pattern work n gap align (dstOf gap align) (lowOf gap align)
      (highOf n gap align - lowOf gap align) with
    | some line => return (false, { s with printed := s.printed ++ [line] })
    | none => return (true, s) := by
  obtain ⟨hdst, -, hlow, hlow', hhigh, hhigh', hroom⟩ := h.bounds
  have hsrc : ulong ((SRC_OFFSET : ℤ) + align) = srcOf align :=
    ulong_natCast (n := SRC_OFFSET + align) (by rw [srcOf] at hhigh; omega)
  have hgap : (exact (long (srcOf align) - gap)).map ulong = some (dstOf gap align) := by
    rw [long_eq (by omega) (by omega), ← hdst, exact_eq (by omega) (by omega), Option.map_some,
      ulong_natCast (by omega)]
  have hwindow : ulong (((if dstOf gap align < srcOf align then dstOf gap align else srcOf align :
      ℕ) : ℤ) - GUARD) = lowOf gap align := by
    rw [lowOf, ulong]
    split <;> omega
  have hend : ulong (((if dstOf gap align > srcOf align then dstOf gap align else srcOf align :
      ℕ) : ℤ) + n + GUARD) = highOf n gap align := by
    rw [highOf, ulong]
    rw [highOf] at hroom
    split <;> omega
  rw [checkMove]
  simp only [hsrc, hgap, hwindow, hend, Option.bind_eq_bind, Option.bind_some]

/-- **A check beyond the buffers** writes outside of them before it moves anything. -/
theorem checkMove_none (h : Called n gap align) (hfits : ¬ Fits n gap align) :
    checkMove move n gap align s = none := by
  obtain ⟨-, -, hlow, -, hhigh, -, -⟩ := h.bounds
  have hguard : GUARD = 16 := rfl
  rw [checkMove_eq h, fill_none (by omega) (by rw [Fits] at hfits; omega)]
  rfl

/-- What a byte of the window should be: the pattern's, or that of its source. -/
def wanted (pattern : Block) (gap : ℤ) (dst n : ℕ) (i : ℕ) : UInt8 :=
  if dst ≤ i ∧ i < dst + n then pattern ((i : ℤ) + gap).toNat else pattern i

/-- **The comparison finds a wrong byte exactly if there is one.** -/
theorem differs_spec (pattern work : Block) (gap : ℤ) (align : ℕ) {dst : ℕ} (hend : i + k ≤ ROOM)
    (hdst : dst + n < 2 ^ 31)
    (hsrc : ∀ j, i ≤ j → j < i + k → dst ≤ j → j < dst + n → 0 ≤ (j : ℤ) + gap ∧
      (j : ℤ) + gap < ROOM) :
    ∃ r, differs pattern work n gap align dst i k = some r ∧
      (r = none ↔ ∀ j, i ≤ j → j < i + k → work j = wanted pattern gap dst n j) := by
  induction k generalizing i with
  | zero => exact ⟨none, rfl, iff_of_true rfl fun j hj hj' => absurd hj' (by omega)⟩
  | succ k ih =>
    have hi : i < ROOM := by omega
    have hroom : ROOM = 204096 := rfl
    have hwant : want pattern n gap dst i = some (wanted pattern gap dst n i) := by
      rw [want, wanted, ← Nat.cast_add, ulong_natCast (by omega)]
      split
      case isFalse => exact peek_room pattern hi
      case isTrue hin =>
        obtain ⟨hge, hlt⟩ := hsrc i le_rfl (by omega) hin.1 hin.2
        have hulong : ulong ((i : ℤ) + gap) = ((i : ℤ) + gap).toNat := by
          rw [ulong]
          omega
        rw [long_eq (by omega) (by omega), exact_eq (by omega) (by omega), Option.bind_eq_bind,
          Option.bind_some, hulong, peek_room pattern (by omega)]
    rw [differs]
    simp only [hwant, Option.bind_eq_bind, Option.bind_some, peek_room work hi]
    by_cases hc : work i = wanted pattern gap dst n i
    · obtain ⟨r, hr, hiff⟩ :=
        ih (i := i + 1) (by omega) fun j hj hj' => hsrc j (by omega) (by omega)
      refine ⟨r, (if_neg (not_not.mpr hc)).trans hr,
        hiff.trans ⟨fun h j hj hj' => ?_, fun h j hj hj' =>
        h j (by omega) (by omega)⟩⟩
      rcases Nat.eq_or_lt_of_le hj with rfl | hlt
      · exact hc
      · exact h j hlt (by omega)
    · refine ⟨some _, if_pos hc, iff_of_false (Option.some_ne_none _) fun h => ?_⟩
      exact hc (h i le_rfl (by omega))

/-- **A byte copy**, plainly: every byte of the destination is the one its source had. -/
def copied (w : Block) (dst src n : ℕ) : Block :=
  fun i => if dst ≤ i ∧ i < dst + n then w (src + (i - dst)) else w i

/-- The memory of a check when it calls `memmove`. -/
def prepared (s : State) (n : ℕ) (gap : ℤ) (align : ℕ) : Block :=
  filled s.pattern s.work (lowOf gap align) (highOf n gap align - lowOf gap align)

/-- **What a check leaves**, and when it holds. -/
structure Judged (n : ℕ) (gap : ℤ) (align : ℕ) (s : State) (w : Block) (r : ℤ) (held : Bool)
    (s' : State) : Prop where
  held_iff : held = true ↔ r = dstOf gap align ∧ ∀ i, lowOf gap align ≤ i → i < highOf n gap align →
    w i = copied (prepared s n gap align) (dstOf gap align) (srcOf align) n i
  work : s'.work = w
  pattern : s'.pattern = s.pattern
  moves : s'.moves = (s.moves + 1) % 2 ^ 32
  printed : ∃ lines, s'.printed = s.printed ++ lines ∧ lines.length = if held then 0 else 1

/-- The window is what the source of the move is filled from. -/
theorem copied_prepared (h : Called n gap align) (hi : lowOf gap align ≤ i)
    (hi' : i < highOf n gap align) : copied (prepared s n gap align) (dstOf gap align) (srcOf align)
      n i = wanted s.pattern gap (dstOf gap align) n i := by
  obtain ⟨hdst, -, hlow, hlow', hhigh, hhigh', -⟩ := h.bounds
  rw [copied, wanted]
  split
  case isTrue hin =>
    have hoff : srcOf align + (i - dstOf gap align) = ((i : ℤ) + gap).toNat := by omega
    rw [prepared, filled, if_pos (by omega), hoff]
  case isFalse => rw [prepared, filled, if_pos (by omega)]

/-- **A check inside the buffers.** -/
theorem checkMove_fits (move : Move) (s : State) (h : Called n gap align)
    (hfits : Fits n gap align) :
    (move (prepared s n gap align) (dstOf gap align) (srcOf align) n = none ∧
      checkMove move n gap align s = none) ∨
    ∃ w r held s', move (prepared s n gap align) (dstOf gap align) (srcOf align) n = some (w, r) ∧
      checkMove move n gap align s = some (held, s') ∧ Judged n gap align s w r held s' := by
  obtain ⟨hdst, -, hlow, hlow', hhigh, hhigh', hroom⟩ := h.bounds
  rw [Fits] at hfits
  rw [checkMove_eq h, fill_eq (by omega), ← prepared]
  rcases hmove : move (prepared s n gap align) (dstOf gap align) (srcOf align) n with _ | ⟨w, r⟩
  · refine .inl ⟨rfl, ?_⟩
    rw [Option.bind_eq_bind, Option.bind_some, hmove]
    rfl
  · refine .inr ⟨w, r, ?_⟩
    simp only [Option.bind_eq_bind, Option.bind_some, hmove]
    by_cases hr : r = dstOf gap align
    · have hend : lowOf gap align + (highOf n gap align - lowOf gap align) ≤ ROOM := by omega
      have hlast : dstOf gap align + n < 2 ^ 31 := by omega
      obtain ⟨d, hd, hnone⟩ := differs_spec s.pattern w gap align hend hlast
        fun j hj hj' hdj hdj' => by omega
      have hwindow : (∀ i, lowOf gap align ≤ i → i < highOf n gap align →
          w i = copied (prepared s n gap align) (dstOf gap align) (srcOf align) n i) ↔
            d = none := by
        rw [hnone]
        refine forall_congr' fun j => forall_congr' fun hj => ?_
        rw [show lowOf gap align + (highOf n gap align - lowOf gap align) = highOf n gap align by
          omega]
        exact forall_congr' fun hj' => by rw [copied_prepared h hj hj']
      rw [if_neg (not_not.mpr hr), hd, Option.bind_some]
      cases d with
      | none => exact ⟨true, _, trivial, rfl, iff_of_true rfl ⟨hr, hwindow.mpr rfl⟩, rfl, rfl,
        rfl, [],
          (List.append_nil _).symm, rfl⟩
      | some line =>
        refine ⟨false, _, trivial, rfl, iff_of_false Bool.false_ne_true fun hw => ?_, rfl, rfl, rfl,
          [line], rfl, rfl⟩
        exact Option.some_ne_none line (hwindow.mp hw.2)
    · rw [if_pos hr]
      exact ⟨false, _, trivial, rfl, iff_of_false Bool.false_ne_true fun hw => hr hw.1, rfl,
        rfl, rfl,
        [_], rfl, rfl⟩

/-- **One check tells exactly whether the window came out right.**  For the lengths, gaps and
alignments that are tried: a check whose window is not in the buffers leaves them; any other comes
to an end exactly if `memmove` does, and holds exactly if that returned the destination and left the
window as a byte copy would; only then is nothing printed. -/
theorem check_move_exact (move : Move) (s : State) (h : Called n gap align) :
    (¬ Fits n gap align → checkMove move n gap align s = none) ∧
    (Fits n gap align →
      (checkMove move n gap align s = none ↔
        move (prepared s n gap align) (dstOf gap align) (srcOf align) n = none) ∧
      ∀ held s', checkMove move n gap align s = some (held, s') → ∃ w r,
        move (prepared s n gap align) (dstOf gap align) (srcOf align) n = some (w, r) ∧
          Judged n gap align s w r held s') := by
  refine ⟨checkMove_none h, fun hfits => ?_⟩
  rcases checkMove_fits move s h hfits with
    ⟨hmove, hnone⟩ | ⟨w, r, held, s', hmove, hcheck, hjudged⟩
  · exact ⟨iff_of_true hnone hmove, fun held s' hsome => by rw [hnone] at hsome; cases hsome⟩
  · refine ⟨iff_of_false ?_ ?_, fun held' s'' hsome => ?_⟩
    · rw [hcheck]
      exact Option.some_ne_none _
    · rw [hmove]
      exact Option.some_ne_none _
    · rw [hcheck, Option.some_inj, Prod.mk.injEq] at hsome
      obtain ⟨rfl, rfl⟩ := hsome
      exact ⟨w, r, hmove, hjudged⟩

/-- A `memmove` that forgets the last byte. -/
def shortMove : Move := fun w dst src n => some (copied w dst src (n - 1), dst)

/-- The buffers before the command runs. -/
def blank : State := ⟨fun i => UInt8.ofNat i, fun _ => 0, 0, []⟩

/-- It is caught: the byte it forgets is not the one it should be. -/
theorem check_move_exact_short : (checkMove shortMove 1 1 0 blank).map Prod.fst = some false := by
  obtain ⟨hends, hjudged⟩ := (check_move_exact shortMove blank
    (⟨by decide, by decide, by decide, by decide⟩ : Called 1 1 0)).2 (by decide)
  obtain ⟨⟨held, s'⟩, hcheck⟩ := Option.ne_none_iff_exists'.mp fun h =>
    Option.some_ne_none _ (hends.mp h)
  obtain ⟨w, r, hmove, hheld⟩ := hjudged held s' hcheck
  obtain ⟨rfl, -⟩ := Prod.mk.inj (Option.some.inj hmove)
  rw [hcheck, Option.map_some]
  refine congrArg some (Bool.eq_false_iff.mpr fun h => ?_)
  have hbyte := (hheld.held_iff.mp h).2 (dstOf 1 0) (by decide) (by decide)
  exact absurd hbyte (by decide)

/-! ## Checks in a row -/

section Each

variable {α : Type} {check : α → State → Option (Bool × State)} {l u v : List α} {a : α}

/-- Checks that all hold. -/
theorem each_holds (h : ∀ a ∈ l, ∀ s, ∃ s', check a s = some (true, s')) (s : State) :
    ∃ s', each check l s = some (true, s') := by
  induction l generalizing s with
  | nil => exact ⟨s, rfl⟩
  | cons a l ih =>
    obtain ⟨s₁, hs₁⟩ := h a List.mem_cons_self s
    obtain ⟨s₂, hs₂⟩ := ih (fun b hb => h b (List.mem_cons_of_mem a hb)) s₁
    refine ⟨s₂, ?_⟩
    rw [each, hs₁]
    exact hs₂

/-- **All hold only if each one did.** -/
theorem of_each (h : each check l s = some (true, s')) (ha : a ∈ l) :
    ∃ s₁ s₂, check a s₁ = some (true, s₂) := by
  induction l generalizing s with
  | nil => exact absurd ha List.not_mem_nil
  | cons b l ih =>
    rw [each] at h
    obtain ⟨⟨held, s₁⟩, hs₁, h⟩ := Option.bind_eq_some_iff.mp h
    cases held with
    | false => cases h
    | true =>
      rcases List.mem_cons.mp ha with rfl | ha
      · exact ⟨s, s₁, hs₁⟩
      · exact ih h ha

/-- A check that does not come to an end, behind some that hold. -/
theorem each_stuck (hu : ∀ a ∈ u, ∀ s, ∃ s', check a s = some (true, s'))
    (ha : ∀ s, check a s = none) (s : State) : each check (u ++ a :: v) s = none := by
  induction u generalizing s with
  | nil =>
    rw [List.nil_append, each, ha]
    rfl
  | cons b u ih =>
    obtain ⟨s₁, hs₁⟩ := hu b List.mem_cons_self s
    rw [List.cons_append, each, hs₁]
    exact ih (fun c hc => hu c (List.mem_cons_of_mem b hc)) s₁

end Each

/-! ## The command -/

/-- **A `memmove` that copies**, as long as it is asked for bytes of `work`. -/
def Copies (move : Move) : Prop := ∀ w dst src n, dst + n ≤ ROOM → src + n ≤ ROOM →
  move w dst src n = some (copied w dst src n, (dst : ℤ))

/-- The same, with the registers it must keep. -/
def Keeps (regsCall : RegsCall) : Prop := ∀ w dst src n, dst + n ≤ ROOM → src + n ≤ ROOM →
  regsCall registers w dst src n = some (copied w dst src n, registers)

theorem checkMove_holds (hmove : Copies move) (h : Called n gap align) (hfits : Fits n gap align)
    (s : State) : ∃ s', checkMove move n gap align s = some (true, s') := by
  obtain ⟨-, -, -, -, hhigh, hhigh', -⟩ := h.bounds
  have hcopy := hmove (prepared s n gap align) (dstOf gap align) (srcOf align) n
    (by rw [Fits] at hfits; omega) (by rw [Fits] at hfits; omega)
  rcases checkMove_fits move s h hfits with
    ⟨hnone, -⟩ | ⟨w, r, held, s', hsome, hcheck, hjudged⟩
  · rw [hcopy] at hnone
    cases hnone
  · rw [hcopy, Option.some_inj, Prod.mk.injEq] at hsome
    obtain ⟨rfl, rfl⟩ := hsome
    exact ⟨s', by rw [hcheck, hjudged.held_iff.mpr ⟨rfl, fun _ _ _ => rfl⟩]⟩

/-- `pattern_fill` stays in its buffer. -/
theorem patternFill_ends (x : BitVec 32) (pattern : Block) (h : i + k ≤ ROOM) :
    ∃ pattern', patternFill i k x pattern = some pattern' := by
  induction k generalizing i x pattern with
  | zero => exact ⟨pattern, rfl⟩
  | succ k ih =>
    obtain ⟨pattern', hrest⟩ := ih (i := i + 1) (x * 1664525 + 1013904223)
      (Function.update pattern i (UInt8.ofNat ((x * 1664525 + 1013904223) >>> 24).toNat)) (by omega)
    refine ⟨pattern', ?_⟩
    rw [patternFill, Block.poke_eq (Nat.zero_le i) (Nat.le_sub_one_of_lt (by omega))]
    exact hrest

/-- The short moves are in the buffers. -/
theorem fits_of_le (hn : n ≤ 4097) (hgap : -4097 ≤ gap) (hgap' : gap ≤ 4097)
    (halign : align < ALIGNMENTS) : Called n gap align ∧ Fits n gap align := by
  have hmax : LONG_MOVE_MAX = 100000 := rfl
  have hfour : ALIGNMENTS = 4 := rfl
  have hsrc : srcOf align = 102016 + align := rfl
  have hroom : ROOM = 204096 := rfl
  have hguard : GUARD = 16 := rfl
  refine ⟨⟨by omega, by omega, by omega, halign⟩, ?_⟩
  rw [Fits, highOf, dstOf]
  omega

/-- The shortest of the long moves that do not fit. -/
def tooLong : ℕ := 65535

/-- **Its move up ends outside of them.** -/
theorem not_fits : Called tooLong (1 - tooLong) 0 ∧ ¬ Fits tooLong (1 - tooLong) 0 :=
  ⟨⟨by decide, by decide, by decide, by decide⟩, by decide⟩

/-- The gaps in front of it. -/
theorem gapsOf_eq (n : ℤ) :
    gapsOf n = [n - 1, n] ++ (1 - n) :: -n :: gaps.flatMap fun gap => [gap, -gap] := rfl

theorem checkShort_holds (hmove : Copies move) (s : State) :
    ∃ s', checkShort move s = some (true, s') := by
  refine each_holds (fun align halign => each_holds fun n hn => each_holds fun gap hgap => ?_) s
  rw [List.mem_range] at halign hn hgap
  have hlength : LENGTH_MAX = 300 := rfl
  have hmost : GAP_MAX = 140 := rfl
  obtain ⟨hcalled, hfits⟩ : Called n ((gap : ℤ) - GAP_MAX) align ∧ Fits n (gap - GAP_MAX) align :=
    fits_of_le (by omega) (by omega) (by omega) halign
  exact checkMove_holds hmove hcalled hfits

theorem checkRegisters_holds {regsCall : RegsCall} (hkeeps : Keeps regsCall) (s : State) :
    ∃ s', checkRegisters regsCall s = some (true, s') := by
  refine each_holds (fun way hway s => ?_) s
  have hways : ∀ way ∈ ways, way.1 ≤ 200 ∧ -9 ≤ way.2 ∧ way.2 ≤ 300 := by decide
  obtain ⟨hn, hlow, hhigh⟩ := hways way hway
  have hsrc : SRC_OFFSET = 102016 := rfl
  have hroom : ROOM = 204096 := rfl
  have hdst : (exact (long SRC_OFFSET - way.2)).map ulong
      = some ((SRC_OFFSET : ℤ) - way.2).toNat := by
    rw [long_eq (by omega) (by omega), exact_eq (by omega) (by omega), Option.map_some, ulong]
    exact congrArg some (by omega)
  have hcall := hkeeps s.work ((SRC_OFFSET : ℤ) - way.2).toNat SRC_OFFSET way.1 (by omega)
    (by omega)
  have hkept : (List.range registers.length).find?
      (fun r => registers.getD r 0 ≠ registers.getD r 0) = none :=
    List.find?_eq_none.mpr fun r _ hr => by simp at hr
  simp only [hdst, hcall, hkept, Option.bind_eq_bind, Option.bind_some]
  exact ⟨_, rfl⟩

/-- The lengths in front of it. -/
theorem lengths_eq : lengths
    = [1023, 1024, 1025, 4092, 4095, 4096, 4097] ++ tooLong :: [65536, 65537, LONG_MOVE_MAX] := rfl

theorem checkLong_stuck (hmove : Copies move) (s : State) : checkLong move s = none := by
  have hsmall : ∀ gap ∈ gaps.flatMap fun gap => [gap, -gap], -4097 ≤ gap ∧ gap ≤ 4097 := by decide
  rw [checkLong, lengths_eq]
  refine each_stuck (fun n hn => each_holds fun align halign => each_holds fun gap hgap => ?_)
    (fun s => ?_) s
  · have hle : ∀ n ∈ [1023, 1024, 1025, 4092, 4095, 4096, 4097], n ≤ 4097 := by decide
    have hn' := hle n hn
    have hbounds : -4097 ≤ gap ∧ gap ≤ 4097 := by
      rcases List.mem_append.mp hgap with hgap | hgap
      · simp only [List.mem_cons, List.not_mem_nil, or_false] at hgap
        omega
      · exact hsmall gap hgap
    obtain ⟨hcalled, hfits⟩ := fits_of_le hn' hbounds.1 hbounds.2 (List.mem_range.mp halign)
    exact checkMove_holds hmove hcalled hfits
  · -- at the first alignment, behind the two moves down
    have haligns : List.range ALIGNMENTS = [] ++ 0 :: [1, 2, 3] := rfl
    rw [haligns]
    refine each_stuck (fun align halign => absurd halign List.not_mem_nil) (fun s => ?_) s
    rw [gapsOf_eq]
    refine each_stuck (fun gap hgap => ?_) (fun s => ?_) s
    case refine_2 => exact checkMove_none not_fits.1 not_fits.2
    have hlong : tooLong = 65535 := rfl
    simp only [List.mem_cons, List.not_mem_nil, or_false] at hgap
    have hmax : LONG_MOVE_MAX = 100000 := rfl
    have hsrc : srcOf 0 = 102016 := rfl
    refine checkMove_holds hmove ⟨by omega, by omega, by omega, by decide⟩ ?_
    rw [Fits, highOf, dstOf, show ROOM = 204096 from rfl, show GUARD = 16 from rfl]
    omega

/-- The long moves have all held only if that one has. -/
theorem of_checkLong (h : checkLong move s = some (true, s')) :
    ∃ t t', checkMove move tooLong (1 - tooLong) 0 t = some (true, t') := by
  have hlength : tooLong ∈ lengths := by
    rw [lengths_eq]
    exact List.mem_append_right _ List.mem_cons_self
  have halign : 0 ∈ List.range ALIGNMENTS := List.mem_range.mpr (Nat.zero_lt_succ 3)
  have hgap : (1 - tooLong : ℤ) ∈ gapsOf tooLong :=
    List.mem_append_left _ (List.mem_cons_of_mem _ (List.mem_cons_of_mem _ List.mem_cons_self))
  rw [checkLong] at h
  obtain ⟨t₁, t₂, h₁⟩ := of_each h hlength
  obtain ⟨t₃, t₄, h₂⟩ := of_each h₁ halign
  obtain ⟨t₅, t₆, h₃⟩ := of_each h₂ hgap
  exact ⟨t₅, t₆, h₃⟩

/-- **No run of `memcheck` comes to its end inside its buffers.**  Whatever `memmove` does, the
command does not return RETURN_OK; with one that copies right and keeps its registers, the checks of
the registers and of the short moves hold, and the check of the long moves leaves the buffers. -/
theorem main_never_holds : (∀ move regsCall s rc s',
      main move regsCall s = some (rc, s') → rc = RETURN_ERROR) ∧
    ∀ move regsCall, Copies move → Keeps regsCall → ∀ s,
      (∃ s', checkRegisters regsCall s = some (true, s')) ∧
      (∃ s', checkShort move s = some (true, s')) ∧
      checkLong move s = none ∧ main move regsCall s = none := by
  constructor
  · intro move regsCall s rc s' h
    rw [main] at h
    obtain ⟨pattern, -, h⟩ := Option.bind_eq_some_iff.mp h
    obtain ⟨⟨held₁, s₁⟩, -, h⟩ := Option.bind_eq_some_iff.mp h
    cases held₁ with
    | false => exact (congrArg Prod.fst (Option.some.inj h)).symm
    | true =>
      simp only [Bool.not_true, Bool.false_eq_true, if_false] at h
      obtain ⟨⟨held₂, s₂⟩, -, h⟩ := Option.bind_eq_some_iff.mp h
      cases held₂ with
      | false => exact (congrArg Prod.fst (Option.some.inj h)).symm
      | true =>
        simp only [Bool.not_true, Bool.false_eq_true, if_false] at h
        obtain ⟨⟨held₃, s₃⟩, hlong, h⟩ := Option.bind_eq_some_iff.mp h
        cases held₃ with
        | false => exact (congrArg Prod.fst (Option.some.inj h)).symm
        | true =>
          -- the move that does not fit would have held
          obtain ⟨t, t', hheld⟩ := of_checkLong hlong
          rw [checkMove_none not_fits.1 not_fits.2] at hheld
          cases hheld
  · intro move regsCall hmove hkeeps s
    refine ⟨checkRegisters_holds hkeeps s, checkShort_holds hmove s, checkLong_stuck hmove s, ?_⟩
    obtain ⟨pattern, hpattern⟩ := patternFill_ends 0x12345678 s.pattern
      (Nat.zero_add ROOM).le
    obtain ⟨s₁, hs₁⟩ := checkRegisters_holds hkeeps { s with pattern := pattern }
    obtain ⟨s₂, hs₂⟩ := checkShort_holds hmove s₁
    rw [main, hpattern]
    simp only [Option.bind_eq_bind, Option.bind_some, hs₁, hs₂, checkLong_stuck hmove,
      Bool.not_true,
      Bool.false_eq_true, if_false, Option.bind_none]

/-- A `memmove` that copies, and does nothing else. -/
def plainMove : Move := fun w dst src n =>
  if dst + n ≤ ROOM ∧ src + n ≤ ROOM then some (copied w dst src n, (dst : ℤ)) else none

/-- The same, with its registers. -/
def plainRegs : RegsCall := fun registers w dst src n =>
  if dst + n ≤ ROOM ∧ src + n ≤ ROOM then some (copied w dst src n, registers) else none

/-- The command fails on a `memmove` without fault. -/
theorem main_never_holds_plain : main plainMove plainRegs blank = none :=
  (main_never_holds.2 plainMove plainRegs (fun _ _ _ _ hd hs => if_pos ⟨hd, hs⟩)
    (fun _ _ _ _ hd hs => if_pos ⟨hd, hs⟩) blank).2.2.2

end Memcheck
