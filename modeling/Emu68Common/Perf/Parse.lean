import Emu68Common.Machinery.Lines
import Emu68Common.Machinery.Pattern
import Mathlib

/-!
# Perf/Parse — `parse`, the reducer's reader of a serial capture

`perf-report.py` goes through a capture line by line.  A line may carry a stamp of the serial tool;
what is behind it is searched for a slot's samples, and these go into the current window of their
prefix or open a new one.  Python's `int` takes numbers of at most 4300 digits: a stamp with a
longer one raises `ValueError`, and nothing is read of the whole capture.

    TS, PERF           the two patterns
    parseLine st raw   what one line does
    parse file         the windows of a capture, prefix by prefix, or nothing
-/

namespace PerfLog

open Machinery Pattern

/-! ## The patterns -/

/-- `\w`, of what is left of ASCII. -/
def isWordChar (c : Char) : Bool := c.isAlphanum || c == '_'

/-- `[\d.]`. -/
def isDecimal (c : Char) : Bool := c.isDigit || c == '.'

/-- `^(\d+):(\d+):(\d+):(\d+) -> (.*)$`. -/
def TS : List (Atom Char) :=
  .many 1 Char.isDigit true :: (lit [':'] ++ (.many 1 Char.isDigit true :: (lit [':'] ++
    (.many 1 Char.isDigit true :: (lit [':'] ++ (.many 1 Char.isDigit true ::
      (lit [' ', '-', '>', ' '] ++ [.many 0 (· != '\n') true,
        .ahead fun l => l = [] || l = ['\n']])))))))

/-- `\[(\w+)\] (\w+): n=(\d+) sum=(\d+)us avg=[\d.]+us max=(\d+)us`. -/
def PERF : List (Atom Char) :=
  lit ['['] ++ (.many 1 isWordChar true :: (lit [']', ' '] ++ (.many 1 isWordChar true ::
    (lit [':', ' ', 'n', '='] ++ (.many 1 Char.isDigit true :: (lit [' ', 's', 'u', 'm', '='] ++
      (.many 1 Char.isDigit true :: (lit ['u', 's', ' ', 'a', 'v', 'g', '='] ++
        (.many 1 isDecimal false :: (lit ['u', 's', ' ', 'm', 'a', 'x', '='] ++
          (.many 1 Char.isDigit true :: (lit ['u', 's'] ++ []))))))))))))

/-! ## One line -/

/-- `raw.decode("ascii", errors="replace")`. -/
def decode (raw : List UInt8) : List Char :=
  raw.map fun b => if b < 128 then Char.ofNat b.toNat else Char.ofNat 0xfffd

/-- What `str.rstrip` strips, of what is left of ASCII. -/
def isSpace (c : Char) : Bool :=
  c == ' ' || (9 ≤ c.toNat && c.toNat ≤ 13) || (28 ≤ c.toNat && c.toNat ≤ 31)

/-- `raw.decode("ascii", errors="replace").rstrip()`. -/
def text (raw : List UInt8) : List Char := (decode raw).rdropWhile isSpace

/-- `sys.int_info.default_max_str_digits`: the most digits that `int` takes. -/
def defaultMaxStrDigits : ℕ := 4300

/-- `int`, which raises `ValueError` for more digits. -/
def int (digits : List Char) : Option ℕ :=
  if digits.length ≤ defaultMaxStrDigits then some (Nat.ofDigitChars 10 digits 0) else none

/-- `now(line)`: the time, what is behind the stamp, and whether there is one. -/
def now (synthT : ℤ) (line : List Char) : Option (ℤ × List Char × Bool) :=
  match matchFront TS line with
  | some [h, mi, s, ms, rest] => do
    let h ← int h
    let mi ← int mi
    let s ← int s
    let ms ← int ms
    return ((((h : ℤ) * 60 + mi) * 60 + s) * 1000 + ms, rest, true)
  | _ => some (synthT, line, false)

/-- The count, the sum and the maximum of a slot. -/
structure Sample where
  n : ℕ
  su : ℕ
  mx : ℕ
  deriving DecidableEq, Repr

/-- A window: when it began, and its slots. -/
structure Window where
  t : ℤ
  slots : List (List Char × Sample)
  deriving DecidableEq, Repr

/-- `slots[name] = v`. -/
def setSlot (slots : List (List Char × Sample)) (name : List Char) (v : Sample) :
    List (List Char × Sample) :=
  if slots.any (·.1 == name) then slots.map fun e => if e.1 == name then (name, v) else e
  else slots ++ [(name, v)]

/-- `perf_report` cadence when the log has no timestamps. -/
def WINDOW_FALLBACK_MS : ℤ := 2020

/-- A larger gap between perf lines starts a new window. -/
def WINDOW_GAP_MS : ℤ := 300

/-- What `parse` keeps: `windows`, whose last one of each prefix is its `current`, `synth_t` and
`stamped_any`. -/
structure Reading where
  windows : List Char → List Window
  synthT : ℤ
  stamped_any : Bool

/-- What a slot's line does, once its numbers are read. -/
def put (st : Reading) (t : ℤ) (stamped : Bool) (pfx name : List Char) (v : Sample) : Reading :=
  let wins := st.windows pfx
  let fresh := match wins.getLast? with
    | none => true
    | some cur => cur.slots.any (·.1 == name) || (stamped && t - cur.t > WINDOW_GAP_MS)
  let synthT := if fresh && !stamped then st.synthT + WINDOW_FALLBACK_MS else st.synthT
  let t := if stamped then t else synthT
  let wins := if fresh then wins ++ [⟨t, []⟩] else wins
  { st with
    synthT := synthT
    windows := Function.update st.windows pfx (wins.modifyLast fun cur =>
      { cur with slots := setSlot cur.slots name v }) }

/-- One line of the capture. -/
def parseLine (st : Reading) (raw : List UInt8) : Option Reading := do
  let line := text raw
  let (t, rest, stamped) ← now st.synthT line
  let st := { st with stamped_any := st.stamped_any || stamped }
  match search PERF rest with
  | some [pfx, name, n, su, mx] =>
    let n ← int n
    let su ← int su
    let mx ← int mx
    return put st t stamped pfx name ⟨n, su, mx⟩
  | _ => return st

/-- **`parse(path)`**, of the file's contents: nothing where it raises `ValueError`. -/
def parse (file : List UInt8) : Option Reading :=
  (lines 0x0a file).foldlM parseLine ⟨fun _ => [], 0, false⟩

/-! ## Stamps -/

variable {line h mi s ms rest : List Char}

/-- What is behind the stamp of a line, if it has one. -/
def unstamped (line : List Char) : List Char :=
  match matchFront TS line with
  | some [_, _, _, _, rest] => rest
  | _ => line

/-- **A line with a stamp that `int` does not take**: one of its numbers has too many digits. -/
def Overlong (raw : List UInt8) : Prop :=
  ∃ h mi s ms rest, matchFront TS (text raw) = some [h, mi, s, ms, rest] ∧
    ∃ d ∈ [h, mi, s, ms], defaultMaxStrDigits < d.length

theorem int_eq_none_iff (digits : List Char) :
    int digits = none ↔ defaultMaxStrDigits < digits.length := by
  rw [int, ite_eq_right_iff, ← not_le]
  exact forall_congr' fun _ => iff_of_false (Option.some_ne_none _) id

theorem int_of_le {digits : List Char} (h : digits.length ≤ defaultMaxStrDigits) :
    int digits = some (Nat.ofDigitChars 10 digits 0) := if_pos h

/-- A stamp whose numbers are short is read. -/
theorem now_of_le (hm : matchFront TS line = some [h, mi, s, ms, rest])
    (hle : ∀ d ∈ [h, mi, s, ms], d.length ≤ defaultMaxStrDigits) (synthT : ℤ) :
    now synthT line = some ((((Nat.ofDigitChars 10 h 0 : ℤ) * 60 + Nat.ofDigitChars 10 mi 0) * 60 +
      Nat.ofDigitChars 10 s 0) * 1000 + Nat.ofDigitChars 10 ms 0, rest, true) := by
  simp only [List.forall_mem_cons] at hle
  obtain ⟨hh, hmi, hs, hms, -⟩ := hle
  rw [now, hm]
  simp only [int_of_le hh, int_of_le hmi, int_of_le hs, int_of_le hms, Option.bind_eq_bind,
    Option.bind_some]
  rfl

/-- A stamp with a longer number is not. -/
theorem now_eq_none (hm : matchFront TS line = some [h, mi, s, ms, rest])
    (hlong : ∃ d ∈ [h, mi, s, ms], defaultMaxStrDigits < d.length) (synthT : ℤ) :
    now synthT line = none := by
  obtain ⟨d, hd, hlt⟩ := hlong
  have hnone := (int_eq_none_iff d).mpr hlt
  rw [now, hm]
  simp only [List.mem_cons, List.not_mem_nil, or_false] at hd
  simp only [Option.bind_eq_bind, Option.bind_eq_none_iff]
  rcases hd with rfl | rfl | rfl | rfl
  · exact fun _ hint => absurd (hint.symm.trans hnone) (Option.some_ne_none _)
  · exact fun _ _ _ hint => absurd (hint.symm.trans hnone) (Option.some_ne_none _)
  · exact fun _ _ _ _ _ hint => absurd (hint.symm.trans hnone) (Option.some_ne_none _)
  · exact fun _ _ _ _ _ _ _ hint => absurd (hint.symm.trans hnone) (Option.some_ne_none _)

/-- **What `now` makes of a line**: it raises where the stamp is too long, and otherwise leaves what
is behind the stamp. -/
theorem now_cases (raw : List UInt8) (synthT : ℤ) :
    (Overlong raw ∧ now synthT (text raw) = none) ∨
      (¬Overlong raw ∧ ∃ t stamped, now synthT (text raw) =
        some (t, unstamped (text raw), stamped)) := by
  by_cases hm : ∃ h mi s ms rest, matchFront TS (text raw) = some [h, mi, s, ms, rest]
  · obtain ⟨h, mi, s, ms, rest, hm⟩ := hm
    have hrest : unstamped (text raw) = rest := by rw [unstamped, hm]
    by_cases hlong : ∃ d ∈ [h, mi, s, ms], defaultMaxStrDigits < d.length
    · exact .inl ⟨⟨h, mi, s, ms, rest, hm, hlong⟩, now_eq_none hm hlong synthT⟩
    · refine .inr ⟨?_, _, true, hrest ▸ now_of_le hm (fun d hd => ?_) synthT⟩
      · rintro ⟨h', mi', s', ms', rest', hm', hlong'⟩
        cases Option.some.inj (hm.symm.trans hm')
        exact hlong hlong'
      · exact not_lt.mp fun hlt => hlong ⟨d, hd, hlt⟩
  · refine .inr ⟨fun ⟨h, mi, s, ms, rest, hm', _⟩ => hm ⟨h, mi, s, ms, rest, hm'⟩,
      synthT, false, ?_⟩
    rw [now, unstamped]
    split
    case h_1 h mi s ms rest hm' => exact absurd ⟨h, mi, s, ms, rest, hm'⟩ hm
    case h_2 => rfl

/-- **What one line does** where it is read: it is not a slot's, or its numbers go into a window. -/
theorem parseLine_cases {st st' : Reading} {raw : List UInt8} (h : parseLine st raw = some st') :
    ∃ t stamped, now st.synthT (text raw) = some (t, unstamped (text raw), stamped) ∧
      (st' = { st with stamped_any := st.stamped_any || stamped } ∨
        search PERF (unstamped (text raw)) ≠ none ∧ ∃ pfx name v,
          st' = put { st with stamped_any := st.stamped_any || stamped } t stamped pfx name v) := by
  rcases now_cases raw st.synthT with ⟨-, hnow⟩ | ⟨-, t, stamped, hnow⟩
  · rw [parseLine, hnow] at h
    exact absurd h.symm (Option.some_ne_none st')
  · refine ⟨t, stamped, hnow, ?_⟩
    rw [parseLine, hnow] at h
    simp only [Option.bind_eq_bind, Option.bind_some] at h
    split at h
    case h_1 pfx name n su mx hfound =>
      obtain ⟨n, -, h⟩ := Option.bind_eq_some_iff.mp h
      obtain ⟨su, -, h⟩ := Option.bind_eq_some_iff.mp h
      obtain ⟨mx, -, h⟩ := Option.bind_eq_some_iff.mp h
      exact .inr ⟨hfound ▸ Option.some_ne_none _, pfx, name, ⟨n, su, mx⟩, (Option.some.inj h).symm⟩
    case h_2 => exact .inl (Option.some.inj h).symm

end PerfLog
