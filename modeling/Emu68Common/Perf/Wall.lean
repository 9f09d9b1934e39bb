import Emu68Common.Machinery.Dial
import Emu68Common.Perf.ReadBack
import Mathlib

/-!
# Perf/Wall — `report`, and the wall time it divides by

`report` keeps the windows of a prefix in which its key slot is busy, and takes the time between
them off their stamps.  A stamp is a time of day, so a window that began after midnight has a
smaller one: the span across midnight is negative, and no bound keeps it out.  The wall time is
positive exactly when no two windows are close, or the time between those that are is more than a
day for each midnight in it (`wallMs_pos_iff`).

    report wins … key stamped   what is computed of the windows of a prefix
    Capture                     lines stamped with the times of day of instants that never go back
    steadyInstants              when the steady windows of a prefix began
-/

namespace PerfLog

open Machinery Pattern

/-! ## What the reducer computes of a prefix -/

/-- `d[name] = f(d.get(name, v₀))`. -/
def accumulate {β : Type} (v₀ : β) (f : β → β) (d : List (List Char × β)) (name : List Char) :
    List (List Char × β) :=
  if d.any (·.1 == name) then d.map fun e => if e.1 == name then (name, f e.2) else e
  else d ++ [(name, f v₀)]

/-- The largest count of a slot. -/
def peakOf (wins : List Window) (name : List Char) : ℕ :=
  (wins.map fun w => (w.get name).n).max?.getD 0

/-- How often each slot was counted over all windows. -/
def totals (wins : List Window) : List (List Char × ℕ) :=
  (wins.flatMap Window.slots).foldl (fun totals e => accumulate 0 (· + e.2.n) totals e.1) []

/-- `max(totals, key=totals.get)`: the first of the largest. -/
def maxKey : List (List Char × ℕ) → Option (List Char)
  | [] => none
  | e :: es => some (es.foldl (fun best e => if best.2 < e.2 then e else best) e).1

/-- The double nearest to an integer, the even one of two, where there is one. -/
def double (k : ℕ) : Option ℕ :=
  let u := 2 ^ (k.log2 - 52)
  let q := k / u
  let r := k % u
  let q := if u < 2 * r || (2 * r == u && q % 2 == 1) then q + 1 else q
  if q * u < 2 ^ 1024 then some (q * u) else none

/-- The key slot, and its peak as a double. -/
def bar (wins : List Window) (key : Option (List Char)) : Option (List Char × ℕ) := do
  let key ← key <|> maxKey (totals wins)
  let peak ← double (peakOf wins key)
  return (key, peak)

/-- `w["slots"].get(key, (0, 0, 0))[0] >= peak * 0.5`. -/
def steady (b : List Char × ℕ) (w : Window) : Bool := b.2 ≤ 2 * (w.get b.1).n

/-- `[b - a for a, b in zip(ts, ts[1:]) if b - a < 3000]`. -/
def spans (ts : List ℤ) : List ℤ := (differences ts).filter (· < 3000)

/-- `wall_ms`, of the times of the steady windows. -/
def wallMs (stamped : Bool) (ts : List ℤ) : ℤ :=
  if stamped then (spans ts).sum + (spans ts).headD WINDOW_FALLBACK_MS
  else ts.length * WINDOW_FALLBACK_MS

/-- What a prefix's table is printed from. -/
structure Reduced where
  key : List Char
  windows : ℕ
  wallMs : ℤ
  slots : List (List Char × Sample)
  rxfr : ℕ
  txfr : ℕ
  deriving DecidableEq

/-- `[(t, n)]` of a per-frame nsprof slot. -/
def frameCounts (nsprofWins : List Window) (slot : List Char) : List (ℤ × ℕ) :=
  nsprofWins.map fun w => (w.t, (w.get slot).n)

/-- `slots`, over the steady windows. -/
def addSlots (sel : List Window) : List (List Char × Sample) :=
  (sel.flatMap Window.slots).foldl (fun slots e =>
    accumulate ⟨0, 0, 0⟩ (fun v => ⟨v.n + e.2.n, v.su + e.2.su, max v.mx e.2.mx⟩) slots e.1) []

/-- **`report(prefix, wins, rxframes, txframes, key, stamped)`**: the numbers of the table, or
nothing where there are fewer than two steady windows. -/
def report (wins : List Window) (rxframes txframes : List (ℤ × ℕ)) (key : Option (List Char))
    (stamped : Bool) : Option Reduced :=
  match bar wins key with
  | none => none
  | some b =>
    let sel := wins.filter (steady b)
    if sel.length < 2 then none
    else
      let ts := sel.map Window.t
      let t0 := ts.headD 0 - WINDOW_FALLBACK_MS
      let t1 := ts.getLastD 0
      let frames (fr : List (ℤ × ℕ)) : ℕ :=
        ((fr.filter fun f => t0 < f.1 && f.1 ≤ t1).map Prod.snd).sum
      some ⟨b.1, sel.length, wallMs stamped ts, addSlots sel, frames rxframes, frames txframes⟩

/-- What `main` reports of a prefix. -/
def reduce (file : List UInt8) (pfx : List Char) (key : Option (List Char)) : Option Reduced := do
  let read ← parse file
  let ns := read.windows ['n', 's', 'p', 'r', 'o', 'f']
  report (read.windows pfx) (frameCounts ns ['r', 'x', '_', 'i', 'n', 'p', 'u', 't'])
    (frameCounts ns ['t', 'x', '_', 'l', 'i', 'n', 'k', 'o', 'u', 't']) key read.stamped_any

/-! ## Stamped captures -/

/-- A day, in milliseconds. -/
def DAY : ℕ := 86400000

/-- **The stamp of a line is the time of day of an instant**, or there is no slot in the line. -/
def Stamps (T : ℕ) (raw : List UInt8) : Prop :=
  search PERF (unstamped (text raw)) = none ∨
    ∀ synthT r, now synthT (text raw) = some r → r = (shown DAY T, unstamped (text raw), true)

/-- **A stamped capture**: a file, and the instants of its lines, which never go back. -/
structure Capture where
  file : List UInt8
  entries : List (ℕ × List UInt8)
  lines_eq : lines 0x0a file = entries.map Prod.snd
  stamps : ∀ e ∈ entries, Stamps e.1 e.2
  le : (entries.map Prod.fst).Pairwise (· ≤ ·)

variable {T : ℕ} {t : ℤ} {raw : List UInt8} {pfx : List Char} {st st' read : Reading}

/-- The instant of a line that opens a window of the prefix. -/
def opened (pfx : List Char) (st st' : Reading) (T : ℕ) : List ℕ :=
  if (st.windows pfx).length < (st'.windows pfx).length then [T] else []

/-- **The instants at which the windows of a prefix began.** -/
def began (pfx : List Char) : Reading → List (ℕ × List UInt8) → List ℕ
  | _, [] => []
  | st, e :: es => match parseLine st e.2 with
    | none => []
    | some st' => opened pfx st st' e.1 ++ began pfx st' es

/-- **The instants at which its steady windows began.** -/
def steadyInstants (c : Capture) (pfx : List Char) (key : Option (List Char)) : List ℕ :=
  match parse c.file with
  | none => []
  | some read => match bar (read.windows pfx) key with
    | none => []
    | some b => (((read.windows pfx).zip (began pfx ⟨fun _ => [], 0, false⟩ c.entries)).filter
        fun w => steady b w.1).map Prod.snd

/-! ## What a serial tool writes -/

/-- The digits of a number. -/
def digits (m : ℕ) : Digits where
  chars := Nat.toDigits 10 m
  ne_nil := Nat.toDigits_ne_nil
  digit := fun _ h => Nat.isDigit_of_mem_toDigits (by decide) (by decide) h

/-- **The stamp of an instant**: its hour, minute, second and millisecond. -/
def stampOf (T : ℕ) : Stamp :=
  ⟨digits (T / 3600000 % 24), digits (T / 60000 % 60), digits (T / 1000 % 60), digits (T % 1000)⟩

theorem time_stampOf (T : ℕ) : (stampOf T).time = shown DAY T := by
  have hval (m : ℕ) : (digits m).val = m := Nat.ofDigitChars_ten_toDigits
  rw [Stamp.time, stampOf, hval, hval, hval, hval, shown, DAY]
  norm_cast
  omega

/-- `int` takes its numbers. -/
theorem short_stampOf (T : ℕ) : (stampOf T).Short := by
  have hlen {m : ℕ} (h : m < 1000) : (digits m).chars.length ≤ defaultMaxStrDigits :=
    ((Nat.length_toDigits_le_iff ( b := 10) ( k := 3) (by decide) (by decide)).mpr h).trans
      (by decide)
  simp only [Stamp.Short, stampOf, List.forall_mem_cons]
  exact ⟨hlen (by omega), hlen (by omega), hlen (by omega), hlen (by omega),
    fun _ h => absurd h List.not_mem_nil⟩

/-- **A slot's line as it is printed at an instant.** -/
structure Printed where
  T : ℕ
  p : Word
  s : Word
  k : PerfCounter

/-- The line, behind its stamp. -/
def Printed.line (e : Printed) : List UInt8 := (Entry.slot (some (stampOf e.T)) e.p e.s e.k).raw

theorem Printed.stamps (e : Printed) : Stamps e.T e.line := by
  refine .inr fun synthT r hr => ?_
  have hmatch := matchFront_stamped (stampOf e.T) (newline_notMem_slotText e.p e.s e.k)
  have hrest : unstamped (text e.line) = slotText e.p.chars e.s.chars e.k := by
    rw [Printed.line, text_slot, unstamped, hmatch]
  rw [Printed.line, text_slot, now_some (short_stampOf e.T) (newline_notMem_slotText e.p e.s e.k),
    time_stampOf] at hr
  rw [hrest]
  exact (Option.some.inj hr).symm

/-- A printed line ends in its only newline. -/
theorem Printed.line_eq (e : Printed) : ∃ l, 0x0a ∉ l ∧ e.line = l ++ [0x0a] := by
  have hascii : Ascii (stamped (some (stampOf e.T)) (slotText e.p.chars e.s.chars e.k)) :=
    ascii_stamped _ ((made_slotText e.p e.s e.k).ascii (by decide))
  exact ⟨_, newline_notMem_bytes hascii (newline_notMem_stamped _
    (newline_notMem_slotText e.p e.s e.k)), List.map_append⟩

/-- One event of a slot, printed at an instant. -/
def slotAt (T : ℕ) : Printed where
  T := T
  p := ⟨['p'], List.cons_ne_nil 'p' [], List.forall_mem_singleton.mpr rfl⟩
  s := ⟨['a'], List.cons_ne_nil 'a' [], List.forall_mem_singleton.mpr rfl⟩
  k := ⟨1, 1, 1⟩

/-- The lines of what was printed. -/
theorem lines_printed (es : List Printed) :
    lines 0x0a (es.map Printed.line).flatten = es.map Printed.line := by
  induction es with
  | nil => rfl
  | cons e es ih =>
    obtain ⟨l, hl, hraw⟩ := e.line_eq
    rw [List.map_cons, List.flatten_cons, hraw, lines_line hl, ih]

/-- **What is printed at instants that never go back is a capture.** -/
def Capture.printed (es : List Printed) (h : (es.map Printed.T).Pairwise (· ≤ ·)) : Capture where
  file := (es.map Printed.line).flatten
  entries := es.map fun e => (e.T, e.line)
  lines_eq := by
    rw [lines_printed, List.map_map]
    rfl
  stamps := by
    intro e he
    obtain ⟨e, _, rfl⟩ := List.mem_map.mp he
    exact e.stamps
  le := by
    rw [List.map_map]
    exact h

/-! ## When a window began -/

/-- The slots that are put into a window do not move it. -/
theorem times_put (wins : List Window) (name : List Char) (v : Sample) :
    (wins.modifyLast fun cur => { cur with slots := setSlot cur.slots name v }).map Window.t =
      wins.map Window.t := by
  rcases List.eq_nil_or_concat wins with rfl | ⟨init, cur, rfl⟩
  · rfl
  · rw [List.concat_eq_append, List.modifyLast_concat, List.map_append, List.map_append]
    rfl

/-- **A stamped line opens at most one window**, which begins when its stamp says. -/
theorem times_put_stamped (st : Reading) (t : ℤ) (p name : List Char) (v : Sample)
    (pfx : List Char) :
    ((put st t true p name v).windows pfx).map Window.t = (st.windows pfx).map Window.t ∨
      ((put st t true p name v).windows pfx).map Window.t =
        (st.windows pfx).map Window.t ++ [t] := by
  rw [put]
  dsimp only
  by_cases hp : p = pfx
  · subst hp
    rw [Function.update_self, times_put, if_pos rfl]
    split_ifs with hfresh
    · exact .inr List.map_append
    · exact .inl rfl
  · rw [Function.update_of_ne (Ne.symm hp)]
    exact .inl rfl

/-- **What one line of a stamped capture does**: it opens no window, or it has a stamp and opens one
at the instant of the line. -/
theorem times_parseLine (h : Stamps T raw) (hst : parseLine st raw = some st') :
    st'.windows = st.windows ∧ (st.stamped_any = true → st'.stamped_any = true) ∨
      st'.stamped_any = true ∧ ∀ pfx,
        (st'.windows pfx).map Window.t = (st.windows pfx).map Window.t ∨
          (st'.windows pfx).map Window.t = (st.windows pfx).map Window.t ++ [shown DAY T] := by
  obtain ⟨t, stamped, hnow, rfl | ⟨hfound, p, name, v, rfl⟩⟩ := parseLine_cases hst
  · exact .inl ⟨rfl, fun hany => Bool.or_eq_true_iff.mpr (.inl hany)⟩
  · cases h.resolve_left hfound _ _ hnow
    exact .inr ⟨Bool.or_true _, times_put_stamped { st with stamped_any := st.stamped_any || true }
      (shown DAY T) p name v⟩

/-- **One line**: the windows begin when the stamps of the lines that open them say. -/
theorem times_opened (h : Stamps T raw) (hst : parseLine st raw = some st') (pfx : List Char) :
    (st'.windows pfx).map Window.t =
      (st.windows pfx).map Window.t ++ (opened pfx st st' T).map (shown DAY) := by
  have hlen (l : List Window) : l.length = (l.map Window.t).length := (List.length_map _).symm
  have hkept (heq : (st'.windows pfx).map Window.t = (st.windows pfx).map Window.t) :
      (st'.windows pfx).map Window.t =
        (st.windows pfx).map Window.t ++ (opened pfx st st' T).map (shown DAY) := by
    rw [opened, hlen, hlen, heq, if_neg (lt_irrefl _), List.map_nil, List.append_nil]
  rcases times_parseLine h hst with ⟨hwins, -⟩ | ⟨-, htimes⟩
  · exact hkept (congrArg (fun wins => (wins pfx).map Window.t) hwins)
  · rcases htimes pfx with heq | heq
    · exact hkept heq
    · rw [opened, hlen, hlen, heq, List.length_append, List.length_singleton,
        if_pos (Nat.lt_add_one _)]
      rfl

/-- Where there are windows there were stamps. -/
def Dated (st : Reading) : Prop := ∀ pfx, st.windows pfx ≠ [] → st.stamped_any = true

theorem dated_parseLine (h : Stamps T raw) (hst : parseLine st raw = some st') (hd : Dated st) :
    Dated st' := by
  intro pfx hne
  rcases times_parseLine h hst with ⟨hwins, hany⟩ | ⟨hany, -⟩
  · rw [hwins] at hne
    exact hany (hd pfx hne)
  · exact hany

/-- **The run**: the times of the windows are what the dial shows when they began. -/
theorem times_began {es : List (ℕ × List UInt8)} (h : ∀ e ∈ es, Stamps e.1 e.2) (pfx : List Char)
    (hd : Dated st) (hread : (es.map Prod.snd).foldlM parseLine st = some read) :
    (read.windows pfx).map Window.t =
        (st.windows pfx).map Window.t ++ (began pfx st es).map (shown DAY) ∧ Dated read := by
  induction es generalizing st with
  | nil =>
    cases hread
    exact ⟨(List.append_nil _).symm, hd⟩
  | cons e es ih =>
    obtain ⟨he, hes⟩ := List.forall_mem_cons.mp h
    rw [List.map_cons, List.foldlM_cons] at hread
    obtain ⟨next, hnext, hread⟩ := Option.bind_eq_some_iff.mp hread
    obtain ⟨ihtimes, ihd⟩ := ih hes (dated_parseLine he hnext hd) hread
    refine ⟨?_, ihd⟩
    rw [ihtimes, times_opened he hnext, began, hnext, List.map_append, List.append_assoc]

/-- The windows began at instants of their lines, in their order. -/
theorem began_sublist (pfx : List Char) (st : Reading) (es : List (ℕ × List UInt8)) :
    (began pfx st es).Sublist (es.map Prod.fst) := by
  induction es generalizing st with
  | nil => exact List.Sublist.slnil
  | cons e es ih =>
    rw [began]
    split
    · exact List.nil_sublist _
    · rw [List.map_cons, ← List.singleton_append]
      refine List.Sublist.append ?_ (ih _)
      rw [opened]
      split
      · exact List.Sublist.refl _
      · exact List.nil_sublist _

/-- **A whole capture.** -/
theorem parse_began (c : Capture) (pfx : List Char) (hread : parse c.file = some read) :
    (read.windows pfx).map Window.t =
        (began pfx ⟨fun _ => [], 0, false⟩ c.entries).map (shown DAY) ∧ Dated read := by
  rw [parse, c.lines_eq] at hread
  exact times_began c.stamps pfx (fun _ h => absurd rfl h) hread

/-- Each window has its instant. -/
theorem length_began (c : Capture) (pfx : List Char) (hread : parse c.file = some read) :
    (read.windows pfx).length = (began pfx ⟨fun _ => [], 0, false⟩ c.entries).length := by
  have hlen := congrArg List.length (parse_began c pfx hread).1
  rw [List.length_map, List.length_map] at hlen
  exact hlen

/-- **The capture is read and the key slot found**, or there are no steady windows. -/
theorem steadyInstants_cases (c : Capture) (pfx : List Char) (key : Option (List Char)) :
    steadyInstants c pfx key = [] ∨ ∃ read b, parse c.file = some read ∧
      bar (read.windows pfx) key = some b ∧ steadyInstants c pfx key =
        (((read.windows pfx).zip (began pfx ⟨fun _ => [], 0, false⟩ c.entries)).filter
          fun w => steady b w.1).map Prod.snd := by
  rw [steadyInstants]
  split
  case h_1 => exact .inl rfl
  case h_2 read hread =>
    split
    case h_1 => exact .inl rfl
    case h_2 b hbar => exact .inr ⟨read, b, hread, hbar, rfl⟩

/-- They never go back either. -/
theorem le_steadyInstants (c : Capture) (pfx : List Char) (key : Option (List Char)) :
    (steadyInstants c pfx key).Pairwise (· ≤ ·) := by
  rcases steadyInstants_cases c pfx key with hnil | ⟨read, b, hread, -, heq⟩
  · rw [hnil]
    exact List.Pairwise.nil
  · rw [heq]
    refine (c.le.sublist (began_sublist pfx ⟨fun _ => [], 0, false⟩ c.entries)).sublist ?_
    refine (List.filter_sublist.map Prod.snd).trans ?_
    rw [List.map_snd_zip (length_began c pfx hread).ge]

/-- **The times `report` takes** are what the dial shows when the steady windows began. -/
theorem times_steady (c : Capture) (pfx : List Char) (b : List Char × ℕ)
    (hread : parse c.file = some read) :
    ((read.windows pfx).filter (steady b)).map Window.t =
      ((((read.windows pfx).zip (began pfx ⟨fun _ => [], 0, false⟩ c.entries)).filter
        fun w => steady b w.1).map Prod.snd).map (shown DAY) := by
  have htimes := (parse_began c pfx hread).1
  have heq : List.Forall₂ (fun w T => Window.t w = shown DAY T) (read.windows pfx)
      (began pfx ⟨fun _ => [], 0, false⟩ c.entries) := by
    rw [← List.forall₂_eq_eq_eq, List.forall₂_map_left_iff, List.forall₂_map_right_iff] at htimes
    exact htimes
  generalize hzip : (read.windows pfx).zip _ = ps at *
  rw [← List.map_fst_zip (length_began c pfx hread).le, hzip, List.filter_map, List.map_map,
    List.map_map]
  refine List.map_congr_left fun p hp => ?_
  have hmem : p ∈ ps := (List.mem_filter.mp hp).1
  rw [← hzip] at hmem
  exact (List.forall₂_iff_zip.mp heq).2 hmem

/-! ## The wall time -/

/-- The kept gaps, the first of them twice. -/
def counted (Ts : List ℕ) : List (ℕ × ℕ) :=
  (keptGaps DAY 3000 Ts).take 1 ++ keptGaps DAY 3000 Ts

/-- **No gap is kept, or those that are last longer than a day for each midnight in them.** -/
def Usable (Ts : List ℕ) : Prop :=
  keptGaps DAY 3000 Ts = [] ∨
    DAY * ((counted Ts).map (turns DAY)).sum < ((counted Ts).map elapsed).sum

instance (Ts : List ℕ) : Decidable (Usable Ts) := inferInstanceAs (Decidable (_ ∨ _))

variable {Ts : List ℕ}

/-- **The wall time of instants that never go back.** -/
theorem wallMs_pos_iff (hs : Ts.Pairwise (· ≤ ·)) :
    0 < wallMs true (Ts.map (shown DAY)) ↔ Usable Ts := by
  rw [wallMs, if_pos rfl, spans, spans_shown hs, Usable, counted]
  cases keptGaps DAY 3000 Ts with
  | nil => exact iff_of_true (by decide) (.inl rfl)
  | cons p ps =>
    have hsum := sum_spans ( P := DAY) (p :: p :: ps)
    rw [List.map_cons, List.sum_cons, add_comm] at hsum
    change 0 < (List.map _ (p :: ps)).sum + (elapsed p - DAY * turns DAY p : ℤ) ↔ _
    rw [hsum, sub_pos]
    refine Iff.trans ?_ (or_iff_right (List.cons_ne_nil p ps)).symm
    exact_mod_cast Iff.rfl

/-- **Where no gap goes past midnight**, the wall time fails only if all kept gaps are empty. -/
theorem usable_of_no_turn (h : ∀ p ∈ gaps Ts, turns DAY p = 0) :
    Usable Ts ↔ keptGaps DAY 3000 Ts = [] ∨ ∃ p ∈ keptGaps DAY 3000 Ts, p.1 < p.2 := by
  have hcounted (p : ℕ × ℕ) : p ∈ counted Ts ↔ p ∈ keptGaps DAY 3000 Ts := by
    rw [counted, List.mem_append]
    exact ⟨fun hp => hp.elim List.mem_of_mem_take id, .inr⟩
  have hturns : ((counted Ts).map (turns DAY)).sum = 0 := by
    refine List.sum_eq_zero fun m hm => ?_
    obtain ⟨p, hp, rfl⟩ := List.mem_map.mp hm
    exact h p (List.mem_filter.mp ((hcounted p).mp hp)).1
  rw [Usable, hturns, Nat.mul_zero, List.sum_pos_iff_exists_pos_nat]
  refine or_congr_right ⟨fun ⟨m, hm, hpos⟩ => ?_, fun ⟨p, hp, hlt⟩ => ?_⟩
  · obtain ⟨p, hp, rfl⟩ := List.mem_map.mp hm
    exact ⟨p, (hcounted p).mp hp, Nat.lt_of_sub_pos hpos⟩
  · exact ⟨elapsed p, List.mem_map_of_mem ((hcounted p).mpr hp), Nat.sub_pos_of_lt hlt⟩

/-- **Two steady windows are reduced.** -/
theorem report_eq {wins : List Window} {rxframes txframes : List (ℤ × ℕ)}
    {key : Option (List Char)} {b : List Char × ℕ} {stamped : Bool}
    (hbar : bar wins key = some b) (h : 2 ≤ (wins.filter (steady b)).length) :
    ∃ r, report wins rxframes txframes key stamped = some r ∧
      r.wallMs = wallMs stamped ((wins.filter (steady b)).map Window.t) := by
  rw [report, hbar]
  dsimp only
  rw [if_neg (Nat.not_lt.mpr h)]
  exact ⟨_, rfl, rfl⟩

/-- **When the wall time is usable.** -/
theorem wall_usable (c : Capture) (pfx : List Char) (key : Option (List Char))
    (h : 2 ≤ (steadyInstants c pfx key).length) :
    ∃ r, reduce c.file pfx key = some r ∧
      (0 < r.wallMs ↔ Usable (steadyInstants c pfx key)) := by
  have hpos : steadyInstants c pfx key ≠ [] := fun hnil => by
    rw [hnil] at h
    exact absurd h (Nat.not_succ_le_zero 1)
  obtain ⟨read, b, hread, hbar, heq⟩ := (steadyInstants_cases c pfx key).resolve_left hpos
  have htimes := times_steady c pfx b hread
  rw [← heq] at htimes
  have hlen := congrArg List.length htimes
  rw [List.length_map, List.length_map] at hlen
  rw [← hlen] at h
  obtain ⟨r, hr, hwall⟩ := report_eq hbar h
  refine ⟨r, (congrArg (Option.bind · _) hread).trans hr, ?_⟩
  have hne : read.windows pfx ≠ [] := fun hnil => by
    rw [hnil] at h
    exact absurd h (Nat.not_succ_le_zero 1)
  have hany : read.stamped_any = true := (parse_began c pfx hread).2 pfx hne
  rw [hwall, hany, htimes]
  exact wallMs_pos_iff (le_steadyInstants c pfx key)

/-- Two lines of a slot, two seconds apart. -/
theorem wall_usable_apart : ∃ (file : List UInt8) (r : Reduced),
    reduce file ['p'] none = some r ∧ 0 < r.wallMs :=
  let c := Capture.printed [slotAt 1000, slotAt 3000] (by decide)
  let ⟨r, hr, hiff⟩ := wall_usable c ['p'] none (by decide +kernel)
  ⟨c.file, r, hr, hiff.mpr (by decide +kernel)⟩

/-- Two lines of a slot, two seconds apart, before and after midnight. -/
def overMidnight : Capture := Capture.printed [slotAt 86399999, slotAt 86401999] (by decide)

/-- Two lines of a slot in one millisecond. -/
def atOnce : Capture := Capture.printed [slotAt 1999, slotAt 1999] (by decide)

/-- **Not every capture has a usable wall time**: over midnight it is negative, and of windows that
begin at once it is zero. -/
theorem wall_not_usable :
    (2 ≤ (steadyInstants overMidnight ['p'] none).length ∧
      (reduce overMidnight.file ['p'] none).map Reduced.wallMs = some (-172796000)) ∧
    2 ≤ (steadyInstants atOnce ['p'] none).length ∧
      (reduce atOnce.file ['p'] none).map Reduced.wallMs = some 0 :=
  ⟨⟨by decide +kernel, by decide +kernel⟩, by decide +kernel, by decide +kernel⟩

end PerfLog
