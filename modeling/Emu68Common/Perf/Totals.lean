import Emu68Common.Perf.Report

/-!
# Perf/Totals — what a report says of the samples it counts

An instance is sampled and reported in any order.  Between two reports a slot *owes* the samples it
was given, and a report pays all of them, a line for each slot that owes any.  So every sample
stands in one line (`track_conserves`), and its line says how many they are, their sum and their
maximum (`run_puts`); its average is built from ten times the sum, which must fit in 32 bits as well
(`reports_exact`).

    perf_add pf slot t0 now    a sample, taken from `t0` to `now`
    run sink n events          samples and reports
    track n owed events        the lines of a run, each with its samples, and what is owed after it
    lineText tenths p s l      the line of these samples
-/

namespace PerfLog

open Machinery Printf

variable {σ : Type} {c : PerfCounter} {dt : BitVec 32} {l : List ℕ} {n k i : ℕ}

/-! ## The source -/

/-- One more sample. -/
def PerfCounter.add (c : PerfCounter) (dt : BitVec 32) : PerfCounter where
  pcCount := c.pcCount + 1
  pcSumUs := c.pcSumUs + dt
  pcMaxUs := if dt > c.pcMaxUs then dt else c.pcMaxUs

/-- `perf_add(pf, slot, t0)`, when `get_time()` is `now`. -/
def perfAdd (pf : Perf) (slot : ℕ) (t0 now : BitVec 32) : Perf :=
  let dt := now - t0
  { pf with pfSlots := pf.pfSlots.modify slot fun s => (s.1, s.2.add dt) }

/-- A call of `perf_add` or of `perf_report`. -/
inductive Event where
  | add (slot : ℕ) (t0 now : BitVec 32)
  | report
  deriving DecidableEq, Repr

/-- One call. -/
def step (sink : Sink σ) (n : ℕ) (s : σ × Perf) : Event → Option (σ × Perf)
  | .add slot t0 now => some (s.1, perfAdd s.2 slot t0 now)
  | .report => perfReport sink n s.2 s.1

/-- **Calls, one after another.** -/
def run (sink : Sink σ) (n : ℕ) (s : σ × Perf) (events : List Event) : Option (σ × Perf) :=
  events.foldlM (step sink n) s

/-! ## What is owed -/

/-- The samples each slot owes. -/
abbrev Owed : Type := ℕ → List ℕ

/-- What is owed after a call. -/
def after (owed : Owed) : Event → Owed
  | .add slot t0 now => Function.update owed slot (owed slot ++ [(now - t0).toNat])
  | .report => fun _ => []

/-- The lines a call prints: a slot, and the samples it owed. -/
def paid (nslots : ℕ) (owed : Owed) : Event → List (ℕ × List ℕ)
  | .add _ _ _ => []
  | .report => (List.range nslots).flatMap fun i => if owed i = [] then [] else [(i, owed i)]

/-- **The lines of a run, and what is owed after it.** -/
def track (nslots : ℕ) : Owed → List Event → List (ℕ × List ℕ) × Owed
  | owed, [] => ([], owed)
  | owed, event :: events =>
    let (lines, rest) := track nslots (after owed event) events
    (paid nslots owed event ++ lines, rest)

/-- What every slot owes is of this kind all through a run. -/
def Throughout (nslots : ℕ) (B : List ℕ → Prop) : Owed → List Event → Prop
  | owed, [] => ∀ i < nslots, B (owed i)
  | owed, event :: events => (∀ i < nslots, B (owed i)) ∧
    Throughout nslots B (after owed event) events

/-- The samples a slot is given. -/
def Event.samples (i : ℕ) : Event → List ℕ
  | .add slot t0 now => if slot = i then [(now - t0).toNat] else []
  | .report => []

/-- A sample goes to a slot there is. -/
def Event.Valid (nslots : ℕ) : Event → Prop
  | .add slot _ _ => slot < nslots
  | .report => True

instance : DecidablePred (Event.Valid n)
  | .add slot _ _ => inferInstanceAs (Decidable (slot < n))
  | .report => .isTrue trivial

instance Throughout.decidable {B : List ℕ → Prop} [DecidablePred B] :
    ∀ (owed : Owed) (events : List Event), Decidable (Throughout n B owed events)
  | owed, [] => inferInstanceAs (Decidable (∀ i < n, B (owed i)))
  | owed, event :: events =>
    have : Decidable (Throughout n B (after owed event) events) :=
      Throughout.decidable (after owed event) events
    inferInstanceAs (Decidable ((∀ i < n, B (owed i)) ∧ Throughout n B (after owed event) events))

theorem Throughout.here {B : List ℕ → Prop} {owed : Owed} {events : List Event}
    (h : Throughout n B owed events) : ∀ i < n, B (owed i) := by
  cases events with
  | nil => exact h
  | cons event events => exact h.1

/-! ## Every sample once -/

/-- A list put in at one place of a range. -/
theorem flatMap_range_single {β : Type*} (f : ℕ → List β) (hi : i < n) :
    ((List.range n).flatMap fun j => if j = i then f j else []) = f i := by
  induction n with
  | zero => exact absurd hi (Nat.not_lt_zero i)
  | succ n ih =>
    rw [List.range_succ, List.flatMap_append, List.flatMap_singleton]
    rcases Nat.lt_or_eq_of_le (Nat.le_of_lt_succ hi) with hlt | rfl
    · rw [ih hlt, if_neg hlt.ne', List.append_nil]
    · have hnone : ((List.range i).flatMap fun j => if j = i then f j else []) = [] :=
        List.flatMap_eq_nil_iff.mpr fun j hj => if_neg (List.mem_range.mp hj).ne
      rw [hnone, if_pos rfl, List.nil_append]

/-- What the lines say of a slot. -/
def ofSlot (i : ℕ) (lines : List (ℕ × List ℕ)) : List ℕ :=
  lines.flatMap fun line => if line.1 = i then line.2 else []

/-- One call pays what it takes away. -/
theorem paid_after (owed : Owed) (event : Event) (hi : i < n) :
    ofSlot i (paid n owed event) ++ after owed event i = owed i ++ event.samples i := by
  cases event with
  | add slot t0 now =>
    rw [paid, after, Event.samples, ofSlot, List.flatMap_nil, List.nil_append]
    by_cases h : slot = i
    · rw [if_pos h, h, Function.update_self]
    · rw [if_neg h, Function.update_of_ne (Ne.symm h), List.append_nil]
  | report =>
    rw [after, Event.samples, paid, ofSlot, List.flatMap_assoc, List.append_nil, List.append_nil]
    refine Eq.trans ?_ (flatMap_range_single owed hi)
    refine congrArg (List.flatMap · (List.range n)) (funext fun j => ?_)
    by_cases hj : owed j = []
    · rw [if_pos hj, hj, List.flatMap_nil, ite_self]
    · rw [if_neg hj, List.flatMap_singleton]

/-- **Every sample stands in one line**, in the order they were taken, or is still owed. -/
theorem track_conserves (owed : Owed) (events : List Event) (hi : i < n) :
    ofSlot i (track n owed events).1 ++ (track n owed events).2 i =
      owed i ++ events.flatMap (Event.samples i) := by
  induction events generalizing owed with
  | nil => exact (List.append_nil _).symm
  | cons event events ih =>
    have hsplit : ofSlot i (track n owed (event :: events)).1 =
        ofSlot i (paid n owed event) ++ ofSlot i (track n (after owed event) events).1 :=
      List.flatMap_append
    rw [hsplit, List.append_assoc]
    change ofSlot i _ ++ (ofSlot i _ ++ (track n (after owed event) events).2 i) = _
    rw [ih, ← List.append_assoc, paid_after owed event hi, List.flatMap_cons, List.append_assoc]

/-! ## The counters -/

/-- **A counter says of its samples** how many they are, their sum and their maximum. -/
structure Counts (c : PerfCounter) (l : List ℕ) : Prop where
  count : c.pcCount.toNat = l.length
  sum : c.pcSumUs.toNat = l.sum
  max : c.pcMaxUs.toNat = l.foldl max 0

/-- Fewer samples than 2³², and a sum below 2³². -/
def Fits (l : List ℕ) : Prop := l.length < 2 ^ 32 ∧ l.sum < 2 ^ 32

instance : DecidablePred Fits := fun l =>
  inferInstanceAs (Decidable (l.length < 2 ^ 32 ∧ l.sum < 2 ^ 32))

theorem counts_zero : Counts ⟨0, 0, 0⟩ [] := ⟨rfl, rfl, rfl⟩

theorem Counts.add (h : Counts c l) (hfits : Fits (l ++ [dt.toNat])) :
    Counts (c.add dt) (l ++ [dt.toNat]) := by
  obtain ⟨hlen, hsum⟩ := hfits
  rw [List.length_append, List.length_singleton] at hlen
  rw [List.sum_append, List.sum_singleton] at hsum
  refine ⟨?_, ?_, ?_⟩
  · rw [PerfCounter.add, BitVec.toNat_add, h.count, List.length_append, List.length_singleton]
    exact Nat.mod_eq_of_lt hlen
  · rw [PerfCounter.add, BitVec.toNat_add, h.sum, List.sum_append, List.sum_singleton]
    exact Nat.mod_eq_of_lt hsum
  · rw [List.foldl_append, List.foldl_cons, List.foldl_nil, ← h.max]
    change (if c.pcMaxUs < dt then dt else c.pcMaxUs).toNat = _
    by_cases hlt : c.pcMaxUs < dt
    · rw [if_pos hlt, Nat.max_eq_right (BitVec.le_of_lt hlt)]
    · rw [if_neg hlt, Nat.max_eq_left (BitVec.not_lt.mp hlt)]

theorem Counts.eq_zero (h : Counts c l) : c.pcCount = 0 ↔ l = [] := by
  rw [← List.length_eq_zero_iff, ← h.count]
  exact ⟨fun h0 => congrArg BitVec.toNat h0, fun h0 => BitVec.eq_of_toNat_eq h0⟩

/-! ## The lines -/

/-- The last digit of an average with one decimal. -/
def tenths (l : List ℕ) : ℕ := l.sum * 10 / l.length % 10

/-- What is printed for it: ten times the sum is a 32-bit product. -/
def wrapped (l : List ℕ) : ℕ := l.sum * 10 % 2 ^ 32 / l.length % 10

/-- **The line of some samples**: how many they are, their sum, their average with this last digit,
and their maximum. -/
def lineText (tenths : List ℕ → ℕ) (p s : List Char) (l : List ℕ) : List Char :=
  ['['] ++ (p ++ ([']', ' '] ++ (s ++ ([':', ' ', 'n', '='] ++ (Nat.toDigits 10 l.length ++
    ([' ', 's', 'u', 'm', '='] ++ (Nat.toDigits 10 l.sum ++ (['u', 's', ' ', 'a', 'v', 'g', '='] ++
      (Nat.toDigits 10 (l.sum / l.length) ++ (['.'] ++ (Nat.toDigits 10 (tenths l) ++
        (['u', 's', ' ', 'm', 'a', 'x', '='] ++ (Nat.toDigits 10 (l.foldl max 0) ++
          ['u', 's'])))))))))))))

/-- The text of some lines, where cells name these texts. -/
def linesText (tenths : List ℕ → ℕ) (named : BitVec 32 → List Char) ( pfPrefix : BitVec 32)
    (names : ℕ → BitVec 32) (lines : List (ℕ × List ℕ)) : List Char :=
  lines.flatMap fun line =>
    lineText tenths (named pfPrefix) (named (names line.1)) line.2 ++ ['\n']

/-- **A counter's line is the line of its samples**, but for the last digit of the average. -/
theorem Counts.slotText (h : Counts c l) (p s : List Char) :
    slotText p s c = lineText wrapped p s l := by
  have hmul : (c.pcSumUs * 10).toNat = l.sum * 10 % 2 ^ 32 := by
    rw [BitVec.toNat_mul, h.sum]
    rfl
  have htenths : (c.pcSumUs * 10 / c.pcCount % 10).toNat = wrapped l := by
    rw [BitVec.toNat_umod, BitVec.toNat_udiv, hmul, h.count]
    rfl
  rw [PerfLog.slotText, lineText, decimal, decimal, decimal, decimal, decimal, htenths,
    BitVec.toNat_udiv, h.count, h.sum, h.max]

/-! ## A run of calls -/

/-- A slot of an instance. -/
def Perf.slot (pf : Perf) (i : ℕ) : BitVec 32 × PerfCounter := pf.pfSlots.getD i (0, ⟨0, 0, 0⟩)

/-- **An instance owes these samples**, in slots of these names. -/
structure Tracks (pf : Perf) ( pfPrefix : BitVec 32) (names : ℕ → BitVec 32) (nslots : ℕ)
    (owed : Owed) : Prop where
  same_prefix : pf.pfPrefix = pfPrefix
  length : pf.pfSlots.length = nslots
  name : ∀ i < nslots, (pf.slot i).1 = names i
  counts : ∀ i < nslots, Counts (pf.slot i).2 (owed i)

/-- A slot after a sample. -/
theorem slot_perfAdd {pf : Perf} {slot : ℕ} (t0 now : BitVec 32) (hi : i < pf.pfSlots.length) :
    (perfAdd pf slot t0 now).slot i =
      if slot = i then ((pf.slot i).1, (pf.slot i).2.add (now - t0)) else pf.slot i := by
  have hi' : i < (perfAdd pf slot t0 now).pfSlots.length :=
    hi.trans_eq (List.length_modify _ _ _).symm
  rw [Perf.slot, Perf.slot, List.getD_eq_getElem _ _ hi', List.getD_eq_getElem _ _ hi]
  exact List.getElem_modify _ _ _ _ hi'

/-- A slot after a report. -/
theorem slot_cleared {pf : Perf} (hi : i < pf.pfSlots.length) :
    Perf.slot { pf with pfSlots := pf.pfSlots.map fun s => (s.1, s.2.cleared) } i =
      ((pf.slot i).1, (pf.slot i).2.cleared) := by
  have hi' : i < (pf.pfSlots.map fun s => (s.1, s.2.cleared)).length :=
    hi.trans_eq (List.length_map _).symm
  rw [Perf.slot, Perf.slot, List.getD_eq_getElem _ _ hi', List.getD_eq_getElem _ _ hi,
    List.getElem_map]

theorem counts_cleared (h : Counts c l) : Counts c.cleared [] := by
  rw [PerfCounter.cleared]
  split
  · rename_i h0
    exact h.eq_zero.mp h0 ▸ h
  · exact counts_zero

/-- A list is what stands at each of its places. -/
theorem slots_eq (pf : Perf) :
    pf.pfSlots = (List.range pf.pfSlots.length).map pf.slot := by
  refine List.ext_getElem (by rw [List.length_map, List.length_range]) fun i hi _ => ?_
  rw [List.getElem_map, List.getElem_range, Perf.slot, List.getD_eq_getElem _ _ hi]

variable {sink : Sink σ} {pf : Perf} { pfPrefix : BitVec 32} {names : ℕ → BitVec 32}
  {nslots : ℕ} {owed : Owed} {event : Event} {events : List Event}
  (named : BitVec 32 → List Char)

/-- **A report prints the lines of what is owed.** -/
theorem Tracks.reportText (h : Tracks pf pfPrefix names nslots owed) :
    reportText named pf =
      linesText wrapped named pfPrefix names (paid nslots owed .report) := by
  rw [PerfLog.reportText, linesText, paid, List.flatMap_assoc, slots_eq pf, List.flatMap_map,
    h.length]
  refine List.flatMap_congr fun i hi => ?_
  have hcounts := h.counts i (List.mem_range.mp hi)
  rw [h.same_prefix, h.name i (List.mem_range.mp hi), hcounts.slotText]
  by_cases h0 : owed i = []
  · rw [if_pos (hcounts.eq_zero.mpr h0), if_pos h0, List.flatMap_nil]
  · rw [if_neg fun hc => h0 (hcounts.eq_zero.mp hc), if_neg h0, List.flatMap_singleton]

/-- **One call** prints the lines it pays, and what it leaves is owed. -/
theorem step_puts (h : Tracks pf pfPrefix names nslots owed)
    (hp : Names sink.mem pfPrefix (named pfPrefix))
    (hs : ∀ i < nslots, Names sink.mem (names i) (named (names i))) (hn : 2 ^ 32 ≤ n)
    (hvalid : event.Valid nslots) (hfits : ∀ i < nslots, Fits (after owed event i)) (out : σ) :
    ∃ pf', step sink n (out, pf) event = some (sink.engine.puts (bytes
        (linesText wrapped named pfPrefix names (paid nslots owed event))) out, pf') ∧
      Tracks pf' pfPrefix names nslots (after owed event) := by
  cases event with
  | add slot t0 now =>
    refine ⟨perfAdd pf slot t0 now, rfl, h.same_prefix,
      (List.length_modify _ _ _).trans h.length, fun i hi => ?_, fun i hi => ?_⟩
    · rw [slot_perfAdd t0 now (hi.trans_eq h.length.symm), ← h.name i hi]
      split <;> rfl
    · have hfit := hfits i hi
      rw [slot_perfAdd t0 now (hi.trans_eq h.length.symm)]
      rw [after] at hfit ⊢
      by_cases hslot : slot = i
      · subst hslot
        rw [if_pos rfl]
        rw [Function.update_self] at hfit ⊢
        exact (h.counts slot hi).add hfit
      · rw [if_neg hslot, Function.update_of_ne (Ne.symm hslot)]
        exact h.counts i hi
  | report =>
    have hnames : ∀ s ∈ pf.pfSlots, Names sink.mem s.1 (named s.1) := by
      intro s hmem
      rw [slots_eq pf, h.length] at hmem
      obtain ⟨i, hi, rfl⟩ := List.mem_map.mp hmem
      rw [h.name i (List.mem_range.mp hi)]
      exact hs i (List.mem_range.mp hi)
    refine ⟨{ pf with pfSlots := pf.pfSlots.map fun s => (s.1, s.2.cleared) },
      (perfReport_puts (h.same_prefix ▸ hp) hnames hn).trans ?_, h.same_prefix,
      (List.length_map _).trans h.length, fun i hi => ?_, fun i hi => ?_⟩
    · rw [h.reportText named]
    · rw [slot_cleared (hi.trans_eq h.length.symm)]
      exact h.name i hi
    · rw [slot_cleared (hi.trans_eq h.length.symm)]
      exact counts_cleared (h.counts i hi)

/-- **A run prints the lines of its samples**, as long as the counters can hold what is owed. -/
theorem run_puts (events : List Event) (h : Tracks pf pfPrefix names nslots owed)
    (hp : Names sink.mem pfPrefix (named pfPrefix))
    (hs : ∀ i < nslots, Names sink.mem (names i) (named (names i))) (hn : 2 ^ 32 ≤ n)
    (hvalid : ∀ event ∈ events, event.Valid nslots) (hfits : Throughout nslots Fits owed events)
    (out : σ) :
    ∃ pf', run sink n (out, pf) events = some (sink.engine.puts (bytes
        (linesText wrapped named pfPrefix names (track nslots owed events).1)) out, pf') ∧
      Tracks pf' pfPrefix names nslots (track nslots owed events).2 := by
  induction events generalizing pf owed out with
  | nil => exact ⟨pf, rfl, h⟩
  | cons event events ih =>
    obtain ⟨hevent, hevents⟩ := List.forall_mem_cons.mp hvalid
    obtain ⟨pf₁, hstep, htracks⟩ := step_puts named h hp hs hn hevent hfits.2.here out
    obtain ⟨pf₂, hrun, htracks'⟩ := ih htracks hevents hfits.2
      (sink.engine.puts (bytes (linesText wrapped named pfPrefix names
        (paid nslots owed event))) out)
    refine ⟨pf₂, ?_, htracks'⟩
    rw [run, List.foldlM_cons, hstep]
    refine hrun.trans ?_
    rw [← puts_bytes, linesText, linesText, ← List.flatMap_append]
    rfl

/-! ## The average -/

/-- Ten times the sum fits in 32 bits. -/
def Scales (l : List ℕ) : Prop := l.sum * 10 < 2 ^ 32

instance : DecidablePred Scales := fun l => inferInstanceAs (Decidable (l.sum * 10 < 2 ^ 32))

theorem wrapped_eq (h : Scales l) : wrapped l = tenths l := by
  rw [wrapped, tenths, Nat.mod_eq_of_lt h]

/-- The lines of a run are of the kind of what is owed in it. -/
theorem Throughout.lines {B : List ℕ → Prop} (h : Throughout nslots B owed events) :
    ∀ line ∈ (track nslots owed events).1, B line.2 := by
  induction events generalizing owed with
  | nil => exact fun _ hline => absurd hline List.not_mem_nil
  | cons event events ih =>
    intro line hline
    rcases List.mem_append.mp hline with hpaid | hline
    · cases event with
      | add => exact absurd hpaid List.not_mem_nil
      | report =>
        obtain ⟨i, hi, hline⟩ := List.mem_flatMap.mp hpaid
        split at hline
        · exact absurd hline List.not_mem_nil
        · obtain rfl := List.mem_singleton.mp hline
          exact h.here i (List.mem_range.mp hi)
    · exact ih h.2 line hline

theorem Perf.slot_mem (hi : i < pf.pfSlots.length) : pf.slot i ∈ pf.pfSlots := by
  rw [Perf.slot, List.getD_eq_getElem _ _ hi]
  exact List.getElem_mem hi

/-- An instance without samples owes none. -/
theorem tracks_zero (hzero : ∀ s ∈ pf.pfSlots, s.2 = ⟨0, 0, 0⟩) :
    Tracks pf pf.pfPrefix (fun i => (pf.slot i).1) pf.pfSlots.length fun _ => [] :=
  ⟨rfl, rfl, fun _ _ => rfl, fun _ hi => hzero _ (Perf.slot_mem hi) ▸ counts_zero⟩

/-- **Reports are exact as long as ten times every sum fits.**  An instance starts without samples,
and between two reports each slot is given fewer than 2³² samples with a sum below 2³²: then every
sample stands in one line, with their number, sum and maximum, and the average as well, if no slot
ever owes a sum of 2³²/10 or more. -/
theorem reports_exact (events : List Event) (out : σ) (hzero : ∀ s ∈ pf.pfSlots, s.2 = ⟨0, 0, 0⟩)
    (hp : Names sink.mem pf.pfPrefix (named pf.pfPrefix))
    (hs : ∀ s ∈ pf.pfSlots, Names sink.mem s.1 (named s.1)) (hn : 2 ^ 32 ≤ n)
    (hvalid : ∀ event ∈ events, event.Valid pf.pfSlots.length)
    (hfits : Throughout pf.pfSlots.length Fits (fun _ => []) events)
    (hscales : Throughout pf.pfSlots.length Scales (fun _ => []) events) :
    (∃ pf', run sink n (out, pf) events = some (sink.engine.puts (bytes
      (linesText tenths named pf.pfPrefix (fun i => (pf.slot i).1)
        (track pf.pfSlots.length (fun _ => []) events).1)) out, pf')) ∧
    ∀ i < pf.pfSlots.length,
      ofSlot i (track pf.pfSlots.length (fun _ => []) events).1 ++
        (track pf.pfSlots.length (fun _ => []) events).2 i = events.flatMap (Event.samples i) := by
  obtain ⟨pf', hrun, -⟩ := run_puts named events (tracks_zero hzero) hp
    (fun i hi => hs _ (Perf.slot_mem hi)) hn hvalid hfits out
  have htext : linesText wrapped named pf.pfPrefix (fun i => (pf.slot i).1)
      (track pf.pfSlots.length (fun _ => []) events).1 =
        linesText tenths named pf.pfPrefix (fun i => (pf.slot i).1)
          (track pf.pfSlots.length (fun _ => []) events).1 :=
    List.flatMap_congr fun line hline => by
      rw [lineText, lineText, wrapped_eq (hscales.lines line hline)]
  exact ⟨⟨pf', htext ▸ hrun⟩, fun i hi => track_conserves _ events hi⟩

/-- `"p"` at 16 and `"a"` at 18, and what is put out written down. -/
def sampleSink : Sink (List UInt8) where
  putch c out := out ++ [c]
  mem := Block.put (fun _ => 0) 16 [0x70, 0, 0x61]

/-- What the two cells name. -/
def sampleNames (a : BitVec 32) : List Char := if a = 16 then ['p'] else ['a']

/-- One slot, without samples. -/
def samplePerf : Perf := ⟨16, [(18, ⟨0, 0, 0⟩)]⟩

theorem sample_names : Names sampleSink.mem 16 (sampleNames 16) ∧
    Names sampleSink.mem 18 (sampleNames 18) :=
  ⟨⟨by decide, ⟨by decide, by decide, rfl⟩, by decide⟩,
    ⟨by decide, ⟨by decide, by decide, rfl⟩, by decide⟩⟩

/-- **One sample of 429496730 µs** has an average of 429496730.0, and 429496730.4 is printed. -/
theorem reports_not_exact : (∃ pf',
    run sampleSink (2 ^ 32) ([], samplePerf) [.add 0 0 429496730, .report] = some (bytes
      "[p] a: n=1 sum=429496730us avg=429496730.4us max=429496730us\n".toList, pf')) ∧
    tenths [429496730] = 0 := by
  have hzero : ∀ s ∈ samplePerf.pfSlots, s.2 = ⟨0, 0, 0⟩ := by decide
  obtain ⟨pf', hrun, -⟩ := run_puts sampleNames [.add 0 0 429496730, .report] (tracks_zero hzero)
    sample_names.1 (fun i hi => by obtain rfl := Nat.lt_one_iff.mp hi; exact sample_names.2) le_rfl
    (by decide) (by decide) []
  exact ⟨⟨pf', hrun.trans (congrArg (fun out => some (out, pf')) (by decide +kernel))⟩, by decide⟩

theorem reports_exact_twice : ∃ pf',
    run sampleSink (2 ^ 32) ([], samplePerf)
      [.add 0 10 30, .add 0 5 12, .report, .add 0 0xFFFFFFFF 6, .report] = some (bytes
        ("[p] a: n=2 sum=27us avg=13.5us max=20us\n" ++
          "[p] a: n=1 sum=7us avg=7.0us max=7us\n").toList, pf') := by
  have hzero : ∀ s ∈ samplePerf.pfSlots, s.2 = ⟨0, 0, 0⟩ := by decide
  obtain ⟨⟨pf', hrun⟩, -⟩ := reports_exact sampleNames
    [.add 0 10 30, .add 0 5 12, .report, .add 0 0xFFFFFFFF 6, .report] [] hzero sample_names.1
    (fun s hs => by obtain rfl := List.mem_singleton.mp hs; exact sample_names.2) le_rfl
    (by decide) (by decide) (by decide)
  exact ⟨pf', hrun.trans (congrArg (fun out => some (out, pf')) (by decide +kernel))⟩

end PerfLog
