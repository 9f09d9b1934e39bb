import Emu68Common.Perf.Parse
import Emu68Common.Perf.Report

/-!
# Perf/ReadBack — the reducer reads back what the reporters print

A capture is lines: those of slots and of histograms, each behind a stamp of the serial tool or not,
and any others that do not look like a slot's.  `PERF` finds a slot's numbers in its own line and
nothing in a histogram's, so what `parse` has recorded for a prefix, window after window, is what
the slots of that prefix printed, line after line (`foldlM_parseLine`), unless the stamp of a line
has a number that `int` does not take.

    Word, Stamp      a prefix or a name; what the serial tool puts in front of a line
    Entry            a line of a capture
    recorded wins    the slots of the windows, one window after another
-/

namespace PerfLog

open Machinery Pattern

variable {l l' s : List Char} {c : Char}

/-! ## Text that survives the wire -/

/-- ASCII. -/
def Ascii (s : List Char) : Prop := ∀ c ∈ s, c.toNat < 128

/-- There is nothing to strip from its end. -/
def Dark (s : List Char) : Prop := s.rdropWhile isSpace = s

instance (s : List Char) : Decidable (Ascii s) :=
  List.decidableBAll (fun c : Char => c.toNat < 128) s

instance (s : List Char) : Decidable (Dark s) :=
  inferInstanceAs (Decidable (s.rdropWhile isSpace = s))

theorem Ascii.append (h : Ascii l) (h' : Ascii l') : Ascii (l ++ l') := fun c hc =>
  (List.mem_append.mp hc).elim (h c) (h' c)

theorem Dark.append (h : Dark l) (h' : Dark l') : Dark (l ++ l') := by
  rw [Dark, List.rdropWhile_eq_self_iff] at *
  intro hne
  by_cases hl : l' = []
  · subst hl
    simpa only [List.append_nil] using h (by simpa using hne)
  · rw [List.getLast_append_of_right_ne_nil _ _ hl]
    exact h' hl

theorem dark_of_forall (h : ∀ c ∈ l, isSpace c = false) : Dark l :=
  List.rdropWhile_eq_self_iff.mpr fun hl => by
    rw [h _ (List.getLast_mem hl)]
    exact Bool.false_ne_true

theorem decode_bytes (h : Ascii s) : decode (bytes s) = s := by
  rw [decode, bytes, List.map_map]
  refine (List.map_congr_left fun c hc => ?_).trans (List.map_id s)
  have hlt : c.toNat < 128 := h c hc
  have hnat : c.toUInt8.toNat = c.toNat := by
    change c.toNat % 256 = c.toNat
    omega
  have hlt' : c.toUInt8 < 128 := by
    rw [UInt8.lt_iff_toNat_lt, hnat]
    exact hlt
  change (if c.toUInt8 < 128 then Char.ofNat c.toUInt8.toNat else _) = c
  rw [if_pos hlt', hnat, Char.ofNat_toNat]

/-- A text without a newline is written without its byte. -/
theorem newline_notMem_bytes (h : Ascii s) (hs : '\n' ∉ s) : 0x0a ∉ bytes s := fun hmem => by
  have hdecoded := List.mem_map_of_mem (f := fun b : UInt8 =>
    if b < 128 then Char.ofNat b.toNat else Char.ofNat 0xfffd) hmem
  rw [← decode, decode_bytes h] at hdecoded
  exact hs hdecoded

/-- **A printed line is read as it was printed**, without its newline. -/
theorem text_bytes (h : Ascii s) (hd : Dark s) : text (bytes (s ++ ['\n'])) = s := by
  rw [text, decode_bytes (h.append (by decide)), List.rdropWhile_concat_pos _ _ _ rfl]
  exact hd

/-! ## Words and numbers -/

/-- **A prefix or a name**: ASCII letters, digits and underscores. -/
structure Word where
  chars : List Char
  ne_nil : chars ≠ []
  word : ∀ c ∈ chars, isWordChar c = true

/-- A number of the serial tool. -/
structure Digits where
  chars : List Char
  ne_nil : chars ≠ []
  digit : ∀ c ∈ chars, c.isDigit = true

theorem isWordChar_of_isDigit (h : c.isDigit = true) : isWordChar c = true := by
  rw [isWordChar, Char.isAlphanum, h, Bool.or_true, Bool.true_or]

theorem isDecimal_of_isDigit (h : c.isDigit = true) : isDecimal c = true := by
  rw [isDecimal, h, Bool.true_or]

/-- Where the characters of a word stand. -/
theorem range_of_isWordChar (h : isWordChar c = true) : 48 ≤ c.toNat ∧ c.toNat < 128 := by
  unfold isWordChar Char.isAlphanum Char.isAlpha Char.isUpper Char.isLower Char.isDigit at h
  simp only [Bool.or_eq_true, Bool.and_eq_true, decide_eq_true_eq, beq_iff_eq, ge_iff_le,
    UInt32.le_iff_toNat_le] at h
  rcases h with ((h | h) | h) | rfl
  · exact ⟨le_trans (by decide) h.1, lt_of_le_of_lt h.2 (by decide)⟩
  · exact ⟨le_trans (by decide) h.1, lt_of_le_of_lt h.2 (by decide)⟩
  · exact ⟨le_trans (by decide) h.1, lt_of_le_of_lt h.2 (by decide)⟩
  · decide

theorem ascii_of_word (h : ∀ c ∈ s, isWordChar c = true) : Ascii s := fun c hc =>
  (range_of_isWordChar (h c hc)).2

theorem dark_of_word (h : ∀ c ∈ s, isWordChar c = true) : Dark s := dark_of_forall fun c hc => by
  have hge := (range_of_isWordChar (h c hc)).1
  have hne : (c == ' ') = false := beq_false_of_ne fun h => by
    rw [h] at hge
    exact absurd hge (by decide)
  rw [isSpace, hne, decide_eq_false (by omega : ¬ c.toNat ≤ 13),
    decide_eq_false (by omega : ¬ c.toNat ≤ 31),
    Bool.and_false, Bool.and_false]
  rfl

/-- Made of words and of these characters. -/
def Made (marks : List Char) (s : List Char) : Prop := ∀ c ∈ s, isWordChar c = true ∨ c ∈ marks

variable {marks : List Char}

instance (marks s : List Char) : Decidable (Made marks s) :=
  List.decidableBAll (fun c => isWordChar c = true ∨ c ∈ marks) s

theorem Made.append (h : Made marks l) (h' : Made marks l') : Made marks (l ++ l') := fun c hc =>
  (List.mem_append.mp hc).elim (h c) (h' c)

theorem made_of_word (h : ∀ c ∈ s, isWordChar c = true) : Made marks s := fun c hc => .inl (h c hc)

theorem Made.ascii (h : Made marks s) (hm : Ascii marks) : Ascii s := fun c hc =>
  (h c hc).elim (fun h => (range_of_isWordChar h).2) (hm c)

theorem Made.notMem (h : Made marks s) (hw : isWordChar c = false) (hm : c ∉ marks) : c ∉ s :=
  fun hc => (h c hc).elim (fun h => Bool.false_ne_true (hw.symm.trans h)) hm

/-- What ends in something ends in it. -/
theorem dark_right (h : l' ≠ [] ∧ Dark l') : l ++ l' ≠ [] ∧ Dark (l ++ l') := by
  refine ⟨List.append_ne_nil_of_right_ne_nil l h.1, List.rdropWhile_eq_self_iff.mpr fun _ => ?_⟩
  rw [List.getLast_append_of_right_ne_nil _ _ h.1]
  exact List.rdropWhile_eq_self_iff.mp h.2 h.1

theorem digit_decimal (v : BitVec 32) (c : Char) (h : c ∈ decimal v) : c.isDigit = true :=
  Nat.isDigit_of_mem_toDigits (by decide) (by decide) h

theorem word_decimal (v : BitVec 32) (c : Char) (h : c ∈ decimal v) : isWordChar c = true :=
  isWordChar_of_isDigit (digit_decimal v c h)

theorem length_decimal (v : BitVec 32) : 1 ≤ (decimal v).length := Nat.length_toDigits_pos

theorem int_decimal (v : BitVec 32) : int (decimal v) = some v.toNat := by
  have hlen : (decimal v).length ≤ defaultMaxStrDigits :=
    ((Nat.length_toDigits_le_iff (by decide) (by decide)).mpr
      (v.isLt.trans (by decide : 2 ^ 32 < 10 ^ 10))).trans (by decide)
  rw [int_of_le hlen]
  exact congrArg some Nat.ofDigitChars_ten_toDigits

/-! ## What the patterns find -/

/-- **A slot's line matches**, in one way only. -/
theorem results_slotText (p s : Word) (k : PerfCounter) :
    results PERF (slotText p.chars s.chars k) = [[p.chars, s.chars, decimal k.pcCount,
      decimal k.pcSumUs, decimal k.pcMaxUs]] := by
  have havg : ∀ c ∈ decimal (k.pcSumUs / k.pcCount) ++ (['.'] ++
      decimal (k.pcSumUs * 10 / k.pcCount % 10)), isDecimal c = true := by
    intro c hc
    rcases List.mem_append.mp hc with hc | hc
    · exact isDecimal_of_isDigit (digit_decimal _ c hc)
    · rcases List.mem_append.mp hc with hc | hc
      · obtain rfl := List.mem_singleton.mp hc
        rfl
      · exact isDecimal_of_isDigit (digit_decimal _ c hc)
  have hlen : 1 ≤ (decimal (k.pcSumUs / k.pcCount) ++ (['.'] ++
      decimal (k.pcSumUs * 10 / k.pcCount % 10))).length := by
    rw [List.length_append]
    exact (length_decimal _).trans (Nat.le_add_right _ _)
  have hassoc (l : List Char) : decimal (k.pcSumUs / k.pcCount) ++ (['.'] ++
      (decimal (k.pcSumUs * 10 / k.pcCount % 10) ++ l)) =
      (decimal (k.pcSumUs / k.pcCount) ++ (['.'] ++
        decimal (k.pcSumUs * 10 / k.pcCount % 10))) ++ l := by
    rw [List.append_assoc, List.append_assoc]
  have hlast : results (.many 1 Char.isDigit true :: (lit ['u', 's'] ++ []))
      (decimal k.pcMaxUs ++ ['u', 's']) = [[decimal k.pcMaxUs]] :=
    results_many_lit (l := []) (digit_decimal _) rfl (length_decimal _)
  rw [PERF, slotText, results_lit, results_many_lit p.word rfl (List.length_pos_iff.mpr p.ne_nil),
    results_many_lit s.word rfl (List.length_pos_iff.mpr s.ne_nil),
    results_many_lit (digit_decimal _) rfl (length_decimal _),
    results_many_lit (digit_decimal _) rfl (length_decimal _), hassoc,
    results_many_lit havg rfl hlen, hlast]
  rfl

/-- **Nothing in a histogram's line matches**: what follows its prefix is no name. -/
theorem search_hist {p : List Char} (hp : ∀ c ∈ p, isWordChar c = true) (hne : p ≠ [])
    {l : List Char} (hl : '[' ∉ l) :
    search PERF (['['] ++ (p ++ ([']', ' ', 'h', 'i', 's', 't', ' '] ++ l))) = none := by
  have hhist : ['h', 'i', 's', 't'].all isWordChar = true := by decide
  have hfront : results PERF ('[' :: (p ++ ([']', ' ', 'h', 'i', 's', 't', ' '] ++ l))) = [] := by
    rw [PERF]
    change results (lit ['['] ++ _)
      (['['] ++ (p ++ ([']', ' '] ++ (['h', 'i', 's', 't'] ++ ' ' :: l)))) = _
    rw [results_lit, results_many_lit hp rfl (List.length_pos_iff.mpr hne),
      results_many_lit_of_ne (List.all_eq_true.mp hhist) rfl rfl (by decide) (by decide),
      List.map_nil]
  have hrest : ∀ d ∈ p ++ ([']', ' ', 'h', 'i', 's', 't', ' '] ++ l), (d == '[') = false := by
    intro d hd
    refine beq_false_of_ne ?_
    rintro rfl
    rcases List.mem_append.mp hd with hd | hd
    · exact absurd (hp _ hd) (by decide)
    · rcases List.mem_append.mp hd with hd | hd
      · exact absurd hd (by decide)
      · exact hl hd
  exact (search_cons_of_not hfront).trans (search_none hrest)

/-! ## Stamps -/

/-- **What the serial tool puts in front of a line**: `H:M:S:ms -> `. -/
structure Stamp where
  h : Digits
  mi : Digits
  s : Digits
  ms : Digits

/-- A line behind its stamp, if it has one. -/
def stamped : Option Stamp → List Char → List Char
  | none, l => l
  | some st, l => st.h.chars ++ ([':'] ++ (st.mi.chars ++ ([':'] ++ (st.s.chars ++ ([':'] ++
      (st.ms.chars ++ ([' ', '-', '>', ' '] ++ l)))))))

/-- The number. -/
def Digits.val (d : Digits) : ℕ := Nat.ofDigitChars 10 d.chars 0

/-- The time of day it says. -/
def Stamp.time (st : Stamp) : ℤ :=
  ((st.h.val * 60 + st.mi.val) * 60 + st.s.val) * 1000 + st.ms.val

/-- `int` takes its numbers. -/
def Stamp.Short (st : Stamp) : Prop :=
  ∀ d ∈ [st.h.chars, st.mi.chars, st.s.chars, st.ms.chars], d.length ≤ defaultMaxStrDigits

/-- **A stamp is found**, and what is behind it. -/
theorem matchFront_stamped (st : Stamp) {l : List Char} (hl : '\n' ∉ l) :
    matchFront TS (stamped (some st) l) =
      some [st.h.chars, st.mi.chars, st.s.chars, st.ms.chars, l] := by
  have hd (d : Digits) : 1 ≤ d.chars.length := List.length_pos_iff.mpr d.ne_nil
  have hall : ∀ d ∈ l, (d != '\n') = true := by
    intro d hd
    refine bne_iff_ne.mpr ?_
    rintro rfl
    exact hl hd
  rw [matchFront, stamped, TS, results_many_lit st.h.digit rfl (hd _),
    results_many_lit st.mi.digit rfl (hd _), results_many_lit st.s.digit rfl (hd _),
    results_many_lit st.ms.digit rfl (hd _)]
  have hrest := results_rest (a := fun l => decide (l = []) || decide (l = ['\n'])) hall rfl
  simp only [List.head?_map, hrest, Option.map_some]
  rfl

/-- **A stamp is read** if `int` takes its numbers. -/
theorem now_some {st : Stamp} (h : st.Short) {l : List Char} (hl : '\n' ∉ l) (synthT : ℤ) :
    now synthT (stamped (some st) l) = some (st.time, l, true) :=
  now_of_le (matchFront_stamped st hl) h synthT

/-- **What is behind the stamp is found**, and a line without one is left as it is. -/
theorem unstamped_stamped (st : Option Stamp) {l : List Char} (hl : '\n' ∉ l) :
    unstamped (stamped st ('[' :: l)) = '[' :: l := by
  cases st with
  | none =>
    have h : results TS ('[' :: l) = [] := results_many_of_not rfl
    rw [unstamped, matchFront, stamped, h]
    rfl
  | some st =>
    rw [unstamped, matchFront_stamped st (List.not_mem_cons_of_ne_of_not_mem (by decide) hl)]

/-! ## The lines of a capture -/

/-- **A line of a capture**: that of a slot, that of a histogram, or any other in which the reducer
finds no slot. -/
inductive Entry where
  | slot (st : Option Stamp) (p s : Word) (k : PerfCounter)
  | hist (st : Option Stamp) (p s : Word) (ph : PerfHist)
  | other (raw : List UInt8) (h : search PERF (unstamped (text raw)) = none)

/-- The line, as it stands in the file. -/
def Entry.raw : Entry → List UInt8
  | .slot st p s k => bytes (stamped st (slotText p.chars s.chars k) ++ ['\n'])
  | .hist st p s ph => bytes (stamped st (histText p.chars s.chars ph) ++ ['\n'])
  | .other raw _ => raw

/-- What it says about the slots of a prefix. -/
def Entry.samples (pfx : List Char) : Entry → List (List Char × Sample)
  | .slot _ p s k =>
    if p.chars = pfx then
      [(s.chars, ⟨k.pcCount.toNat, k.pcSumUs.toNat, k.pcMaxUs.toNat⟩)]
    else []
  | _ => []

theorem ascii_stamped (st : Option Stamp) (h : Ascii l) : Ascii (stamped st l) := by
  cases st with
  | none => exact h
  | some st =>
    have hd (d : Digits) : Ascii d.chars :=
      ascii_of_word fun c hc => isWordChar_of_isDigit (d.digit c hc)
    exact (hd st.h).append (Ascii.append (by decide) ((hd st.mi).append (Ascii.append (by decide)
      ((hd st.s).append (Ascii.append (by decide)
        ((hd st.ms).append (Ascii.append (by decide) h)))))))

theorem newline_notMem_stamped (st : Option Stamp) (h : '\n' ∉ l) : '\n' ∉ stamped st l := by
  cases st with
  | none => exact h
  | some st =>
    have hd (d : Digits) : '\n' ∉ d.chars := fun hc => absurd (d.digit _ hc) (by decide)
    exact List.not_mem_append (hd st.h) (List.not_mem_append (by decide) (List.not_mem_append
      (hd st.mi) (List.not_mem_append (by decide) (List.not_mem_append (hd st.s)
        (List.not_mem_append (by decide) (List.not_mem_append (hd st.ms)
          (List.not_mem_append (by decide) h)))))))

theorem dark_stamped (st : Option Stamp) (h : l ≠ [] ∧ Dark l) : Dark (stamped st l) := by
  cases st with
  | none => exact h.2
  | some st =>
    exact (dark_right (dark_right (dark_right (dark_right (dark_right (dark_right (dark_right
      (dark_right h)))))))).2

theorem made_slotText (p s : Word) (k : PerfCounter) :
    Made ['[', ']', ' ', ':', '=', '.'] (slotText p.chars s.chars k) := by
  have hd (v : BitVec 32) : Made ['[', ']', ' ', ':', '=', '.'] (decimal v) :=
    made_of_word (word_decimal v)
  exact Made.append (by decide) ((made_of_word p.word).append (Made.append (by decide)
    ((made_of_word s.word).append (Made.append (by decide) ((hd _).append (Made.append (by decide)
      ((hd _).append (Made.append (by decide) ((hd _).append (Made.append (by decide)
        ((hd _).append (Made.append (by decide) ((hd _).append (by decide))))))))))))))

theorem dark_slotText (p s : Word) (k : PerfCounter) :
    slotText p.chars s.chars k ≠ [] ∧ Dark (slotText p.chars s.chars k) :=
  dark_right (dark_right (dark_right (dark_right (dark_right (dark_right (dark_right (dark_right
    (dark_right (dark_right (dark_right (dark_right (dark_right (dark_right
      ⟨by decide, by decide⟩)))))))))))))

/-- What is printed of the buckets. -/
theorem made_bucketText (ph : PerfHist) (i : ℕ) :
    Made [' ', ':', '=', '<', '>'] (bucketText ph i) ∧ Dark (bucketText ph i) := by
  have hd (v : BitVec 32) : Made [' ', ':', '=', '<', '>'] (decimal v) :=
    made_of_word (word_decimal v)
  have hdark (v : BitVec 32) : decimal v ≠ [] ∧ Dark (decimal v) :=
    ⟨Nat.toDigits_ne_nil, dark_of_word (word_decimal v)⟩
  rw [bucketText]
  split
  · exact ⟨by decide, by decide⟩
  · split
    · exact ⟨Made.append (by decide) ((hd _).append (Made.append (by decide) (hd _))),
        (dark_right (dark_right (dark_right (hdark _)))).2⟩
    · exact ⟨Made.append (by decide) ((hd _).append (Made.append (by decide) (hd _))),
        (dark_right (dark_right (dark_right (hdark _)))).2⟩

theorem made_buckets (ph : PerfHist) (is : List ℕ) :
    Made [' ', ':', '=', '<', '>'] (is.flatMap (bucketText ph)) ∧
      Dark (is.flatMap (bucketText ph)) := by
  induction is with
  | nil => exact ⟨fun c hc => absurd hc List.not_mem_nil, rfl⟩
  | cons i is ih =>
    rw [List.flatMap_cons]
    exact ⟨(made_bucketText ph i).1.append ih.1, (made_bucketText ph i).2.append ih.2⟩

/-- A histogram's line behind its prefix. -/
theorem histText_eq (p s : Word) (ph : PerfHist) : ∃ t,
    histText p.chars s.chars ph = ['['] ++ (p.chars ++ ([']', ' ', 'h', 'i', 's', 't', ' '] ++ t)) ∧
      Made [' ', ':', '=', '<', '>'] t ∧ t ≠ [] ∧ Dark t := by
  obtain ⟨hmade, hdark⟩ := made_buckets ph (List.range (ph.phNbounds + 1))
  have hd : Dark (decimal (samples ph)) := dark_of_word (word_decimal _)
  have hne : decimal (samples ph) ++ (List.range (ph.phNbounds + 1)).flatMap
    (bucketText ph) ≠ [] :=
    List.append_ne_nil_of_left_ne_nil Nat.toDigits_ne_nil _
  exact ⟨_, rfl, (made_of_word s.word).append (Made.append (by decide)
    ((made_of_word (word_decimal _)).append hmade)), dark_right (dark_right ⟨hne, hd.append hdark⟩)⟩

/-! ## What one line does -/

/-- What the reducer finds in a line. -/
def Entry.found : Entry → Option (List (List Char))
  | .slot _ p s k =>
    some [p.chars, s.chars, decimal k.pcCount, decimal k.pcSumUs, decimal k.pcMaxUs]
  | _ => none

/-- A slot's line is read as it was printed. -/
theorem text_slot (st : Option Stamp) (p s : Word) (k : PerfCounter) :
    text (Entry.slot st p s k).raw = stamped st (slotText p.chars s.chars k) := by
  rw [Entry.raw, text_bytes (ascii_stamped st ((made_slotText p s k).ascii (by decide)))
    (dark_stamped st (dark_slotText p s k))]

theorem newline_notMem_slotText (p s : Word) (k : PerfCounter) :
    '\n' ∉ slotText p.chars s.chars k := (made_slotText p s k).notMem rfl (by decide)

/-- **What the reducer reads of a line**: the samples of a slot, and nothing of any other line. -/
theorem search_entry (e : Entry) : search PERF (unstamped (text e.raw)) = e.found := by
  cases e with
  | slot st p s k =>
    rw [text_slot, show slotText p.chars s.chars k = '[' :: _ from rfl, unstamped_stamped st]
    · exact search_of_results (results_slotText p s k)
    · exact fun h => newline_notMem_slotText p s k (List.mem_cons_of_mem _ h)
  | hist st p s ph =>
    obtain ⟨t, ht, hmade, hdark⟩ := histText_eq p s ph
    have hnot : '[' ∉ t := hmade.notMem rfl (by decide)
    have hnl : '\n' ∉ p.chars ++ ([']', ' ', 'h', 'i', 's', 't', ' '] ++ t) := fun h => by
      rcases List.mem_append.mp h with h | h
      · exact absurd (p.word _ h) (by decide)
      · rcases List.mem_append.mp h with h | h
        · exact absurd h (by decide)
        · exact hmade.notMem rfl (by decide) h
    have hascii : Ascii (['['] ++ (p.chars ++ ([']', ' ', 'h', 'i', 's', 't', ' '] ++ t))) :=
      Ascii.append (by decide) ((ascii_of_word p.word).append
        (Ascii.append (by decide) (hmade.ascii (by decide))))
    rw [Entry.raw, ht, text_bytes (ascii_stamped st hascii)
      (dark_stamped st (dark_right (dark_right (dark_right hdark)))),
      List.singleton_append, unstamped_stamped st hnl]
    exact search_hist p.word p.ne_nil hnot
  | other raw h => exact h

/-! ## Windows -/

/-- **The slots of the windows**, one window after another. -/
def recorded (wins : List Window) : List (List Char × Sample) := wins.flatMap Window.slots

/-- No slot is twice in a window. -/
def Distinct (wins : List Window) : Prop := ∀ w ∈ wins, (w.slots.map Prod.fst).Nodup

/-- A slot that is new in a window is put behind the others. -/
theorem setSlot_of_new {slots : List (List Char × Sample)} {name : List Char} {v : Sample}
    (h : slots.any (·.1 == name) = false) : setSlot slots name v = slots ++ [(name, v)] :=
  if_neg (h ▸ Bool.false_ne_true)

/-- **A slot goes into the last window if it is new there**, and none is lost. -/
theorem recorded_put {wins : List Window} {name : List Char} {v : Sample} {cur : Window}
    (hlast : wins.getLast? = some cur) (hnew : cur.slots.any (·.1 == name) = false)
    (hd : Distinct wins) :
    recorded (wins.modifyLast fun cur => { cur with slots := setSlot cur.slots name v }) =
        recorded wins ++ [(name, v)] ∧
      Distinct (wins.modifyLast fun cur => { cur with slots := setSlot cur.slots name v }) := by
  obtain ⟨init, rfl⟩ := List.getLast?_eq_some_iff.mp hlast
  rw [List.modifyLast_concat, setSlot_of_new hnew]
  refine ⟨?_, fun w hw => ?_⟩
  · rw [recorded, recorded, List.flatMap_append, List.flatMap_append, List.flatMap_singleton,
      List.flatMap_singleton, List.append_assoc]
  · rcases List.mem_append.mp hw with hw | hw
    · exact hd w (List.mem_append_left _ hw)
    · obtain rfl := List.mem_singleton.mp hw
      change ((cur.slots ++ [(name, v)]).map Prod.fst).Nodup
      rw [List.map_append, List.map_singleton]
      refine List.Nodup.append (hd cur (List.mem_append_right _ (List.mem_singleton_self cur)))
        (List.nodup_singleton _) ?_
      intro x hx hx'
      obtain rfl := List.mem_singleton.mp hx'
      obtain ⟨e, he, rfl⟩ := List.mem_map.mp hx
      have := List.any_eq_false.mp hnew e he
      exact this (beq_self_eq_true e.1)

/-- A new window holds nothing yet. -/
theorem recorded_open {wins : List Window} (t : ℤ) (hd : Distinct wins) :
    recorded (wins ++ [⟨t, []⟩]) = recorded wins ∧ Distinct (wins ++ [⟨t, []⟩]) := by
  refine ⟨?_, fun w hw => ?_⟩
  · rw [recorded, List.flatMap_append, List.flatMap_singleton, List.append_nil, recorded]
  · rcases List.mem_append.mp hw with hw | hw
    · exact hd w hw
    · obtain rfl := List.mem_singleton.mp hw
      exact List.nodup_nil

/-- The window a slot goes into is one it is new in. -/
theorem recorded_slot {wins : List Window} {name : List Char} {v : Sample} {fresh : Bool} (t : ℤ)
    (late : Window → Bool) (hfresh : fresh = match wins.getLast? with
      | none => true
      | some cur => cur.slots.any (·.1 == name) || late cur)
    (hd : Distinct wins) :
    recorded ((if fresh then wins ++ [⟨t, []⟩] else wins).modifyLast fun cur =>
        { cur with slots := setSlot cur.slots name v }) = recorded wins ++ [(name, v)] ∧
      Distinct ((if fresh then wins ++ [⟨t, []⟩] else wins).modifyLast fun cur =>
        { cur with slots := setSlot cur.slots name v }) := by
  cases fresh with
  | true =>
    obtain ⟨hrec, hdist⟩ := recorded_open t hd
    rw [if_pos rfl, ← hrec]
    exact recorded_put List.getLast?_concat rfl hdist
  | false =>
    rw [if_neg Bool.false_ne_true]
    cases hlast : wins.getLast? with
    | none =>
      rw [hlast] at hfresh
      exact absurd hfresh Bool.false_ne_true
    | some cur =>
      rw [hlast] at hfresh
      exact recorded_put hlast (Bool.or_eq_false_iff.mp hfresh.symm).1 hd

/-- **A slot's samples go behind those of its prefix.** -/
theorem put_recorded {st : Reading} (t : ℤ) (stamped : Bool) (p name : List Char) (v : Sample)
    (hd : ∀ pfx, Distinct (st.windows pfx)) (pfx : List Char) :
    recorded ((put st t stamped p name v).windows pfx) =
        recorded (st.windows pfx) ++ (if p = pfx then [(name, v)] else []) ∧
      Distinct ((put st t stamped p name v).windows pfx) := by
  rw [put]
  dsimp only
  by_cases hp : p = pfx
  · subst hp
    rw [Function.update_self, if_pos rfl]
    exact recorded_slot _ (fun cur => stamped && t - cur.t > WINDOW_GAP_MS) rfl (hd p)
  · rw [Function.update_of_ne (Ne.symm hp), if_neg hp, List.append_nil]
    exact ⟨rfl, hd pfx⟩

/-- **One line**: its samples are put behind those of its prefix, and nothing else moves, unless its
stamp is too long. -/
theorem parseLine_eq (e : Entry) (st : Reading) (hd : ∀ pfx, Distinct (st.windows pfx)) :
    (Overlong e.raw ∧ parseLine st e.raw = none) ∨
      (¬Overlong e.raw ∧ ∃ st', parseLine st e.raw = some st' ∧
        ∀ pfx, recorded (st'.windows pfx) = recorded (st.windows pfx) ++ e.samples pfx ∧
          Distinct (st'.windows pfx)) := by
  have hfound := search_entry e
  rcases now_cases e.raw st.synthT with ⟨hlong, hnow⟩ | ⟨hlong, t, stamped, hnow⟩
  · refine .inl ⟨hlong, ?_⟩
    rw [parseLine, hnow]
    rfl
  · refine .inr ⟨hlong, ?_⟩
    rw [parseLine, hnow]
    simp only [Option.bind_eq_bind, Option.bind_some, hfound]
    cases e with
    | slot _ p s k =>
      simp only [Entry.found, int_decimal, Option.bind_some]
      exact ⟨_, rfl, put_recorded t stamped p.chars s.chars _ hd⟩
    | hist _ p s ph => exact ⟨_, rfl, fun pfx => ⟨(List.append_nil _).symm, hd pfx⟩⟩
    | other raw h => exact ⟨_, rfl, fun pfx => ⟨(List.append_nil _).symm, hd pfx⟩⟩

/-! ## A whole capture -/

/-- **The run**: what is recorded for a prefix is what its lines say, in their order, and a capture
is not read exactly if it has a stamp that is too long. -/
theorem foldlM_parseLine (capture : List Entry) (st : Reading)
    (hd : ∀ pfx, Distinct (st.windows pfx)) :
    ((capture.map Entry.raw).foldlM parseLine st = none ↔ ∃ e ∈ capture, Overlong e.raw) ∧
      ∀ st', (capture.map Entry.raw).foldlM parseLine st = some st' →
        ∀ pfx, recorded (st'.windows pfx) =
            recorded (st.windows pfx) ++ capture.flatMap (Entry.samples pfx) ∧
          Distinct (st'.windows pfx) := by
  induction capture generalizing st with
  | nil =>
    refine ⟨iff_of_false (Option.some_ne_none st) fun ⟨e, he, _⟩ => absurd he List.not_mem_nil, ?_⟩
    rintro _ ⟨⟩ pfx
    exact ⟨(List.append_nil _).symm, hd pfx⟩
  | cons e capture ih =>
    simp only [List.map_cons, List.foldlM_cons, List.mem_cons, exists_eq_or_imp]
    rcases parseLine_eq e st hd with ⟨hlong, hnone⟩ | ⟨hlong, next, hnext, hrec⟩
    · rw [hnone]
      exact ⟨iff_of_true rfl (.inl hlong), fun _ h => absurd h.symm (Option.some_ne_none _)⟩
    · rw [hnext, Option.bind_eq_bind, Option.bind_some, or_iff_right hlong]
      obtain ⟨hnone, hsome⟩ := ih next fun pfx => (hrec pfx).2
      refine ⟨hnone, fun st' h pfx => ⟨?_, (hsome st' h pfx).2⟩⟩
      rw [(hsome st' h pfx).1, (hrec pfx).1, List.flatMap_cons, List.append_assoc]

/-- `w["slots"].get(name, (0, 0, 0))`. -/
def Window.get (w : Window) (name : List Char) : Sample := (w.slots.lookup name).getD ⟨0, 0, 0⟩

/-- In a window, a slot's number is the sum of the numbers recorded for it. -/
theorem get_eq_sum {slots : List (List Char × Sample)} (name : List Char) (f : Sample → ℕ)
    (h0 : f ⟨0, 0, 0⟩ = 0) (hd : (slots.map Prod.fst).Nodup) :
    f ((slots.lookup name).getD ⟨0, 0, 0⟩) =
      ((slots.filter (·.1 == name)).map fun e => f e.2).sum := by
  induction slots with
  | nil => exact h0
  | cons e slots ih =>
    rw [List.map_cons, List.nodup_cons] at hd
    obtain ⟨hnot, hd⟩ := hd
    by_cases he : e.1 = name
    · have hnone : slots.filter (·.1 == name) = [] := List.filter_eq_nil_iff.mpr fun d hd hdn =>
        hnot (List.mem_map.mpr ⟨d, hd, (beq_iff_eq.mp hdn).trans he.symm⟩)
      have hpos : (e.1 == name) = true := beq_iff_eq.mpr he
      have hpos' : (name == e.1) = true := beq_iff_eq.mpr he.symm
      rw [List.filter_cons_of_pos ( p := fun x : List Char × Sample => x.1 == name) hpos, hnone,
        List.map_singleton,
        List.sum_singleton, List.lookup_cons, hpos']
      rfl
    · have hne : (name == e.1) = false := beq_false_of_ne (Ne.symm he)
      have hneg : ¬(e.1 == name) = true := fun h => he (beq_iff_eq.mp h)
      rw [List.filter_cons_of_neg ( p := fun x : List Char × Sample => x.1 == name) hneg, ← ih hd,
        List.lookup_cons, hne]

/-- **Over all windows**, a slot's numbers add up to what was recorded for it. -/
theorem sum_windows {wins : List Window} (name : List Char) (f : Sample → ℕ)
    (h0 : f ⟨0, 0, 0⟩ = 0) (hd : Distinct wins) :
    (wins.map fun w => f (w.get name)).sum =
      (((recorded wins).filter (·.1 == name)).map fun e => f e.2).sum := by
  induction wins with
  | nil => rfl
  | cons w wins ih =>
    have hcons : recorded (w :: wins) = w.slots ++ recorded wins := List.flatMap_cons
    rw [List.map_cons, List.sum_cons, ih fun v hv => hd v (List.mem_cons_of_mem w hv), hcons,
      List.filter_append, List.map_append, List.sum_append, Window.get,
      get_eq_sum name f h0 (hd w List.mem_cons_self)]

/-- **The reducer reads back everything the reporters print**: each report prints the lines of its
slots and each histogram its line, and of a capture made of such lines, with stamps or without, and
of others in which there is no slot, every slot line is recorded once, in the order of the capture,
and nothing else is, unless a stamp has a number that `int` does not take. -/
theorem reports_read_back {σ : Type} (sink : Sink σ) (named : BitVec 32 → List Char) (n : ℕ)
    (file : List UInt8) (capture : List Entry) (hn : 2 ^ 32 ≤ n)
    (hfile : lines 0x0a file = capture.map Entry.raw) :
    (∀ (pf : Perf) (out : σ), Names sink.mem pf.pfPrefix (named pf.pfPrefix) →
      (∀ s ∈ pf.pfSlots, Names sink.mem s.1 (named s.1)) →
      (perfReport sink n pf out).map Prod.fst =
        some (sink.engine.puts (bytes (reportText named pf)) out)) ∧
    (∀ (ph : PerfHist) (out : σ), Names sink.mem ph.phPrefix (named ph.phPrefix) →
      Names sink.mem ph.phName (named ph.phName) → samples ph ≠ 0 →
      (perfHistReport sink n ph out).map Prod.fst = some (sink.engine.puts
        (bytes (histText (named ph.phPrefix) (named ph.phName) ph ++ ['\n'])) out)) ∧
    (parse file = none ↔ ∃ e ∈ capture, Overlong e.raw) ∧
    ∀ read, parse file = some read → ∀ pfx,
      recorded (read.windows pfx) = capture.flatMap (Entry.samples pfx) ∧
      Distinct (read.windows pfx) ∧
      ∀ name,
        ((read.windows pfx).map fun w => (w.get name).n).sum =
          (((capture.flatMap (Entry.samples pfx)).filter (·.1 == name)).map fun e => e.2.n).sum ∧
        ((read.windows pfx).map fun w => (w.get name).su).sum =
          (((capture.flatMap (Entry.samples pfx)).filter (·.1 == name)).map
            fun e => e.2.su).sum := by
  obtain ⟨hnone, hsome⟩ := foldlM_parseLine capture ⟨fun _ => [], 0, false⟩
    fun _ w hw => absurd hw List.not_mem_nil
  rw [← hfile] at hnone hsome
  refine ⟨fun pf out hp hs => ?_, fun ph out hp hs h0 => perfHistReport_puts hp hs h0 hn, hnone,
    fun read hread pfx => ?_⟩
  · rw [perfReport_puts hp hs hn]
    rfl
  · obtain ⟨hrec, hdist⟩ := hsome read hread pfx
    have hrec : recorded (read.windows pfx) = capture.flatMap (Entry.samples pfx) := hrec
    refine ⟨hrec, hdist, fun name => ⟨?_, ?_⟩⟩
    · rw [sum_windows name Sample.n rfl hdist, hrec]
    · rw [sum_windows name Sample.su rfl hdist, hrec]

/-- A word of one character. -/
def Word.single (c : Char) (h : isWordChar c = true) : Word :=
  ⟨[c], List.cons_ne_nil c [], List.forall_mem_singleton.mpr h⟩

/-- A number of ones. -/
def Digits.ones (n : ℕ) : Digits :=
  ⟨List.replicate (n + 1) '1', List.cons_ne_nil _ _, fun _ hc => List.eq_of_mem_replicate hc ▸ rfl⟩

/-- A stamped line of a slot, a histogram's, a line of another kind, and the slot's again. -/
def mixed : List Entry :=
  [.slot (some ⟨.ones 0, .ones 0, .ones 0, .ones 0⟩) (.single 'p' rfl) (.single 'a' rfl)
      ⟨3, 30, 20⟩,
    .hist none (.single 'p' rfl) (.single 'h' rfl) ⟨0, 0, fun _ => 4, fun _ => 2, 1⟩,
    .other (bytes ['n', 'o', 'i', 's', 'e', '\n']) rfl,
    .slot none (.single 'p' rfl) (.single 'a' rfl) ⟨1, 7, 7⟩]

theorem reports_read_back_twice : ∃ read, parse (mixed.map Entry.raw).flatten = some read ∧
    recorded (read.windows ['p']) = [(['a'], ⟨3, 30, 20⟩), (['a'], ⟨1, 7, 7⟩)] := by
  obtain ⟨read, hread⟩ := Option.isSome_iff_exists.mp
    (by decide +kernel : (parse (mixed.map Entry.raw).flatten).isSome = true)
  refine ⟨read, hread, ?_⟩
  rw [((reports_read_back ⟨List.cons, fun _ => 0⟩ (fun _ => []) (2 ^ 32) _ mixed le_rfl
    (by decide +kernel)).2.2.2 read hread ['p']).1]
  decide +kernel

/-! ## A number that `int` does not take -/

/-- A stamp whose hour has 4301 digits. -/
def longStamp : Stamp := ⟨.ones 4300, .ones 0, .ones 0, .ones 0⟩

/-- A line behind it. -/
def noise : List Char := stamped (some longStamp) ['x']

theorem ascii_noise : Ascii noise := ascii_stamped _ (by decide)

theorem text_noise : text (bytes (noise ++ ['\n'])) = noise :=
  text_bytes ascii_noise (dark_stamped _ ⟨List.cons_ne_nil 'x' [], by decide⟩)

theorem matchFront_noise :
    matchFront TS noise = some [List.replicate 4301 '1', ['1'], ['1'], ['1'], ['x']] :=
  matchFront_stamped longStamp (by decide)

theorem search_noise : search PERF (unstamped (text (bytes (noise ++ ['\n'])))) = none := by
  rw [text_noise, unstamped, matchFront_noise]
  rfl

/-- The line of a slot, and this line behind it. -/
def noisy : List Entry :=
  [.slot none (.single 'p' rfl) (.single 'a' rfl) ⟨3, 30, 20⟩,
    .other (bytes (noise ++ ['\n'])) search_noise]

theorem lines_noisy : lines 0x0a (noisy.map Entry.raw).flatten = noisy.map Entry.raw := by
  have hnoise : 0x0a ∉ bytes noise :=
    newline_notMem_bytes ascii_noise (newline_notMem_stamped _ (by decide))
  have hslot : 0x0a ∉ bytes (slotText ['p'] ['a'] ⟨3, 30, 20⟩) :=
    newline_notMem_bytes ((made_slotText (.single 'p' rfl) (.single 'a' rfl) ⟨3, 30, 20⟩).ascii
      (by decide)) (newline_notMem_slotText (.single 'p' rfl) (.single 'a' rfl) _)
  have hraw : noisy.map Entry.raw = [bytes (slotText ['p'] ['a'] ⟨3, 30, 20⟩) ++ [0x0a],
      bytes noise ++ [0x0a]] := by
    simp only [noisy, List.map_cons, List.map_nil, Entry.raw, bytes, List.map_append]
    rfl
  rw [hraw, List.flatten_cons, List.flatten_singleton, lines_line hslot]
  exact congrArg _ ((congrArg _ (List.append_nil _).symm).trans (lines_line hnoise []))

/-- **Not every capture is read**: a slot's line is lost with all others where a line of another
kind looks like a stamp whose hour has 4301 digits. -/
theorem reports_not_read_back :
    noisy.flatMap (Entry.samples ['p']) = [(['a'], ⟨3, 30, 20⟩)] ∧
      lines 0x0a (noisy.map Entry.raw).flatten = noisy.map Entry.raw ∧
      parse (noisy.map Entry.raw).flatten = none := by
  refine ⟨rfl, lines_noisy, ?_⟩
  rw [parse, lines_noisy]
  refine (foldlM_parseLine noisy _ fun _ w hw => absurd hw List.not_mem_nil).1.mpr
    ⟨_, List.mem_cons_of_mem _ (List.mem_singleton_self _), ?_⟩
  refine ⟨_, _, _, _, _, (congrArg _ text_noise).trans matchFront_noise, _, List.mem_cons_self, ?_⟩
  rw [List.length_replicate]
  decide

end PerfLog
