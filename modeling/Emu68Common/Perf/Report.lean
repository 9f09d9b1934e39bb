import Emu68Common.Text.Printf

/-!
# Perf/Report — `perf_report` and `perf_hist_report`

A component's samples go out as lines of text, one for each slot that has any, and one for each
histogram.  What a line reads is `slotText` and `histText`; `perfReport_puts` and
`perfHistReport_puts`: that is what the stack's own formatter makes of them.

    Sink σ            where debug output goes, and the memory its strings stand in
    PrintPistorm      one formatted print
    slotText p n c    the line of a slot
    histText p n h    the line of a histogram
-/

namespace PerfLog

open Machinery Printf

variable {σ : Type}

/-! ## Printing -/

/-- Where debug output goes, and the memory its strings stand in. -/
structure Sink (σ : Type) where
  putch : UInt8 → σ → σ
  mem : Block

/-- `fmt_vformat` over a `va_list` of 32-bit cells. -/
def Sink.engine (sink : Sink σ) : Engine σ (List (BitVec 32)) where
  putch := sink.putch
  next ap := (ap.headD 0, ap.tail)
  mem := sink.mem

/-- The bytes of a text. -/
def bytes (s : List Char) : List UInt8 := s.map Char.toUInt8

/-- `PrintPistorm(fmt, ...)`, if so many steps are enough for it. -/
def printPistorm (sink : Sink σ) (n : ℕ) (fmt : String) (args : List (BitVec 32)) (out : σ) :
    Option σ :=
  (fmtCore sink.engine n (bytes fmt.toList) out args).map Prod.fst

/-! ## The reporters -/

/-- `struct perf_counter`. -/
structure PerfCounter where
  pcCount : BitVec 32
  pcSumUs : BitVec 32
  pcMaxUs : BitVec 32
  deriving DecidableEq, Repr

/-- `struct perf`: each slot with its name. -/
structure Perf where
  pfPrefix : BitVec 32
  pfSlots : List (BitVec 32 × PerfCounter)

/-- The loop of `perf_report`. -/
def reportSlots (sink : Sink σ) (n : ℕ) ( pfPrefix : BitVec 32) :
    List (BitVec 32 × PerfCounter) → σ → Option (σ × List (BitVec 32 × PerfCounter))
  | [], out => some (out, [])
  | (name, c) :: slots, out =>
    if c.pcCount = 0 then do
      let (out, slots) ← reportSlots sink n pfPrefix slots out
      return (out, (name, c) :: slots)
    else do
      let out ← printPistorm sink n "[%s] %s: n=%lu sum=%luus avg=%lu.%luus max=%luus\n"
        [ pfPrefix, name, c.pcCount, c.pcSumUs, c.pcSumUs / c.pcCount,
          c.pcSumUs * 10 / c.pcCount % 10, c.pcMaxUs] out
      let (out, slots) ← reportSlots sink n pfPrefix slots out
      return (out, (name, ⟨0, 0, 0⟩) :: slots)

/-- `perf_report`. -/
def perfReport (sink : Sink σ) (n : ℕ) (pf : Perf) (out : σ) : Option (σ × Perf) := do
  let (out, slots) ← reportSlots sink n pf.pfPrefix pf.pfSlots out
  return (out, { pf with pfSlots := slots })

/-- `struct perf_hist`: `ph_nbounds` bounds, and a bucket for each and one more. -/
structure PerfHist where
  phPrefix : BitVec 32
  phName : BitVec 32
  phBounds : ℕ → BitVec 32
  phBuckets : ℕ → BitVec 32
  phNbounds : ℕ

/-- `for (i = 0; i <= ph_nbounds; i++) samples += ph_buckets[i];` -/
def samples (ph : PerfHist) : BitVec 32 :=
  (List.range (ph.phNbounds + 1)).foldl (fun samples i => samples + ph.phBuckets i) 0

/-- The second loop of `perf_hist_report`, and the buckets it leaves. -/
def reportBuckets (sink : Sink σ) (n : ℕ) (ph : PerfHist) :
    List ℕ → σ → (ℕ → BitVec 32) → Option (σ × (ℕ → BitVec 32))
  | [], out, buckets => some (out, buckets)
  | i :: is, out, buckets =>
    if buckets i = 0 then reportBuckets sink n ph is out buckets
    else if i < ph.phNbounds then do
      let out ← printPistorm sink n " <=%lu:%lu" [ph.phBounds i, buckets i] out
      reportBuckets sink n ph is out (Function.update buckets i 0)
    else do
      let out ← printPistorm sink n " >%lu:%lu"
        [ph.phBounds (BitVec.ofNat 32 i - 1).toNat, buckets i] out
      reportBuckets sink n ph is out (Function.update buckets i 0)

/-- `perf_hist_report`. -/
def perfHistReport (sink : Sink σ) (n : ℕ) (ph : PerfHist) (out : σ) : Option (σ × PerfHist) :=
  if samples ph = 0 then some (out, ph)
  else do
    let out ← printPistorm sink n "[%s] hist %s: n=%lu" [ ph.phPrefix, ph.phName, samples ph] out
    let (out, buckets) ←
      reportBuckets sink n ph (List.range (ph.phNbounds + 1)) out ph.phBuckets
    let out ← printPistorm sink n "\n" [] out
    return (out, { ph with phBuckets := buckets })

/-! ## What they print -/

/-- A number in decimal. -/
def decimal (v : BitVec 32) : List Char := Nat.toDigits 10 v.toNat

/-- The line of a slot, without its newline. -/
def slotText ( pfPrefix name : List Char) (c : PerfCounter) : List Char :=
  ['['] ++ ( pfPrefix ++ ([']', ' '] ++ (name ++ ([':', ' ', 'n', '='] ++ (decimal c.pcCount ++
    ([' ', 's', 'u', 'm', '='] ++ (decimal c.pcSumUs ++ (['u', 's', ' ', 'a', 'v', 'g', '='] ++
      (decimal (c.pcSumUs / c.pcCount) ++ (['.'] ++
        (decimal (c.pcSumUs * 10 / c.pcCount % 10) ++
          (['u', 's', ' ', 'm', 'a', 'x', '='] ++ (decimal c.pcMaxUs ++ ['u', 's'])))))))))))))

/-- What is printed of a bucket. -/
def bucketText (ph : PerfHist) (i : ℕ) : List Char :=
  if ph.phBuckets i = 0 then []
  else if i < ph.phNbounds then
    [' ', '<', '='] ++ (decimal (ph.phBounds i) ++ ([':'] ++ decimal (ph.phBuckets i)))
  else
    [' ', '>'] ++ (decimal (ph.phBounds (BitVec.ofNat 32 i - 1).toNat) ++
      ([':'] ++ decimal (ph.phBuckets i)))

/-- The line of a histogram, without its newline. -/
def histText ( phPrefix name : List Char) (ph : PerfHist) : List Char :=
  ['['] ++ ( phPrefix ++ ([']', ' ', 'h', 'i', 's', 't', ' '] ++ (name ++ ([':', ' ', 'n', '='] ++
    (decimal (samples ph) ++ (List.range (ph.phNbounds + 1)).flatMap (bucketText ph))))))

/-! ## Formats of plain strings and numbers -/

section Prints

variable {sink : Sink σ} {mem : Block} {n : ℕ} {as : List (BitVec 32)}

/-- What a plain format is made of, with the arguments it is given. -/
inductive Item where
  | text (s : List Char)
  | string (a : BitVec 32) (s : List Char)
  | number (a : BitVec 32)

/-- How it is written: as it is, `%s`, `%lu`. -/
def Item.pieces : Item → List Piece
  | .text s => s.map fun c => .lit c.toUInt8
  | .string _ _ => [.directive ⟨false, false, 0, none, some 's'.toUInt8⟩]
  | .number _ => [.directive ⟨false, false, 0, none, some 'u'.toUInt8⟩]

/-- The cells it takes. -/
def Item.cells : Item → List (BitVec 32)
  | .text _ => []
  | .string a _ => [a]
  | .number a => [a]

/-- What it prints. -/
def Item.chars : Item → List Char
  | .text s => s
  | .string _ s => s
  | .number a => decimal a

/-- A cell points to this text. -/
def Names (mem : Block) (a : BitVec 32) (s : List Char) : Prop :=
  a ≠ 0 ∧ mem.Text a.toNat (bytes s) ∧ s.length < 2 ^ 31

/-- Its string is where its cell points. -/
def Item.Ok (mem : Block) : Item → Prop
  | .string a s => Names mem a s
  | _ => True

/-- The cells of an argument list. -/
def cellsOf (as : List (BitVec 32)) (i : ℕ) : BitVec 32 := as.getD i 0

theorem supply_engine (as : List (BitVec 32)) : supply sink.engine.next as = cellsOf as := by
  funext i
  induction i generalizing as with
  | zero => cases as <;> rfl
  | succ i ih =>
    cases as with
    | nil => exact (ih []).trans rfl
    | cons a as => exact ih as

/-- What needs no filling. -/
theorem rendering_plain (body : List UInt8) (zeros : Bool) :
    Rendering.bytes ⟨false, body, 0, zeros⟩ false = body := by
  rw [Rendering.bytes]
  simp only [Bool.false_eq_true, if_false, List.length_nil, Nat.zero_sub, List.replicate_zero,
    List.nil_append, ite_self]

theorem Names.stringAt {a : BitVec 32} {s : List Char} (h : Names mem a s) :
    stringAt mem a = bytes s := by
  obtain ⟨h0, htext, hlen⟩ := h
  rw [Printf.stringAt, if_neg h0]
  exact htext.read_eq (by rw [bytes, List.length_map]; exact hlen.le)

/-- **A plain format prints its items.** -/
theorem render_items (items : List Item) (h : ∀ i ∈ items, i.Ok mem) :
    render mem (items.flatMap Item.pieces) (cellsOf (items.flatMap Item.cells)) =
      bytes (items.flatMap Item.chars) := by
  induction items with
  | nil => rfl
  | cons i items ih =>
    have ih := ih fun j hj => h j (List.mem_cons_of_mem i hj)
    rw [List.flatMap_cons, List.flatMap_cons, List.flatMap_cons, bytes, List.map_append]
    cases i with
    | text s =>
      clear h
      induction s with
      | nil => exact ih
      | cons c s ihs => exact congrArg (c.toUInt8 :: ·) ihs
    | string a s =>
      have hs : stringAt mem a = bytes s := Names.stringAt (h _ List.mem_cons_self)
      change Rendering.bytes ⟨false, stringAt mem a, 0, false⟩ false ++ render mem _ _ = _
      rw [rendering_plain, hs]
      exact congrArg (bytes s ++ ·) ih
    | number a =>
      change Rendering.bytes ⟨false, bytes (decimal a), 0, false⟩ false ++ render mem _ _ = _
      rw [rendering_plain]
      exact congrArg (bytes (decimal a) ++ ·) ih

theorem supplied_items (items : List Item) (h : ∀ i ∈ items, i.Ok mem) :
    Supplied mem (items.flatMap Item.pieces) (cellsOf (items.flatMap Item.cells)) := by
  induction items with
  | nil => trivial
  | cons i items ih =>
    have ih := ih fun j hj => h j (List.mem_cons_of_mem i hj)
    rw [List.flatMap_cons, List.flatMap_cons]
    cases i with
    | text s =>
      clear h
      induction s with
      | nil => exact ih
      | cons c s ihs => exact ihs
    | string a s =>
      obtain ⟨-, htext, hlen⟩ := h _ List.mem_cons_self
      exact ⟨fun _ _ => ⟨bytes s, htext, by rw [bytes, List.length_map]; exact hlen⟩, ih⟩
    | number a => exact ⟨fun h => absurd h (by decide), ih⟩

theorem puts_bytes (s t : List Char) (out : σ) : sink.engine.puts (bytes (s ++ t)) out =
    sink.engine.puts (bytes t) (sink.engine.puts (bytes s) out) := by
  rw [bytes, List.map_append, puts_append]
  rfl

/-- **One print** puts out the items its format is made of. -/
theorem printPistorm_eq {fmt : String} {out : σ} (items : List Item)
    (hps : pieces (bytes fmt.toList) = items.flatMap Item.pieces)
    (hnul : (0 : UInt8) ∉ bytes fmt.toList) (hsmall : ∀ p ∈ pieces (bytes fmt.toList), p.Small)
    (hlen : (bytes fmt.toList).length ≤ 99) (h : ∀ i ∈ items, i.Ok sink.mem) (hn : 2 ^ 32 ≤ n) :
    printPistorm sink n fmt (items.flatMap Item.cells) out =
      some (sink.engine.puts (bytes (items.flatMap Item.chars)) out) := by
  have hs : Supplied sink.engine.mem (pieces (bytes fmt.toList))
      (supply sink.engine.next (items.flatMap Item.cells)) := by
    rw [hps, supply_engine]
    exact supplied_items items h
  rw [printPistorm, fmtCore_eq out _ hnul (by omega) hsmall hs, hps, supply_engine]
  exact congrArg (fun l => some (sink.engine.puts l out)) (render_items items h)

/-! ## The lines -/

/-- What a slot's format is made of. -/
def slotItems ( pfPrefix name : BitVec 32) (p s : List Char) (c : PerfCounter) : List Item :=
  [.text ['['], .string pfPrefix p, .text [']', ' '], .string name s, .text [':', ' ', 'n', '='],
    .number c.pcCount, .text [' ', 's', 'u', 'm', '='], .number c.pcSumUs,
    .text ['u', 's', ' ', 'a', 'v', 'g', '='], .number (c.pcSumUs / c.pcCount), .text ['.'],
    .number (c.pcSumUs * 10 / c.pcCount % 10), .text ['u', 's', ' ', 'm', 'a', 'x', '='],
    .number c.pcMaxUs, .text ['u', 's', '\n']]

theorem print_slot { pfPrefix name : BitVec 32} {p s : List Char} {c : PerfCounter} {out : σ}
    (hp : Names sink.mem pfPrefix p) (hs : Names sink.mem name s) (hn : 2 ^ 32 ≤ n) :
    printPistorm sink n "[%s] %s: n=%lu sum=%luus avg=%lu.%luus max=%luus\n"
        [ pfPrefix, name, c.pcCount, c.pcSumUs, c.pcSumUs / c.pcCount,
          c.pcSumUs * 10 / c.pcCount % 10, c.pcMaxUs] out =
      some (sink.engine.puts (bytes (slotText p s c ++ ['\n'])) out) := by
  have hps : pieces (bytes "[%s] %s: n=%lu sum=%luus avg=%lu.%luus max=%luus\n".toList) =
      (slotItems 0 0 [] [] ⟨0, 0, 0⟩).flatMap Item.pieces := by decide +kernel
  have hok : ∀ i ∈ slotItems pfPrefix name p s c, i.Ok sink.mem := by
    simp only [slotItems, List.forall_mem_cons, List.not_mem_nil, false_imp_iff, implies_true,
      Item.Ok, true_and, and_true]
    exact ⟨hp, hs⟩
  have hchars : (slotItems pfPrefix name p s c).flatMap Item.chars = slotText p s c ++ ['\n'] := by
    simp only [slotItems, List.flatMap_cons, List.flatMap_nil, Item.chars, slotText,
      List.append_assoc]
    rfl
  rw [← hchars]
  exact printPistorm_eq (slotItems pfPrefix name p s c) hps (by decide +kernel)
    (by decide +kernel) (by decide +kernel) hok hn

variable {named : BitVec 32 → List Char}

/-- What a report prints, where cells name these texts. -/
def reportText (named : BitVec 32 → List Char) (pf : Perf) : List Char :=
  pf.pfSlots.flatMap fun s =>
    if s.2.pcCount = 0 then [] else slotText (named pf.pfPrefix) (named s.1) s.2 ++ ['\n']

/-- A slot without its samples. -/
def PerfCounter.cleared (c : PerfCounter) : PerfCounter := if c.pcCount = 0 then c else ⟨0, 0, 0⟩

/-- **A report prints the line of every slot that has samples**, and clears them. -/
theorem perfReport_puts {pf : Perf} {out : σ}
    (hp : Names sink.mem pf.pfPrefix (named pf.pfPrefix))
    (hs : ∀ s ∈ pf.pfSlots, Names sink.mem s.1 (named s.1)) (hn : 2 ^ 32 ≤ n) :
    perfReport sink n pf out = some (sink.engine.puts (bytes (reportText named pf)) out,
      { pf with pfSlots := pf.pfSlots.map fun s => (s.1, s.2.cleared) }) := by
  have hloop : ∀ slots : List (BitVec 32 × PerfCounter),
    (∀ s ∈ slots, Names sink.mem s.1 (named s.1)) →
      ∀ out : σ, reportSlots sink n pf.pfPrefix slots out =
        some (sink.engine.puts (bytes (slots.flatMap fun s => if s.2.pcCount = 0 then []
          else slotText (named pf.pfPrefix) (named s.1) s.2 ++ ['\n'])) out,
          slots.map fun s => (s.1, s.2.cleared)) := by
    intro slots hs
    induction slots with
    | nil => exact fun _ => rfl
    | cons s slots ih =>
      intro out
      obtain ⟨name, c⟩ := s
      have ih := ih fun s h => hs s (List.mem_cons_of_mem _ h)
      rw [reportSlots, List.flatMap_cons, List.map_cons, PerfCounter.cleared]
      by_cases hc : c.pcCount = 0
      · rw [if_pos hc, if_pos hc, if_pos hc, ih]
        rfl
      · rw [if_neg hc, if_neg hc, if_neg hc, print_slot hp (hs _ List.mem_cons_self) hn]
        simp only [Option.bind_eq_bind, Option.bind_some, ih]
        rw [puts_bytes (_ ++ ['\n'])]
        rfl
  rw [perfReport, hloop pf.pfSlots hs out]
  rfl

theorem print_bucket (pre : List Char) {fmt : String} {bound count : BitVec 32} {out : σ}
    (hps : pieces (bytes fmt.toList) =
      [Item.text pre, .number 0, .text [':'], .number 0].flatMap Item.pieces)
    (hnul : (0 : UInt8) ∉ bytes fmt.toList) (hsmall : ∀ p ∈ pieces (bytes fmt.toList), p.Small)
    (hlen : (bytes fmt.toList).length ≤ 99) (hn : 2 ^ 32 ≤ n) :
    printPistorm sink n fmt [bound, count] out =
      some (sink.engine.puts (bytes (pre ++ (decimal bound ++ ([':'] ++ decimal count)))) out) := by
  have hok : ∀ i ∈ [Item.text pre, .number bound, .text [':'], .number count], i.Ok sink.mem := by
    simp only [List.forall_mem_cons, List.not_mem_nil, false_imp_iff, implies_true, Item.Ok,
      and_self]
  have hchars : [Item.text pre, .number bound, .text [':'], .number count].flatMap Item.chars =
      pre ++ (decimal bound ++ ([':'] ++ decimal count)) := by
    simp only [List.flatMap_cons, List.flatMap_nil, Item.chars, List.append_nil]
  rw [← hchars]
  exact printPistorm_eq [.text pre, .number bound, .text [':'], .number count] hps hnul hsmall hlen
    hok hn

/-- The buckets a histogram has yet to report, from the buckets it still holds. -/
theorem reportBuckets_puts (sink : Sink σ) {ph : PerfHist} (hn : 2 ^ 32 ≤ n) (is : List ℕ)
    (hd : is.Nodup) (out : σ)
    (buckets : ℕ → BitVec 32) (hb : ∀ i ∈ is, buckets i = ph.phBuckets i) : ∃ left,
    reportBuckets sink n ph is out buckets =
      some (sink.engine.puts (bytes (is.flatMap (bucketText ph))) out, left) := by
  induction is generalizing out buckets with
  | nil => exact ⟨buckets, rfl⟩
  | cons i is ih =>
    obtain ⟨hi, hd⟩ := List.nodup_cons.mp hd
    have hb' : ∀ j ∈ is, buckets j = ph.phBuckets j := fun j hj => hb j (List.mem_cons_of_mem i hj)
    have hzero : ∀ j ∈ is, Function.update buckets i 0 j = ph.phBuckets j := fun j hj => by
      rw [Function.update_of_ne (ne_of_mem_of_not_mem hj hi), hb' j hj]
    rw [reportBuckets, List.flatMap_cons, bucketText, hb i List.mem_cons_self]
    by_cases h0 : ph.phBuckets i = 0
    · rw [if_pos h0, if_pos h0]
      exact ih hd out buckets hb'
    · rw [if_neg h0, if_neg h0]
      by_cases hlt : i < ph.phNbounds
      · rw [if_pos hlt, if_pos hlt, print_bucket [' ', '<', '='] (by decide +kernel)
          (by decide +kernel) (by decide +kernel) (by decide +kernel) hn,
            puts_bytes (_ ++ (_ ++ _))]
        exact ih hd _ _ hzero
      · rw [if_neg hlt, if_neg hlt, print_bucket [' ', '>'] (by decide +kernel)
          (by decide +kernel) (by decide +kernel) (by decide +kernel) hn,
            puts_bytes (_ ++ (_ ++ _))]
        exact ih hd _ _ hzero

/-- What the head of a histogram's line is made of. -/
def histItems ( phPrefix name : BitVec 32) (p s : List Char) (count : BitVec 32) : List Item :=
  [.text ['['], .string phPrefix p, .text [']', ' ', 'h', 'i', 's', 't', ' '], .string name s,
    .text [':', ' ', 'n', '='], .number count]

/-- **A histogram prints its line**, if it has samples. -/
theorem perfHistReport_puts {ph : PerfHist} {out : σ}
    (hp : Names sink.mem ph.phPrefix (named ph.phPrefix))
    (hs : Names sink.mem ph.phName (named ph.phName)) (hsamples : samples ph ≠ 0)
    (hn : 2 ^ 32 ≤ n) :
    (perfHistReport sink n ph out).map Prod.fst = some (sink.engine.puts
      (bytes (histText (named ph.phPrefix) (named ph.phName) ph ++ ['\n'])) out) := by
  have hps : pieces (bytes "[%s] hist %s: n=%lu".toList) =
      (histItems 0 0 [] [] 0).flatMap Item.pieces := by decide +kernel
  have hok : ∀ i ∈ histItems ph.phPrefix ph.phName (named ph.phPrefix) (named ph.phName)
      (samples ph), i.Ok sink.mem := by
    simp only [histItems, List.forall_mem_cons, List.not_mem_nil, false_imp_iff, implies_true,
      Item.Ok, true_and, and_true]
    exact ⟨hp, hs⟩
  have hhead : printPistorm sink n "[%s] hist %s: n=%lu" [ ph.phPrefix, ph.phName,
    samples ph] out =
      _ := printPistorm_eq (histItems ph.phPrefix ph.phName (named ph.phPrefix)
        (named ph.phName) (samples ph)) hps (by decide +kernel) (by decide +kernel)
          (by decide +kernel) hok hn
  obtain ⟨left, hbuckets⟩ := reportBuckets_puts sink hn (List.range (ph.phNbounds + 1))
    List.nodup_range (sink.engine.puts (bytes ((histItems ph.phPrefix ph.phName
      (named ph.phPrefix) (named ph.phName) (samples ph)).flatMap Item.chars)) out)
    ph.phBuckets fun _ _ => rfl
  have hend (out : σ) : printPistorm sink n "\n" [] out =
      some (sink.engine.puts (bytes ['\n']) out) :=
    printPistorm_eq [.text ['\n']] (by decide +kernel) (by decide +kernel) (by decide +kernel)
      (by decide +kernel) (fun i hi => by obtain rfl := List.mem_singleton.mp hi; trivial) hn
  rw [perfHistReport, if_neg hsamples, hhead]
  simp only [Option.bind_eq_bind, Option.bind_some, hbuckets, hend, Option.map_some,
    Option.pure_def,
    ← puts_bytes]
  simp only [histItems, histText, List.flatMap_cons, List.flatMap_nil, Item.chars,
    List.append_assoc, List.append_nil]

end Prints

end PerfLog
