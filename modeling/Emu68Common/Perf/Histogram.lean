import Emu68Common.Perf.Totals
import Mathlib.Algebra.BigOperators.Group.Finset.Piecewise

/-!
# Perf/Histogram — a distribution that is sampled and reported in any order

A sample goes into the first bucket whose bound it does not exceed, the last one being open.
Between two reports the buckets owe what they were given (`Tallies`), and a report pays it in one
line.  So a run prints a line for each report that finds samples, every sample stands in one line,
and the counts of a line are how many of its samples lie between two bounds (`hist_reports_exact`).

    perf_hist_add ph v     a sample
    HistRun sink n es      samples and reports
    histLine ph l          the line of these samples
-/

namespace PerfLog

open Machinery Printf

variable {σ : Type} {ph : PerfHist} {v : BitVec 32} {l : List (BitVec 32)} {n i j : ℕ}

/-! ## The source -/

/-- `while (i < ph->ph_nbounds && value > ph->ph_bounds[i]) i++;`, with so many bounds to go. -/
def bucketLoop (phBounds : ℕ → BitVec 32) (value : BitVec 32) : ℕ → ℕ → ℕ
  | 0, i => i
  | left + 1, i => if value > phBounds i then bucketLoop phBounds value left (i + 1) else i

/-- `perf_hist_add(ph, value)` -/
def perfHistAdd (ph : PerfHist) (value : BitVec 32) : PerfHist :=
  let i := bucketLoop ph.phBounds value ph.phNbounds 0
  { ph with phBuckets := Function.update ph.phBuckets i (ph.phBuckets i + 1) }

/-- A call of `perf_hist_add` or of `perf_hist_report`. -/
inductive HistEvent where
  | add (value : BitVec 32)
  | report
  deriving DecidableEq, Repr

def histStep (sink : Sink σ) (n : ℕ) (s : σ × PerfHist) : HistEvent → Option (σ × PerfHist)
  | .add value => some (s.1, perfHistAdd s.2 value)
  | .report => perfHistReport sink n s.2 s.1

/-- **Calls, one after another.** -/
def histRun (sink : Sink σ) (n : ℕ) (s : σ × PerfHist) (events : List HistEvent) :
    Option (σ × PerfHist) := events.foldlM (histStep sink n) s

/-! ## Buckets -/

/-- The bounds ascend. -/
def Ascending (ph : PerfHist) : Prop :=
  ∀ i j, i ≤ j → j < ph.phNbounds → ph.phBounds i ≤ ph.phBounds j

/-- **A value between two bounds**: above the one before, and not above its own. -/
def Within (ph : PerfHist) (i : ℕ) (v : BitVec 32) : Prop :=
  (∀ j < i, ph.phBounds j < v) ∧ (i < ph.phNbounds → v ≤ ph.phBounds i)

instance : Decidable (Within ph i v) := inferInstanceAs (Decidable (_ ∧ _))

/-- With ascending bounds it is enough to look at two of them. -/
theorem within_iff (hasc : Ascending ph) (hi : i ≤ ph.phNbounds) : Within ph i v ↔
    (0 < i → ph.phBounds (i - 1) < v) ∧ (i < ph.phNbounds → v ≤ ph.phBounds i) := by
  refine and_congr_left' ⟨fun h hpos => h (i - 1) (by omega), fun h j hj => ?_⟩
  exact Nat.lt_of_le_of_lt (hasc j (i - 1) (by omega) (by omega)) (h (by omega))

theorem bucketLoop_spec (left : ℕ) (hle : i + left = ph.phNbounds)
    (hbefore : ∀ j < i, ph.phBounds j < v) :
    bucketLoop ph.phBounds v left i ≤ ph.phNbounds ∧
      Within ph (bucketLoop ph.phBounds v left i) v := by
  induction left generalizing i with
  | zero =>
    exact ⟨hle.le, hbefore, fun h => absurd h (Nat.not_lt.mpr hle.ge)⟩
  | succ left ih =>
    rw [bucketLoop]
    split
    · next h =>
      refine ih (by omega) fun j hj => ?_
      rcases Nat.lt_succ_iff_lt_or_eq.mp hj with hj | rfl
      · exact hbefore j hj
      · exact h
    · next h => exact ⟨by omega, hbefore, fun _ => BitVec.not_lt.mp h⟩

/-- **A value goes where it is within the bounds.** -/
theorem bucket_spec (ph : PerfHist) (v : BitVec 32) :
    bucketLoop ph.phBounds v ph.phNbounds 0 ≤ ph.phNbounds ∧
      Within ph (bucketLoop ph.phBounds v ph.phNbounds 0) v :=
  bucketLoop_spec _ (Nat.zero_add _) fun _ h => absurd h (Nat.not_lt_zero _)

/-- It is within no others. -/
theorem Within.unique (h : Within ph i v) (h' : Within ph j v) (hi : i ≤ ph.phNbounds)
    (hj : j ≤ ph.phNbounds) : i = j := by
  rcases Nat.lt_trichotomy i j with hlt | rfl | hlt
  · exact absurd (h.2 (hlt.trans_le hj)) (BitVec.not_le.mpr (h'.1 i hlt))
  · rfl
  · exact absurd (h'.2 (hlt.trans_le hi)) (BitVec.not_le.mpr (h.1 j hlt))

theorem within_bucket (hi : i ≤ ph.phNbounds) :
    Within ph i v ↔ bucketLoop ph.phBounds v ph.phNbounds 0 = i := by
  obtain ⟨hle, hin⟩ := bucket_spec ph v
  exact ⟨fun h => hin.unique h hle hi, fun h => h ▸ hin⟩

/-! ## Counting -/

/-- How many of the samples are within the bounds. -/
def tally (ph : PerfHist) (l : List (BitVec 32)) (i : ℕ) : ℕ := l.countP fun v => Within ph i v

theorem tally_append (l : List (BitVec 32)) (v : BitVec 32) (hi : i ≤ ph.phNbounds) :
    tally ph (l ++ [v]) i =
      tally ph l i + if i = bucketLoop ph.phBounds v ph.phNbounds 0 then 1 else 0 := by
  rw [tally, List.countP_append, List.countP_singleton]
  simp only [decide_eq_true_eq, within_bucket hi, eq_comm (a := i)]
  simp only [tally, within_bucket hi]

/-- **Every sample is in one bucket.** -/
theorem sum_tally (ph : PerfHist) (l : List (BitVec 32)) :
    ((List.range (ph.phNbounds + 1)).map (tally ph l)).sum = l.length := by
  change ∑ i ∈ Finset.range (ph.phNbounds + 1), tally ph l i = _
  induction l using List.reverseRecOn with
  | nil => exact Finset.sum_eq_zero fun _ _ => rfl
  | append_singleton l v ih =>
    have hmem : bucketLoop ph.phBounds v ph.phNbounds 0 ∈ Finset.range (ph.phNbounds + 1) :=
      Finset.mem_range.mpr (Nat.lt_succ_of_le (bucket_spec ph v).1)
    rw [Finset.sum_congr rfl fun i hi =>
      tally_append l v (Nat.le_of_lt_succ (Finset.mem_range.mp hi)), Finset.sum_add_distrib, ih,
      Finset.sum_ite_eq' _ _ _, if_pos hmem, List.length_append, List.length_singleton]

theorem tally_le (ph : PerfHist) (l : List (BitVec 32)) (i : ℕ) : tally ph l i ≤ l.length :=
  List.countP_le_length

/-! ## The lines -/

/-- **What a line says of a bucket**: its bound, and how many of the samples are within. -/
def bucketSays (ph : PerfHist) (l : List (BitVec 32)) (i : ℕ) : List Char :=
  if tally ph l i = 0 then []
  else if i < ph.phNbounds then
    [' ', '<', '='] ++ (decimal (ph.phBounds i) ++ ([':'] ++ Nat.toDigits 10 (tally ph l i)))
  else
    [' ', '>'] ++ (decimal (ph.phBounds (ph.phNbounds - 1)) ++
      ([':'] ++ Nat.toDigits 10 (tally ph l i)))

/-- **The line of some samples**: how many they are, and what it says of each bucket. -/
def histLine ( phPrefix name : List Char) (ph : PerfHist) (l : List (BitVec 32)) : List Char :=
  ['['] ++ ( phPrefix ++ ([']', ' ', 'h', 'i', 's', 't', ' '] ++ (name ++ ([':', ' ', 'n', '='] ++
    (Nat.toDigits 10 l.length ++ (List.range (ph.phNbounds + 1)).flatMap (bucketSays ph l))))))

/-- **The buckets hold these samples.** -/
structure Tallies (ph ph' : PerfHist) (l : List (BitVec 32)) : Prop where
  same : ph' = { ph with phBuckets := ph'.phBuckets }
  count : ∀ i ≤ ph.phNbounds, ph'.phBuckets i = BitVec.ofNat 32 (tally ph l i)

/-- A sum of cells is the cell of the sum. -/
theorem foldl_add_ofNat {buckets : ℕ → BitVec 32} {f : ℕ → ℕ} (is : List ℕ)
    (h : ∀ i ∈ is, buckets i = BitVec.ofNat 32 (f i)) (k : ℕ) :
    is.foldl (fun s i => s + buckets i) (BitVec.ofNat 32 k) =
      BitVec.ofNat 32 (k + (is.map f).sum) := by
  induction is generalizing k with
  | nil => rfl
  | cons i is ih =>
    obtain ⟨hi, his⟩ := List.forall_mem_cons.mp h
    rw [List.foldl_cons, hi, ← BitVec.ofNat_add, ih his, List.map_cons, List.sum_cons,
      Nat.add_assoc]

namespace Tallies

variable {ph' : PerfHist}

theorem samples_eq (h : Tallies ph ph' l) : samples ph' = BitVec.ofNat 32 l.length := by
  have hsum := foldl_add_ofNat (List.range (ph.phNbounds + 1)) (fun i hi =>
    h.count i (Nat.le_of_lt_succ (List.mem_range.mp hi))) 0
  rw [sum_tally, Nat.zero_add] at hsum
  rw [h.same]
  exact hsum

/-- One more sample. -/
theorem add (h : Tallies ph ph' l) (v : BitVec 32) :
    Tallies ph (perfHistAdd ph' v) (l ++ [v]) := by
  obtain ⟨hsame, hcount⟩ := h
  generalize ph'.phBuckets = buckets at hsame hcount
  subst hsame
  refine ⟨rfl, fun i hi => ?_⟩
  change Function.update buckets _ _ i = _
  rw [Function.update_apply, tally_append l v hi]
  split
  · next heq =>
    rw [← heq]
    change buckets i + 1 = _
    rw [hcount i hi, BitVec.ofNat_add]
    rfl
  · exact hcount i hi

/-- **The line of the buckets is the line of their samples.** -/
theorem histText_eq (h : Tallies ph ph' l) (p s : List Char) (hl : l.length < 2 ^ 32)
    (hpos : 0 < ph.phNbounds) (hn : ph.phNbounds < 2 ^ 32) :
    histText p s ph' = histLine p s ph l := by
  have hcell : ∀ k ≤ l.length, (BitVec.ofNat 32 k).toNat = k := fun k hk =>
    BitVec.toNat_ofNat .. |>.trans (Nat.mod_eq_of_lt (hk.trans_lt hl))
  have hlen : decimal (samples ph') = Nat.toDigits 10 l.length := by
    rw [decimal, h.samples_eq, hcell _ le_rfl]
  obtain ⟨hsame, hcount⟩ := h
  generalize ph'.phBuckets = buckets at hsame hcount
  subst hsame
  rw [histText, histLine, hlen]
  have hbuckets : (List.range (ph.phNbounds + 1)).flatMap
      (bucketText { ph with phBuckets := buckets }) =
        (List.range (ph.phNbounds + 1)).flatMap (bucketSays ph l) := by
    refine List.flatMap_congr fun i hi => ?_
    have hi := Nat.le_of_lt_succ (List.mem_range.mp hi)
    have htally := hcell _ (tally_le ph l i)
    have hzero : BitVec.ofNat 32 (tally ph l i) = 0 ↔ tally ph l i = 0 := by
      rw [← BitVec.toNat_inj, htally]
      rfl
    have hdigits : decimal (buckets i) = Nat.toDigits 10 (tally ph l i) := by
      rw [decimal, hcount i hi, htally]
    have hlast : ¬i < ph.phNbounds → (BitVec.ofNat 32 i - 1).toNat = ph.phNbounds - 1 := by
      intro hge
      obtain rfl : i = ph.phNbounds := by omega
      rw [BitVec.toNat_sub_of_le (BitVec.le_def.mpr ?_), BitVec.toNat_ofNat, Nat.mod_eq_of_lt hn]
      · rfl
      · rw [BitVec.toNat_ofNat, Nat.mod_eq_of_lt hn]
        exact hpos
    have hnone : buckets i = 0 ↔ tally ph l i = 0 := by rw [hcount i hi, hzero]
    change (if buckets i = 0 then [] else if i < ph.phNbounds then
      _ ++ (decimal (ph.phBounds i) ++ (_ ++ decimal (buckets i)))
      else _ ++ (decimal (ph.phBounds (BitVec.ofNat 32 i - 1).toNat) ++
        (_ ++ decimal (buckets i)))) = _
    rw [hdigits, bucketSays]
    by_cases h0 : tally ph l i = 0
    · rw [if_pos h0, if_pos (hnone.mpr h0)]
    · rw [if_neg h0, if_neg (mt hnone.mp h0)]
      by_cases hin : i < ph.phNbounds
      · rw [if_pos hin, if_pos hin]
      · rw [if_neg hin, if_neg hin, hlast hin]
  rw [← hbuckets]

end Tallies

/-! ## A run of calls -/

section Run

variable {sink : Sink σ} {out out' : σ} {buckets left : ℕ → BitVec 32} {ph' : PerfHist}

/-- The buckets that were gone through are empty. -/
theorem reportBuckets_left {is : List ℕ}
    (h : reportBuckets sink n ph is out buckets = some (out', left)) (hi : i ∈ is ∨ buckets i = 0) :
    left i = 0 := by
  induction is generalizing out buckets with
  | nil =>
    obtain ⟨rfl, rfl⟩ := Prod.mk.inj (Option.some.inj h)
    exact hi.resolve_left List.not_mem_nil
  | cons k is ih =>
    rw [reportBuckets] at h
    -- the head is empty, or is emptied by either of the two prints
    have hset : ∀ b : ℕ → BitVec 32, b k = 0 → (∀ j, buckets j = 0 → b j = 0) →
        i ∈ is ∨ b i = 0 := by
      intro b hk hb
      rcases hi with hi | hi
      · rcases List.mem_cons.mp hi with rfl | hi
        · exact .inr hk
        · exact .inl hi
      · exact .inr (hb i hi)
    have hupdate : ∀ j, buckets j = 0 → Function.update buckets k 0 j = 0 := by
      intro j hj
      rw [Function.update_apply]
      split
      · rfl
      · exact hj
    split at h
    · next h0 => exact ih h (hset buckets h0 fun _ hj => hj)
    · split at h
      all_goals
        obtain ⟨_, -, h⟩ := Option.bind_eq_some_iff.mp h
        exact ih h (hset _ (Function.update_self ..) hupdate)

/-- **A report that finds samples prints their line**, and leaves the buckets empty. -/
theorem Tallies.report (h : Tallies ph ph' l) {named : BitVec 32 → List Char}
    (hp : Names sink.mem ph.phPrefix (named ph.phPrefix))
    (hs : Names sink.mem ph.phName (named ph.phName)) (hn : 2 ^ 32 ≤ n)
    (hpos : 0 < ph.phNbounds) (hsize : ph.phNbounds < 2 ^ 32) (hl : l.length < 2 ^ 32)
    (hne : l ≠ []) (out : σ) : ∃ ph'', perfHistReport sink n ph' out = some (sink.engine.puts
      (bytes (histLine (named ph.phPrefix) (named ph.phName) ph l ++ ['\n'])) out, ph'') ∧
        Tallies ph ph'' [] := by
  have hsamples : samples ph' ≠ 0 := by
    rw [h.samples_eq]
    intro h0
    have := congrArg BitVec.toNat h0
    rw [BitVec.toNat_ofNat, Nat.mod_eq_of_lt hl] at this
    exact hne (List.length_eq_zero_iff.mp this)
  have hpfx : ph'.phPrefix = ph.phPrefix := by rw [h.same]
  have hname : ph'.phName = ph.phName := by rw [h.same]
  have hputs : (perfHistReport sink n ph' out).map Prod.fst = _ :=
    perfHistReport_puts (hpfx ▸ hp) (hname ▸ hs) hsamples hn
  obtain ⟨⟨out', ph''⟩, hrun, hout⟩ := Option.map_eq_some_iff.mp hputs
  rw [h.histText_eq _ _ hl hpos hsize, hpfx, hname] at hout
  refine ⟨ph'', hrun.trans (congrArg (fun o => some (o, ph'')) hout), ?_⟩
  rw [perfHistReport, if_neg hsamples] at hrun
  obtain ⟨_, -, hrun⟩ := Option.bind_eq_some_iff.mp hrun
  obtain ⟨⟨_, left⟩, hbuckets, hrun⟩ := Option.bind_eq_some_iff.mp hrun
  obtain ⟨_, -, hrun⟩ := Option.bind_eq_some_iff.mp hrun
  obtain rfl := (Prod.mk.inj (Option.some.inj hrun)).2
  refine ⟨by rw [h.same], fun i hi => ?_⟩
  have hmem : i ∈ List.range (ph'.phNbounds + 1) := by
    rw [h.same]
    exact List.mem_range.mpr (Nat.lt_succ_of_le hi)
  exact reportBuckets_left hbuckets (.inl hmem)

/-- What is owed after a call. -/
def histAfter (owed : List (BitVec 32)) : HistEvent → List (BitVec 32)
  | .add v => owed ++ [v]
  | .report => []

/-- The samples of the line a call prints, if it prints one. -/
def histPaid (owed : List (BitVec 32)) : HistEvent → List (List (BitVec 32))
  | .add _ => []
  | .report => if owed = [] then [] else [owed]

/-- **The samples of the lines of a run, line by line, and those still owed after it.** -/
def histTrack : List (BitVec 32) → List HistEvent → List (List (BitVec 32)) × List (BitVec 32)
  | owed, [] => ([], owed)
  | owed, event :: events =>
    let (lines, rest) := histTrack (histAfter owed event) events
    (histPaid owed event ++ lines, rest)

/-- The samples a call is given. -/
def HistEvent.given : HistEvent → List (BitVec 32)
  | .add v => [v]
  | .report => []

/-- **Every sample is in one line**, in the order they were taken, or is still owed. -/
theorem histTrack_conserves (owed : List (BitVec 32)) (events : List HistEvent) :
    (histTrack owed events).1.flatten ++ (histTrack owed events).2 =
      owed ++ events.flatMap HistEvent.given := by
  induction events generalizing owed with
  | nil => exact (List.append_nil _).symm
  | cons event events ih =>
    have hone : (histPaid owed event).flatten ++ histAfter owed event = owed ++ event.given := by
      cases event with
      | add v => exact List.nil_append _
      | report =>
        rw [histPaid, histAfter, HistEvent.given]
        split
        · next h => rw [h, List.flatten_nil]
        · rw [List.flatten_singleton]
    change (histPaid owed event ++ (histTrack (histAfter owed event) events).1).flatten ++
      (histTrack (histAfter owed event) events).2 = _
    rw [List.flatten_append, List.append_assoc, ih, ← List.append_assoc, hone, List.flatMap_cons,
      List.append_assoc]

/-- The text of some lines. -/
def histLines (named : BitVec 32 → List Char) (ph : PerfHist) (lines : List (List (BitVec 32))) :
    List Char :=
  lines.flatMap fun l => histLine (named ph.phPrefix) (named ph.phName) ph l ++ ['\n']

/-- **A run prints the lines of its samples.** -/
theorem histRun_puts {named : BitVec 32 → List Char} {owed : List (BitVec 32)}
    (hp : Names sink.mem ph.phPrefix (named ph.phPrefix))
    (hs : Names sink.mem ph.phName (named ph.phName)) (hn : 2 ^ 32 ≤ n)
    (hpos : 0 < ph.phNbounds) (hsize : ph.phNbounds < 2 ^ 32) (events : List HistEvent)
    (h : Tallies ph ph' owed) (hfits : ∀ l ∈ (histTrack owed events).1, l.length < 2 ^ 32)
    (out : σ) : ∃ ph'', histRun sink n (out, ph') events =
        some (sink.engine.puts (bytes (histLines named ph (histTrack owed events).1)) out, ph'') ∧
      Tallies ph ph'' (histTrack owed events).2 := by
  induction events generalizing ph' owed out with
  | nil => exact ⟨ph', rfl, h⟩
  | cons event events ih =>
    obtain ⟨hhere, hlater⟩ := List.forall_mem_append.mp hfits
    have hone : ∃ ph'', histStep sink n (out, ph') event =
        some (sink.engine.puts (bytes (histLines named ph (histPaid owed event))) out, ph'') ∧
          Tallies ph ph'' (histAfter owed event) := by
      cases event with
      | add v => exact ⟨_, rfl, h.add v⟩
      | report =>
        rw [histPaid] at hhere ⊢
        by_cases hne : owed = []
        · subst hne
          have h0 : samples ph' = 0 := h.samples_eq
          exact ⟨ph', if_pos h0, h⟩
        · rw [if_neg hne] at hhere ⊢
          rw [histLines, List.flatMap_singleton]
          exact h.report hp hs hn hpos hsize (hhere owed List.mem_cons_self) hne out
    obtain ⟨ph₁, hstep, htallies⟩ := hone
    obtain ⟨ph₂, hrun, htallies'⟩ := ih htallies hlater
      (sink.engine.puts (bytes (histLines named ph (histPaid owed event))) out)
    refine ⟨ph₂, ?_, htallies'⟩
    rw [histRun, List.foldlM_cons, hstep]
    refine hrun.trans ?_
    rw [← puts_bytes, histLines, histLines, ← List.flatMap_append]
    rfl

/-- **Histograms lose no sample**: whatever order samples and reports come in, every sample stands
in one line or is still owed, and each line says of every bucket how many of its samples lie within,
as exactly one bucket has each of them; no line may stand for 2³² samples or more. -/
theorem hist_reports_exact (sink : Sink σ) (ph : PerfHist) (named : BitVec 32 → List Char)
    (events : List HistEvent) (out : σ)
    (hzero : ∀ i ≤ ph.phNbounds, ph.phBuckets i = 0)
    (hp : Names sink.mem ph.phPrefix (named ph.phPrefix))
    (hs : Names sink.mem ph.phName (named ph.phName)) (hn : 2 ^ 32 ≤ n)
    (hpos : 0 < ph.phNbounds) (hsize : ph.phNbounds < 2 ^ 32)
    (hfits : ∀ l ∈ (histTrack [] events).1, l.length < 2 ^ 32) :
    (∃ ph', histRun sink n (out, ph) events =
      some (sink.engine.puts (bytes (histLines named ph (histTrack [] events).1)) out, ph')) ∧
    (histTrack [] events).1.flatten ++ (histTrack [] events).2 = events.flatMap HistEvent.given ∧
    (∀ v, ∃! i, i ≤ ph.phNbounds ∧ Within ph i v) ∧
    (Ascending ph → ∀ i ≤ ph.phNbounds, ∀ v, Within ph i v ↔
      (0 < i → ph.phBounds (i - 1) < v) ∧ (i < ph.phNbounds → v ≤ ph.phBounds i)) := by
  have hnone : Tallies ph ph [] := ⟨rfl, hzero⟩
  obtain ⟨ph', hrun, -⟩ := histRun_puts hp hs hn hpos hsize events hnone hfits out
  refine ⟨⟨ph', hrun⟩, histTrack_conserves [] events, fun v => ?_, fun hasc i hi v =>
    within_iff hasc hi⟩
  obtain ⟨hle, hin⟩ := bucket_spec ph v
  exact ⟨_, ⟨hle, hin⟩, fun j hj => hj.2.unique hin hj.1 hle⟩

end Run

/-- Buckets up to 1, up to 4 and above. -/
def sampleHist : PerfHist := ⟨16, 18, fun i => [1, 4].getD i 0, fun _ => 0, 2⟩

theorem hist_reports_exact_three : ∃ ph',
    histRun sampleSink (2 ^ 32) ([], sampleHist) [.add 0, .add 9, .report, .report, .add 4, .report]
      = some (bytes ("[p] hist a: n=2 <=1:1 >4:1\n" ++ "[p] hist a: n=1 <=4:1\n").toList, ph') := by
  obtain ⟨⟨ph', hrun⟩, -⟩ := hist_reports_exact sampleSink sampleHist sampleNames
    [.add 0, .add 9, .report, .report, .add 4, .report] [] (fun _ _ => rfl)
    sample_names.1 sample_names.2 le_rfl (by decide) (by decide) (by decide)
  exact ⟨ph', hrun.trans (congrArg (fun out => some (out, ph')) (by decide +kernel))⟩

end PerfLog
