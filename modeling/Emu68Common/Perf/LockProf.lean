import Emu68Common.Perf.Totals
import Emu68Common.Machinery.History

/-!
# Perf/LockProf — waits and holds of a semaphore, timed by whoever has it

Any number of tasks take one semaphore through `lock_prof_obtain` and `lock_prof_release`, a line at
a time.  They share two counters and one cell for the start of a hold, and take turns at these
because they update them while the semaphore is theirs.  So every outermost obtain is one wait and
every outermost release one hold, from that task's own readings of the clock, and the counters say
what there was of either (`lock_prof_exact`).

    .idle ▸ .asked ▸ .got ▸ .reading ▸ .adding (three lines) ▸ .stamping ▸ .storing ▸ .idle
    .idle ▸ .leaving ▸ .reading ▸ .adding (three lines) ▸ .releasing ▸ .idle
-/

namespace LockProf

open Machinery PerfLog

/-! ## The source -/

/-- `LOCKPROF_WAIT` and `LOCKPROF_HOLD` -/
inductive Slot where
  | wait
  | hold
  deriving DecidableEq, Repr

/-- What `perf_add` has still to do once it has `dt`. -/
inductive Line where
  | count
  | sum
  | max
  deriving DecidableEq, Repr

/-- Where a task is. -/
inductive Place where
  /-- outside the macros, with the semaphore or without -/
  | idle
  /-- `_lp_wait_t0` read -/
  | asked (t0 : BitVec 32)
  /-- `ObtainSemaphore` returned -/
  | got (t0 : BitVec 32)
  /-- at `perf_add(&lp->lp_perf, slot, t0)` -/
  | reading (slot : Slot) (t0 : BitVec 32)
  | adding (slot : Slot) (dt : BitVec 32) (line : Line)
  | stamping
  /-- `lp->lp_hold_t0 = t0` to be done -/
  | storing (t0 : BitVec 32)
  /-- at `lock_prof_release` -/
  | leaving
  /-- at `ReleaseSemaphore` -/
  | releasing
  deriving DecidableEq, Repr

/-- A task is not between the semaphore and its counters. -/
def Place.Outside : Place → Prop
  | .idle | .asked _ => True
  | _ => False

instance : DecidablePred Place.Outside
  | .idle | .asked _ => .isTrue trivial
  | .got _ | .reading .. | .adding .. | .stamping | .storing _ | .leaving | .releasing =>
    .isFalse id

/-- A line of `perf_add`. -/
def Line.act (dt : BitVec 32) (c : PerfCounter) : Line → PerfCounter
  | .count => { c with pcCount := c.pcCount + 1 }
  | .sum => { c with pcSumUs := c.pcSumUs + dt }
  | .max => { c with pcMaxUs := if dt > c.pcMaxUs then dt else c.pcMaxUs }

/-- Where a line of `perf_add` leads: the next, or behind the call. -/
def Line.next (slot : Slot) (dt : BitVec 32) : Line → Place
  | .count => .adding slot dt .sum
  | .sum => .adding slot dt .max
  | .max => match slot with
    | .wait => .stamping
    | .hold => .releasing

variable {T : Type}

/-- The clock, the semaphore, the profiler, and where each task is. -/
structure State (T : Type) where
  /-- microseconds gone by -/
  now : ℕ
  ssOwner : Option T
  ssNestCount : ℕ
  lpSlots : Slot → PerfCounter
  lpHoldT0 : BitVec 32
  place : T → Place

/-- `get_time()` -/
def State.getTime (s : State T) : BitVec 32 := BitVec.ofNat 32 s.now

/-- What a step was. -/
inductive Event (T : Type) where
  | acted
  /-- the clock read for `_lp_wait_t0` -/
  | asks (t : T) (now : ℕ)
  | obtains (t : T)
  /-- the clock read in `perf_add` -/
  | reads (t : T) (slot : Slot) (now : ℕ)
  /-- the clock read for `lp_hold_t0` -/
  | starts (t : T) (now : ℕ)
  | frees (t : T)

/-- The run begins at this time: nobody has the semaphore, every counter zero. -/
structure Start (began : ℕ) (s : State T) : Prop where
  now : s.now = began
  owner : s.ssOwner = none
  nest : s.ssNestCount = 0
  slots : ∀ slot, s.lpSlots slot = ⟨0, 0, 0⟩
  place : ∀ t, s.place t = .idle

section Steps

variable [DecidableEq T]

/-- A task at another place. -/
def State.go (s : State T) (t : T) (p : Place) : State T :=
  { s with place := Function.update s.place t p }

/-- **One step**: time passes, or a task goes on by a line.  Exec gives the semaphore to a task when
it is free or that task's already, and counts; it is released by the one who has it. -/
inductive Step (s : State T) : Event T → State T → Prop where
  | pass (d : ℕ) : Step s .acted { s with now := s.now + d }
  | ask (t : T) (h : s.place t = .idle) : Step s (.asks t s.now) (s.go t (.asked s.getTime))
  | take (t : T) (t0 : BitVec 32) (h : s.place t = .asked t0)
    (hfree : s.ssOwner = none ∨ s.ssOwner = some t) :
    Step s (.obtains t)
      { s.go t (.got t0) with ssOwner := some t, ssNestCount := s.ssNestCount + 1 }
  | first (t : T) (t0 : BitVec 32) (h : s.place t = .got t0) (h1 : s.ssNestCount = 1) :
    Step s .acted (s.go t (.reading .wait t0))
  | again (t : T) (t0 : BitVec 32) (h : s.place t = .got t0) (h1 : s.ssNestCount ≠ 1) :
    Step s .acted (s.go t .idle)
  | read (t : T) (slot : Slot) (t0 : BitVec 32) (h : s.place t = .reading slot t0) :
    Step s (.reads t slot s.now) (s.go t (.adding slot (s.getTime - t0) .count))
  | add (t : T) (slot : Slot) (dt : BitVec 32) (line : Line)
    (h : s.place t = .adding slot dt line) :
    Step s .acted { s.go t (line.next slot dt) with
      lpSlots := Function.update s.lpSlots slot (line.act dt (s.lpSlots slot)) }
  | stamp (t : T) (h : s.place t = .stamping) :
    Step s (.starts t s.now) (s.go t (.storing s.getTime))
  | store (t : T) (t0 : BitVec 32) (h : s.place t = .storing t0) :
    Step s .acted { s.go t .idle with lpHoldT0 := t0 }
  | leave (t : T) (h : s.place t = .idle) (howner : s.ssOwner = some t) :
    Step s .acted (s.go t .leaving)
  | last (t : T) (h : s.place t = .leaving) (h1 : s.ssNestCount = 1) :
    Step s .acted (s.go t (.reading .hold s.lpHoldT0))
  | inner (t : T) (h : s.place t = .leaving) (h1 : s.ssNestCount ≠ 1) :
    Step s .acted (s.go t .releasing)
  | release (t : T) (h : s.place t = .releasing) :
    Step s (.frees t) { s.go t .idle with
      ssOwner := if s.ssNestCount = 1 then none else some t
      ssNestCount := s.ssNestCount - 1 }

/-! ## What was timed -/

/-- When a task last asked. -/
def askedAt (t : T) : List (Event T) → ℕ
  | [] => 0
  | .asks u now :: es => if u = t then now else askedAt t es
  | _ :: es => askedAt t es

/-- When a task last started the clock of its hold. -/
def startedAt (t : T) : List (Event T) → ℕ
  | [] => 0
  | .starts u now :: es => if u = t then now else startedAt t es
  | _ :: es => startedAt t es

/-- When what a task has just timed began. -/
def begunAt (t : T) (es : List (Event T)) : Slot → ℕ
  | .wait => askedAt t es
  | .hold => startedAt t es

/-- **The waits, or the holds**: from a task's own beginning to its reading of the clock. -/
def spans (slot : Slot) : List (Event T) → List ℕ
  | [] => []
  | .reads t k now :: es =>
    if k = slot then (now - begunAt t es slot) :: spans slot es else spans slot es
  | _ :: es => spans slot es

end Steps

/-- How often the semaphore is held. -/
def depth : List (Event T) → ℕ
  | [] => 0
  | .obtains _ :: es => depth es + 1
  | .frees _ :: es => depth es - 1
  | _ :: es => depth es

/-- How often it was obtained from nobody. -/
def entered : List (Event T) → ℕ
  | [] => 0
  | .obtains _ :: es => if depth es = 0 then entered es + 1 else entered es
  | _ :: es => entered es

/-- How often it was left to nobody. -/
def ended : List (Event T) → ℕ
  | [] => 0
  | .frees _ :: es => if depth es = 1 then ended es + 1 else ended es
  | _ :: es => ended es

/-- The longest of some spans, as far as 32 bits tell. -/
def peak : List ℕ → ℕ
  | [] => 0
  | d :: l => max (d % 2 ^ 32) (peak l)

/-- **What a counter says of some spans.** -/
def counter (l : List ℕ) : PerfCounter where
  pcCount := BitVec.ofNat 32 l.length
  pcSumUs := BitVec.ofNat 32 l.sum
  pcMaxUs := BitVec.ofNat 32 (peak l)

/-! ## Counters -/

theorem peak_lt (l : List ℕ) : peak l < 2 ^ 32 := by
  induction l with
  | nil => exact Nat.two_pow_pos 32
  | cons d l ih => exact max_lt (Nat.mod_lt _ (Nat.two_pow_pos 32)) ih

/-- **One more span.** -/
theorem counter_cons (d : ℕ) (l : List ℕ) :
    counter (d :: l) = (counter l).add (BitVec.ofNat 32 d) := by
  rw [counter, PerfCounter.add, counter, PerfCounter.mk.injEq]
  refine ⟨BitVec.ofNat_add .., ?_, ?_⟩
  · rw [List.sum_cons, BitVec.ofNat_add, BitVec.add_comm]
  · have hl : (BitVec.ofNat 32 (peak l)).toNat = peak l := by
      rw [BitVec.toNat_ofNat, Nat.mod_eq_of_lt (peak_lt l)]
    have hmax : (BitVec.ofNat 32 (peak (d :: l))).toNat =
        max (BitVec.ofNat 32 d).toNat (BitVec.ofNat 32 (peak l)).toNat := by
      rw [hl, BitVec.toNat_ofNat, Nat.mod_eq_of_lt (peak_lt (d :: l)), BitVec.toNat_ofNat, peak]
    refine BitVec.eq_of_toNat_eq (hmax.trans ?_)
    change _ = (if BitVec.ofNat 32 (peak l) < BitVec.ofNat 32 d then _ else _ : BitVec 32).toNat
    split
    · next h => exact Nat.max_eq_left (BitVec.le_of_lt h)
    · next h => exact Nat.max_eq_right (BitVec.not_lt.mp h)

/-- **The three lines of `perf_add`** are a sample. -/
theorem act_act_act (dt : BitVec 32) (c : PerfCounter) :
    Line.max.act dt (Line.sum.act dt (Line.count.act dt c)) = c.add dt := rfl

/-- A counter with some lines of `perf_add` still to come. -/
def Line.before (dt : BitVec 32) (c : PerfCounter) : Line → PerfCounter
  | .count => c
  | .sum => Line.count.act dt c
  | .max => Line.sum.act dt (Line.count.act dt c)

/-- A difference of readings. -/
theorem ofNat_sub_ofNat {a b : ℕ} (h : a ≤ b) :
    BitVec.ofNat 32 b - BitVec.ofNat 32 a = BitVec.ofNat 32 (b - a) := by
  obtain ⟨d, rfl⟩ := Nat.exists_eq_add_of_le h
  rw [BitVec.ofNat_add, Nat.add_sub_cancel_left, BitVec.add_comm, BitVec.add_sub_cancel]

/-! ## The invariant -/

/-- What all tasks share, and what was timed. -/
structure Books where
  /-- when the run began -/
  began : ℕ
  slots : Slot → PerfCounter
  holdT0 : BitVec 32
  nest : ℕ
  spans : Slot → List ℕ
  entered : ℕ
  ended : ℕ

namespace Books

/-- The counters are up to date. -/
def Settled (b : Books) : Prop := ∀ slot, b.slots slot = counter (b.spans slot)

/-- Every outermost obtain is a wait but for this many, every outermost release a hold, and there
are this many more. -/
def Paid (b : Books) (waits holds : ℕ) : Prop :=
  (b.spans .wait).length + waits = b.entered ∧ (b.spans .hold).length = b.ended + holds

/-- A hold runs from its start, behind all the holds before. -/
def Begun (b : Books) (started : ℕ) : Prop :=
  b.holdT0 = BitVec.ofNat 32 started ∧ b.began + (b.spans .hold).sum ≤ started

/-- **What holds where the owner is**, which asked and started at these times. -/
def At (b : Books) (asked started : ℕ) : Place → Prop
  | .idle | .leaving => b.Settled ∧ b.Begun started ∧ b.Paid 0 0
  | .asked t0 => t0 = BitVec.ofNat 32 asked ∧ b.Settled ∧ b.Begun started ∧ b.Paid 0 0
  | .got t0 => t0 = BitVec.ofNat 32 asked ∧ b.Settled ∧
    (b.nest = 1 → b.Paid 1 0) ∧ (b.nest ≠ 1 → b.Begun started ∧ b.Paid 0 0)
  | .reading .wait t0 => b.nest = 1 ∧ t0 = BitVec.ofNat 32 asked ∧ b.Settled ∧ b.Paid 1 0
  | .reading .hold t0 => b.nest = 1 ∧ t0 = BitVec.ofNat 32 started ∧
    b.began + (b.spans .hold).sum ≤ started ∧ b.Settled ∧ b.Paid 0 0
  | .adding slot dt line => b.nest = 1 ∧ (∃ d l, b.spans slot = d :: l ∧
      dt = BitVec.ofNat 32 d ∧ b.slots slot = line.before dt (counter l)) ∧
    (∀ k, k ≠ slot → b.slots k = counter (b.spans k)) ∧ b.Paid 0 (if slot = .hold then 1 else 0)
  | .stamping => b.nest = 1 ∧ b.Settled ∧ b.Paid 0 0
  | .storing t0 => b.nest = 1 ∧ t0 = BitVec.ofNat 32 started ∧
    b.began + (b.spans .hold).sum ≤ started ∧ b.Settled ∧ b.Paid 0 0
  | .releasing => b.Settled ∧ (b.nest = 1 → b.Paid 0 1) ∧
    (b.nest ≠ 1 → b.Begun started ∧ b.Paid 0 0)

end Books

variable [DecidableEq T] {es : List (Event T)} {e : Event T} {s s' : State T} {t u : T} {p : Place}
  {began : ℕ}

/-- The books of a run. -/
def books (began : ℕ) (es : List (Event T)) (s : State T) : Books where
  began := began
  slots := s.lpSlots
  holdT0 := s.lpHoldT0
  nest := s.ssNestCount
  spans := fun slot => spans slot es
  entered := entered es
  ended := ended es

/-- **The invariant**: whoever has the semaphore is the only one inside. -/
structure Inv (began : ℕ) (es : List (Event T)) (s : State T) : Prop where
  nest : s.ssNestCount = depth es
  free : s.ssOwner = none ↔ s.ssNestCount = 0
  waiting : ∀ t, s.ssOwner ≠ some t →
    s.place t = .idle ∨ s.place t = .asked (BitVec.ofNat 32 (askedAt t es))
  clock : ∀ t, askedAt t es ≤ s.now ∧ startedAt t es ≤ s.now
  total : began + (spans .hold es).sum ≤ s.now
  unowned : s.ssOwner = none → (books began es s).Settled ∧ (books began es s).Paid 0 0
  owned : ∀ t, s.ssOwner = some t →
    (books began es s).At (askedAt t es) (startedAt t es) (s.place t)

namespace Inv

theorem of_start (h : Start began s) : Inv began [] s := by
  have hnone : ∀ t, s.ssOwner ≠ some t := by
    intro t ht
    rw [h.owner] at ht
    cases ht
  exact ⟨h.nest, iff_of_true h.owner h.nest, fun t _ => .inl (h.place t),
    fun _ => ⟨Nat.zero_le _, Nat.zero_le _⟩, h.now.ge, fun _ => ⟨h.slots, rfl, rfl⟩,
    fun t ht => absurd ht (hnone t)⟩

/-- Who is inside has the semaphore. -/
theorem owner (h : Inv began es s) (hp : ¬ (s.place t).Outside) : s.ssOwner = some t := by
  by_contra hne
  rcases h.waiting t hne with heq | heq
  · exact hp (heq ▸ trivial)
  · exact hp (heq ▸ trivial)

/-- What holds of the owner, where it is known to be. -/
theorem at_place (h : Inv began es s) (hp : s.place t = p) (hout : ¬ p.Outside) :
    s.ssOwner = some t ∧ (books began es s).At (askedAt t es) (startedAt t es) p := by
  subst hp
  exact ⟨h.owner hout, h.owned t (h.owner hout)⟩

/-- **The owner goes on**, and keeps the semaphore. -/
theorem moved (h : Inv began es s) (hown : s.ssOwner = some t)
    (hplace : s'.place = (s.go t p).place)
    (howner : s'.ssOwner = s.ssOwner) (hnest : s'.ssNestCount = s.ssNestCount)
    (hnow : s'.now = s.now) (hdepth : depth (e :: es) = depth es)
    (hasked : ∀ u, u ≠ t → askedAt u (e :: es) = askedAt u es)
    (hclock : askedAt t (e :: es) ≤ s.now ∧ startedAt t (e :: es) ≤ s.now)
    (hstarted : ∀ u, u ≠ t → startedAt u (e :: es) = startedAt u es)
    (htotal : began + (spans .hold (e :: es)).sum ≤ s.now)
    (hat : (books began (e :: es) s').At (askedAt t (e :: es)) (startedAt t (e :: es)) p) :
    Inv began (e :: es) s' := by
  have hself : s'.place t = p := by
    rw [hplace]
    exact Function.update_self ..
  have hother : ∀ u, u ≠ t → s'.place u = s.place u := by
    intro u hu
    rw [hplace]
    exact Function.update_of_ne hu ..
  refine ⟨by rw [hnest, hdepth, h.nest], by rw [howner, hnest, h.free], fun u hu => ?_,
    fun u => ?_, by rwa [hnow], fun hnone => ?_, fun u hu => ?_⟩
  · have hne : u ≠ t := by
      rintro rfl
      exact hu (howner.trans hown)
    rw [hother u hne, hasked u hne]
    exact h.waiting u fun hu' => hu (howner.trans hu')
  · rw [hnow]
    rcases eq_or_ne u t with rfl | hne
    · exact hclock
    · rw [hasked u hne, hstarted u hne]
      exact h.clock u
  · rw [howner, hown] at hnone
    cases hnone
  · obtain rfl := Option.some.inj ((howner.trans hown).symm.trans hu)
    rw [hself]
    exact hat

/-- **A silent line of the owner.** -/
theorem acted (h : Inv began es s) (hown : s.ssOwner = some t)
    (hplace : s'.place = (s.go t p).place)
    (howner : s'.ssOwner = s.ssOwner) (hnest : s'.ssNestCount = s.ssNestCount)
    (hnow : s'.now = s.now)
    (hat : (books began es s').At (askedAt t es) (startedAt t es) p) :
    Inv began (.acted :: es) s' :=
  h.moved hown hplace howner hnest hnow rfl (fun _ _ => rfl) (h.clock t) (fun _ _ => rfl) h.total
    hat

/-- Time passes. -/
theorem pass (h : Inv began es s) (d : ℕ) : Inv began (.acted :: es) { s with now := s.now + d } :=
  ⟨h.nest, h.free, h.waiting,
    fun t => ⟨(h.clock t).1.trans (Nat.le_add_right ..), (h.clock t).2.trans (Nat.le_add_right ..)⟩,
    h.total.trans (Nat.le_add_right ..), h.unowned, h.owned⟩

/-- A task reads the clock and asks. -/
theorem ask (h : Inv began es s) (hp : s.place t = .idle) :
    Inv began (.asks t s.now :: es) (s.go t (.asked s.getTime)) := by
  have hself : askedAt t (.asks t s.now :: es) = s.now := if_pos rfl
  have hother : ∀ u, u ≠ t → askedAt u (.asks t s.now :: es) = askedAt u es := fun u hu =>
    if_neg (Ne.symm hu)
  have hclock : askedAt t (.asks t s.now :: es) ≤ s.now ∧ startedAt t es ≤ s.now :=
    ⟨hself.le, (h.clock t).2⟩
  have hread : s.getTime = BitVec.ofNat 32 (askedAt t (.asks t s.now :: es)) := by
    rw [hself]
    rfl
  by_cases hown : s.ssOwner = some t
  · have hat := h.owned t hown
    rw [hp] at hat
    exact h.moved hown rfl rfl rfl rfl rfl hother hclock (fun _ _ => rfl) h.total
      ⟨hread, hat⟩
  · refine ⟨h.nest, h.free, fun u hu => ?_, fun u => ?_, h.total, h.unowned, fun u hu => ?_⟩
    · rcases eq_or_ne u t with rfl | hne
      · exact .inr ((Function.update_self ..).trans (congrArg Place.asked hread))
      · rw [hother u hne]
        change Function.update s.place t _ u = _ ∨ Function.update s.place t _ u = _
        rw [Function.update_of_ne hne]
        exact h.waiting u hu
    · rcases eq_or_ne u t with rfl | hne
      · exact hclock
      · rw [hother u hne]
        exact h.clock u
    · have hne : u ≠ t := by
        rintro rfl
        exact hown hu
      change Books.At _ _ _ (Function.update s.place t _ u)
      rw [hother u hne, Function.update_of_ne hne]
      exact h.owned u hu

/-- **The semaphore is given** to a task that finds it free or has it already. -/
theorem take {t0 : BitVec 32} (h : Inv began es s) (hp : s.place t = .asked t0)
    (hfree : s.ssOwner = none ∨ s.ssOwner = some t) : Inv began (.obtains t :: es)
      { s.go t (.got t0) with ssOwner := some t, ssNestCount := s.ssNestCount + 1 } := by
  have hself : Function.update s.place t (.got t0) t = .got t0 := Function.update_self ..
  refine ⟨congrArg (· + 1) h.nest, iff_of_false (Option.some_ne_none t) (Nat.succ_ne_zero _),
    fun u hu => ?_, h.clock, h.total, fun hnone => ?_, fun u hu => ?_⟩
  · have hne : u ≠ t := fun heq => hu (congrArg some heq.symm)
    change Function.update s.place t _ u = _ ∨ Function.update s.place t _ u = _
    rw [Function.update_of_ne hne]
    refine h.waiting u fun hu' => ?_
    rcases hfree with hfree | hfree
    · rw [hfree] at hu'
      cases hu'
    · exact hu (hfree.symm.trans hu')
  · cases hnone
  · obtain rfl := Option.some.inj hu
    change Books.At _ _ _ (Function.update s.place t _ t)
    rw [hself]
    rcases hfree with hfree | hfree
    · -- nobody had it: the first of a hold
      have hnest := h.free.mp hfree
      obtain ⟨hsettled, hwaits, hholds⟩ := h.unowned hfree
      have ht0 : t0 = BitVec.ofNat 32 (askedAt t es) := by
        have hwait := h.waiting t (by rw [hfree]; exact (Option.some_ne_none t).symm)
        rw [hp] at hwait
        exact Place.asked.inj (hwait.resolve_left Place.noConfusion)
      refine ⟨ht0, hsettled, fun _ => ⟨?_, hholds⟩, fun h1 => absurd ?_ h1⟩
      · have hentered : entered (.obtains t :: es) = entered es + 1 :=
          if_pos (h.nest.symm.trans hnest)
        exact (congrArg (· + 1) hwaits).trans hentered.symm
      · exact congrArg (· + 1) hnest
    · have hat := h.owned t hfree
      rw [hp] at hat
      obtain ⟨ht0, hsettled, hbegun, hpaid⟩ := hat
      have hnest : depth es ≠ 0 := by
        intro h0
        have := h.free.mpr (h.nest.trans h0)
        rw [hfree] at this
        cases this
      have hentered : entered (.obtains t :: es) = entered es := if_neg hnest
      refine ⟨ht0, hsettled, fun h1 => absurd (Nat.succ.inj h1) (h.nest ▸ hnest), fun _ =>
        ⟨hbegun, hpaid.1.trans hentered.symm, hpaid.2⟩⟩

/-- `perf_add` reads the clock: **a span from the task's own beginning**. -/
theorem read {slot : Slot} {t0 : BitVec 32} (h : Inv began es s)
    (hp : s.place t = .reading slot t0) :
    Inv began (.reads t slot s.now :: es) (s.go t (.adding slot (s.getTime - t0) .count)) := by
  obtain ⟨hown, hat⟩ := h.at_place hp id
  have hspans : ∀ k, spans k (.reads t slot s.now :: es) =
      if slot = k then (s.now - begunAt t es k) :: spans k es else spans k es := fun _ => rfl
  cases slot with
  | wait =>
    obtain ⟨hnest, rfl, hsettled, hwaits, hholds⟩ := hat
    refine h.moved hown rfl rfl rfl rfl rfl (fun _ _ => rfl) (h.clock t) (fun _ _ => rfl) h.total
      ⟨hnest, ⟨_, _, rfl, ofNat_sub_ofNat (h.clock t).1, hsettled .wait⟩, fun k hk => ?_, hwaits,
        hholds⟩
    change _ = counter (spans k (.reads t .wait s.now :: es))
    rw [hspans, if_neg (Ne.symm hk)]
    exact hsettled k
  | hold =>
    obtain ⟨hnest, rfl, hsum, hsettled, hwaits, hholds⟩ := hat
    have htotal : began + ((s.now - startedAt t es) + (spans .hold es).sum) ≤ s.now := by
      rw [Nat.add_left_comm]
      exact (Nat.add_le_add_left hsum _).trans (Nat.sub_add_cancel (h.clock t).2).le
    refine h.moved hown rfl rfl rfl rfl rfl (fun _ _ => rfl) (h.clock t) (fun _ _ => rfl) htotal
      ⟨hnest, ⟨_, _, rfl, ofNat_sub_ofNat (h.clock t).2, hsettled .hold⟩, fun k hk => ?_, hwaits,
        congrArg (· + 1) hholds⟩
    change _ = counter (spans k (.reads t .hold s.now :: es))
    rw [hspans, if_neg (Ne.symm hk)]
    exact hsettled k

/-- **A line of `perf_add`**: after the last one the span is counted. -/
theorem add {slot : Slot} {dt : BitVec 32} {line : Line} (h : Inv began es s)
    (hp : s.place t = .adding slot dt line) :
    Inv began (.acted :: es) { s.go t (line.next slot dt) with
      lpSlots := Function.update s.lpSlots slot (line.act dt (s.lpSlots slot)) } := by
  obtain ⟨hown, hnest, ⟨d, l, hspans, rfl, hslot⟩, hothers, hpaid⟩ := h.at_place hp id
  have hself : Function.update s.lpSlots slot (line.act (BitVec.ofNat 32 d) (s.lpSlots slot)) slot
      = line.act (BitVec.ofNat 32 d) (line.before (BitVec.ofNat 32 d) (counter l)) :=
    (Function.update_self ..).trans (congrArg (line.act _) hslot)
  have hother : ∀ k, k ≠ slot → Function.update s.lpSlots slot
      (line.act (BitVec.ofNat 32 d) (s.lpSlots slot)) k = counter (spans k es) := fun k hk =>
    (Function.update_of_ne hk ..).trans (hothers k hk)
  refine h.acted hown rfl rfl rfl rfl ?_
  cases line with
  | count => exact ⟨hnest, ⟨d, l, hspans, rfl, hself⟩, hother, hpaid⟩
  | sum => exact ⟨hnest, ⟨d, l, hspans, rfl, hself⟩, hother, hpaid⟩
  | max =>
    have hsettled : ∀ k, Function.update s.lpSlots slot
        (Line.max.act (BitVec.ofNat 32 d) (s.lpSlots slot)) k = counter (spans k es) := by
      intro k
      rcases eq_or_ne k slot with rfl | hk
      · refine hself.trans ((act_act_act _ _).trans ?_)
        rw [← counter_cons, ← hspans]
        rfl
      · exact hother k hk
    cases slot with
    | wait => exact ⟨hnest, hsettled, hpaid⟩
    | hold => exact ⟨hsettled, fun _ => hpaid, fun h1 => absurd hnest h1⟩

/-- **The semaphore is left**, to nobody when this was the outermost hold. -/
theorem release (h : Inv began es s) (hp : s.place t = .releasing) : Inv began (.frees t :: es)
    { s.go t .idle with
      ssOwner := if s.ssNestCount = 1 then none else some t
      ssNestCount := s.ssNestCount - 1 } := by
  obtain ⟨hown, hsettled, hlast, hinner⟩ := h.at_place hp id
  have hpos : s.ssNestCount ≠ 0 := by
    intro h0
    have := h.free.mpr h0
    rw [hown] at this
    cases this
  have hended : ended (.frees t :: es) = if s.ssNestCount = 1 then ended es + 1 else ended es := by
    rw [h.nest]
    rfl
  refine ⟨congrArg (· - 1) h.nest, ?_, fun u hu => ?_, h.clock, h.total, fun hnone => ?_,
    fun u hu => ?_⟩
  · change (if s.ssNestCount = 1 then none else some t) = none ↔ s.ssNestCount - 1 = 0
    split
    · next h1 => exact iff_of_true rfl (by rw [h1])
    · next h1 => exact iff_of_false (Option.some_ne_none t) (by omega)
  · change Function.update s.place t _ u = _ ∨ Function.update s.place t _ u = _
    rcases eq_or_ne u t with rfl | hne
    · exact .inl (Function.update_self ..)
    · rw [Function.update_of_ne hne]
      exact h.waiting u fun hu' => hne (Option.some.inj (hu'.symm.trans hown))
  · change (if s.ssNestCount = 1 then none else some t) = none at hnone
    split at hnone
    · next h1 =>
      rw [if_pos h1] at hended
      exact ⟨hsettled, (hlast h1).1, (hlast h1).2.trans hended.symm⟩
    · cases hnone
  · change (if s.ssNestCount = 1 then none else some t) = some u at hu
    split at hu
    · cases hu
    · next h1 =>
      obtain rfl := Option.some.inj hu
      rw [if_neg h1] at hended
      obtain ⟨hbegun, hwaits, hholds⟩ := hinner h1
      change Books.At _ _ _ (Function.update s.place t .idle t)
      rw [Function.update_self]
      exact ⟨hsettled, hbegun, hwaits, hholds.trans (congrArg (· + 0) hended.symm)⟩

/-- **Every step keeps the invariant.** -/
theorem next (h : Inv began es s) (hs : Step s e s') : Inv began (e :: es) s' := by
  cases hs with
  | pass d => exact h.pass d
  | ask t hp => exact h.ask hp
  | take t t0 hp hfree => exact h.take hp hfree
  | first t t0 hp h1 =>
    obtain ⟨hown, ht0, hsettled, hfirst, -⟩ := h.at_place hp id
    exact h.acted hown rfl rfl rfl rfl ⟨h1, ht0, hsettled, hfirst h1⟩
  | again t t0 hp h1 =>
    obtain ⟨hown, -, hsettled, -, hagain⟩ := h.at_place hp id
    exact h.acted hown rfl rfl rfl rfl ⟨hsettled, hagain h1⟩
  | read t slot t0 hp => exact h.read hp
  | add t slot dt line hp => exact h.add hp
  | stamp t hp =>
    obtain ⟨hown, hnest, hsettled, hpaid⟩ := h.at_place hp id
    have hself : startedAt t (.starts t s.now :: es) = s.now := if_pos rfl
    refine h.moved hown rfl rfl rfl rfl rfl (fun _ _ => rfl) ⟨(h.clock t).1, hself.le⟩
      (fun u hu => if_neg (Ne.symm hu)) h.total ⟨hnest, ?_, hself.symm ▸ h.total, hsettled, hpaid⟩
    rw [hself]
    rfl
  | store t t0 hp =>
    obtain ⟨hown, hnest, ht0, hsum, hsettled, hpaid⟩ := h.at_place hp id
    exact h.acted hown rfl rfl rfl rfl ⟨hsettled, ⟨ht0, hsum⟩, hpaid⟩
  | leave t hp hown =>
    have hat := h.owned t hown
    rw [hp] at hat
    exact h.acted hown rfl rfl rfl rfl hat
  | last t hp h1 =>
    obtain ⟨hown, hsettled, hbegun, hpaid⟩ := h.at_place hp id
    exact h.acted hown rfl rfl rfl rfl ⟨h1, hbegun.1, hbegun.2, hsettled, hpaid⟩
  | inner t hp h1 =>
    obtain ⟨hown, hsettled, hrest⟩ := h.at_place hp id
    exact h.acted hown rfl rfl rfl rfl ⟨hsettled, fun h1' => absurd h1' h1, fun _ => hrest⟩
  | release t hp => exact h.release hp

theorem of_history (h : History (Start began) Step es s) : Inv began es s :=
  h.invariant (Inv began) (fun _ h => of_start h) fun _ _ _ _ h hs => h.next hs

/-- **With nobody inside, the books are settled.** -/
theorem settled (h : Inv began es s) (hout : ∀ t, (s.place t).Outside) :
    (books began es s).Settled ∧ (books began es s).Paid 0 0 := by
  cases howner : s.ssOwner with
  | none => exact h.unowned howner
  | some t =>
    have hat := h.owned t howner
    have hplace := hout t
    cases hp : s.place t with
    | idle =>
      rw [hp] at hat
      exact ⟨hat.1, hat.2.2⟩
    | asked t0 =>
      rw [hp] at hat
      exact ⟨hat.2.1, hat.2.2.2⟩
    | _ =>
      rw [hp] at hplace
      exact hplace.elim

end Inv

/-- **The profiler counts every outermost hold once**: in every run of any number of tasks, one at a
time is between the semaphore and its counters; and when none is, each counter says of its spans how
many they are, their sum and the longest, as far as 32 bits tell, there is a wait for every obtain
that found the semaphore free and a hold for every release that left it so, each timed from its own
task's beginning, and the holds together last no longer than the run. -/
theorem lock_prof_exact (h : History (Start began) Step es s) :
    (∀ t u, ¬ (s.place t).Outside → ¬ (s.place u).Outside → t = u) ∧
    began + (spans .hold es).sum ≤ s.now ∧
    ((∀ t, (s.place t).Outside) → (∀ slot, s.lpSlots slot = counter (spans slot es)) ∧
      (spans .wait es).length = entered es ∧ (spans .hold es).length = ended es) := by
  have hinv := Inv.of_history h
  refine ⟨fun t u ht hu => ?_, hinv.total, fun hout => ?_⟩
  · exact Option.some.inj ((hinv.owner ht).symm.trans (hinv.owner hu))
  · obtain ⟨hsettled, hwaits, hholds⟩ := hinv.settled hout
    exact ⟨hsettled, hwaits, hholds⟩

/-- One task holds it twice, while another waits. -/
theorem lock_prof_exact_nested : ∃ (es : List (Event Bool)) (s : State Bool),
    History (Start 100) Step es s ∧ s.now = 112 ∧ spans .wait es = [5] ∧ spans .hold es = [7] ∧
      s.lpSlots .hold = counter [7] := by
  let s₀ : State Bool := ⟨100, none, 0, fun _ => ⟨0, 0, 0⟩, 0, fun _ => .idle⟩
  have h₀ : History (Start 100) Step [] s₀ :=
    .start ⟨rfl, rfl, rfl, fun _ => rfl, fun _ => rfl⟩
  -- the outermost obtain, after five microseconds
  have h₁ := (((h₀.next (.ask false rfl)).next (.pass 5)).next (.take false _ rfl (.inl rfl))).next
    (.first false _ rfl rfl)
  have h₂ := (((h₁.next (.read false .wait _ rfl)).next (.add false .wait _ .count rfl)).next
    (.add false .wait _ .sum rfl)).next (.add false .wait _ .max rfl)
  have h₃ := (h₂.next (.stamp false rfl)).next (.store false _ rfl)
  -- another asks, and this one once more
  have h₄ := ((h₃.next (.ask true rfl)).next (.pass 7)).next (.ask false rfl)
  have h₅ := (h₄.next (.take false _ rfl (.inr rfl))).next (.again false _ rfl (by decide))
  have h₆ := ((h₅.next (.leave false rfl rfl)).next (.inner false rfl (by decide))).next
    (.release false rfl)
  have h₇ := ((h₆.next (.leave false rfl rfl)).next (.last false rfl rfl)).next
    (.read false .hold _ rfl)
  have h₈ := (((h₇.next (.add false .hold _ .count rfl)).next (.add false .hold _ .sum rfl)).next
    (.add false .hold _ .max rfl)).next (.release false rfl)
  refine ⟨_, _, h₈, rfl, rfl, rfl, ((lock_prof_exact h₈).2.2 fun t => ?_).1 .hold⟩
  cases t
  · trivial
  · trivial

end LockProf
