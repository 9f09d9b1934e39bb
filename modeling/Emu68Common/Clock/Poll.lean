import Emu68Common.Clock.Delay

/-!
# Clock/Poll — polling a register against a deadline

`mmio_poll_timeout` reads the register, and if that does not end it, the clock: round after round,
until the register matches, the device is gone, or the deadline has passed by the sign of a 32-bit
difference.  Read often enough, the clock ends the loop in the first round behind the deadline and
never before (`polls_until_iff`).  But the register of that round was read earlier, so a match
between the two reads is not seen (`polls_truly_iff`).

    poll … n k       the round the loop ends in, from round `k` on
-/

namespace Clock

/-- `time_deadline_passed(now, deadline)`. -/
def timeDeadlinePassed (now deadline : U32) : Bool := (deadline - now).toInt < 0

/-- What a poll is for: the register's value under a mask, and how long to wait for it. -/
structure Poll where
  mask : U32
  want : U32
  timeoutUs : U32
  deriving DecidableEq, Repr

variable (c : Poll)

/-- Whether a value of the register matches. -/
abbrev Poll.Matches (result : U32) : Prop := result &&& c.mask = c.want

/-- The loop of `mmio_poll_timeout`: the round it ends in.  In round `k` the register reads `reg k`,
and the clock `time (k + 1)`. -/
def poll (deadline : U32) (reg time : ℕ → U32) : ℕ → ℕ → Option ℕ
  | 0, _ => none
  | n + 1, k =>
    if c.Matches (reg k) then some k
    else if reg k = 0xffffffff then some k
    else if c.timeoutUs ≠ 0 ∧ timeDeadlinePassed (time (k + 1)) deadline then some k
    else poll deadline reg time n (k + 1)

/-- **`mmio_poll_timeout`**: the last value of the register. -/
def mmioPollTimeout (reg time : ℕ → U32) (n : ℕ) : Option U32 :=
  (poll c (time 0 + c.timeoutUs) reg time n 0).map reg

/-! ## The round it ends in -/

/-- Whether the loop ends in a round. -/
def Poll.Stop (deadline : U32) (reg time : ℕ → U32) (k : ℕ) : Prop :=
  c.Matches (reg k) ∨ reg k = 0xffffffff ∨
    c.timeoutUs ≠ 0 ∧ timeDeadlinePassed (time (k + 1)) deadline = true

variable {c} {deadline : U32} {reg time : ℕ → U32} {i k n : ℕ}

theorem poll_succ_of_stop (h : c.Stop deadline reg time i) :
    poll c deadline reg time (n + 1) i = some i := by
  rw [poll]
  split
  · rfl
  split
  · rfl
  rw [if_pos ((h.resolve_left ‹_›).resolve_left ‹_›)]

theorem poll_succ_of_not_stop (h : ¬c.Stop deadline reg time i) :
    poll c deadline reg time (n + 1) i = poll c deadline reg time n (i + 1) := by
  rw [poll, if_neg fun hm => h (Or.inl hm), if_neg fun hg => h (Or.inr (Or.inl hg)),
    if_neg fun ht => h (Or.inr (Or.inr ht))]

/-- **The loop ends in the first round that stops it.** -/
theorem exists_poll_iff : (∃ n, poll c deadline reg time n i = some k) ↔
    i ≤ k ∧ c.Stop deadline reg time k ∧ ∀ l, i ≤ l → l < k → ¬c.Stop deadline reg time l := by
  constructor
  · rintro ⟨n, h⟩
    induction n generalizing i with
    | zero => exact absurd h.symm (Option.some_ne_none k)
    | succ n ih =>
      by_cases hstop : c.Stop deadline reg time i
      · rw [poll_succ_of_stop hstop] at h
        obtain rfl := Option.some.inj h
        exact ⟨le_rfl, hstop, fun l hl hli => absurd hli (Nat.not_lt.mpr hl)⟩
      · rw [poll_succ_of_not_stop hstop] at h
        obtain ⟨hle, hk, hgo⟩ := ih h
        refine ⟨Nat.le_of_succ_le hle, hk, fun l hl hlk => ?_⟩
        rcases Nat.eq_or_lt_of_le hl with rfl | hl
        · exact hstop
        · exact hgo l hl hlk
  · rintro ⟨hle, hk, hgo⟩
    obtain ⟨d, rfl⟩ := Nat.exists_eq_add_of_le hle
    induction d generalizing i with
    | zero => exact ⟨1, poll_succ_of_stop hk⟩
    | succ d ih =>
      have hnext : i + 1 + d = i + (d + 1) := by omega
      obtain ⟨n, hn⟩ := ih (i := i + 1) (by omega) (hnext ▸ hk)
        fun l hl hlk => hgo l (by omega) (by omega)
      refine ⟨n + 1, ?_⟩
      rw [poll_succ_of_not_stop (hgo i le_rfl (by omega)), hn, hnext]

/-! ## The clock -/

/-- **The sign of the difference**, within half the counter's range of the deadline. -/
theorem timeDeadlinePassed_iff {start now : ℕ} {timeout : U32} (hstart : start ≤ now)
    (htimeout : timeout.toNat < 2 ^ 31) (hnow : now < start + timeout.toNat + 2 ^ 31) :
    timeDeadlinePassed (getTime now) (getTime start + timeout) = true ↔
      start + timeout.toNat < now := by
  rw [timeDeadlinePassed, decide_eq_true_iff, BitVec.toInt_neg_iff, BitVec.toNat_sub,
    BitVec.toNat_add, toNat_getTime, toNat_getTime]
  omega

/-- A clock that does not go back, read again within half its counter's range. -/
def Follows (clock : ℕ → ℕ) : Prop := ∀ i, clock i ≤ clock (i + 1) ∧
    clock (i + 1) < clock i + 2 ^ 31

/-- **A round that should end the poll**: the register matches, or the device is gone, or there is a
timeout and more than that has passed. -/
def Poll.Ends (c : Poll) (reg : ℕ → U32) (clock : ℕ → ℕ) (k : ℕ) : Prop :=
  c.Matches (reg k) ∨ reg k = 0xffffffff ∨
    c.timeoutUs ≠ 0 ∧ clock 0 + c.timeoutUs.toNat < clock (k + 1)

variable {clock : ℕ → ℕ}

/-- As long as no round should have ended it, the code's test is right. -/
theorem stop_iff_ends (h : Follows clock) (hc : c.timeoutUs.toNat < 2 ^ 31)
    (hbefore : ∀ l < k, ¬c.Ends reg clock l) :
    c.Stop (getTime (clock 0) + c.timeoutUs) reg (getTime ∘ clock) k ↔ c.Ends reg clock k := by
  have hmono : Monotone clock := monotone_nat_of_le_succ fun i => (h i).1
  rw [Poll.Stop, Poll.Ends]
  by_cases h0 : c.timeoutUs = 0
  · exact or_congr_right (or_congr_right ⟨fun h => absurd h0 h.1, fun h => absurd h0 h.1⟩)
  have hk : clock k ≤ clock 0 + c.timeoutUs.toNat := by
    cases k with
    | zero => omega
    | succ k =>
      by_contra hlt
      exact hbefore k (Nat.lt_succ_self k) (Or.inr (Or.inr ⟨h0, Nat.not_le.mp hlt⟩))
  have hnext := (h k).2
  rw [Function.comp_apply, timeDeadlinePassed_iff (hmono (Nat.zero_le _)) hc (by omega)]

/-- **The poll ends exactly when it should.** -/
theorem polls_until_iff (h : Follows clock) (hc : c.timeoutUs.toNat < 2 ^ 31) (k : ℕ) :
    (∃ n, poll c (getTime (clock 0) + c.timeoutUs) reg (getTime ∘ clock) n 0 = some k) ↔
      c.Ends reg clock k ∧ ∀ l < k, ¬c.Ends reg clock l := by
  have hall : ∀ k, (∀ l < k, ¬c.Ends reg clock l) ↔
      ∀ l < k, ¬c.Stop (getTime (clock 0) + c.timeoutUs) reg (getTime ∘ clock) l := by
    intro k
    induction k with
    | zero => exact ⟨fun _ l hl => absurd hl (Nat.not_lt_zero l),
      fun _ l hl => absurd hl (Nat.not_lt_zero l)⟩
    | succ k ih =>
      constructor
      · intro hends l hl
        have hbefore := fun l hl => hends l (Nat.lt_succ_of_lt hl)
        rcases Nat.lt_succ_iff_lt_or_eq.mp hl with hl | rfl
        · exact ih.mp hbefore l hl
        · exact fun hstop => hends l hl ((stop_iff_ends h hc hbefore).mp hstop)
      · intro hstops l hl
        have hbefore := ih.mpr fun l hl => hstops l (Nat.lt_succ_of_lt hl)
        rcases Nat.lt_succ_iff_lt_or_eq.mp hl with hl | rfl
        · exact hbefore l hl
        · exact fun hend => hstops l hl ((stop_iff_ends h hc hbefore).mpr hend)
  rw [exists_poll_iff]
  constructor
  · rintro ⟨-, hstop, hgo⟩
    have hbefore := (hall k).mpr fun l hl => hgo l (Nat.zero_le l) hl
    exact ⟨(stop_iff_ends h hc hbefore).mp hstop, hbefore⟩
  · rintro ⟨hend, hbefore⟩
    exact ⟨Nat.zero_le k, (stop_iff_ends h hc hbefore).mpr hend,
      fun l _ hl => (hall k).mp hbefore l hl⟩

/-- **`mmio_poll_timeout` returns the register's value of the first round that should end it**, and
if there is such a round, it returns. -/
theorem mmio_poll_timeout_ends (h : Follows clock) (hc : c.timeoutUs.toNat < 2 ^ 31) :
    (∀ n result, mmioPollTimeout c reg (getTime ∘ clock) n = some result →
      ∃ k, result = reg k ∧ c.Ends reg clock k ∧ ∀ l < k, ¬c.Ends reg clock l) ∧
    ∀ k, c.Ends reg clock k → (∀ l < k, ¬c.Ends reg clock l) → ∃ n,
      poll c (getTime (clock 0) + c.timeoutUs) reg (getTime ∘ clock) n 0 = some k ∧
        mmioPollTimeout c reg (getTime ∘ clock) n = some (reg k) := by
  constructor
  · intro n result hresult
    obtain ⟨k, hk, rfl⟩ := Option.map_eq_some_iff.mp hresult
    exact ⟨k, rfl, (polls_until_iff h hc k).mp ⟨n, hk⟩⟩
  · intro k hend hbefore
    obtain ⟨n, hn⟩ := (polls_until_iff h hc k).mpr ⟨hend, hbefore⟩
    refine ⟨n, hn, ?_⟩
    rw [mmioPollTimeout]
    exact congrArg (Option.map reg) hn

/-- A register that matches in the third round, the clock at its wrap. -/
theorem mmio_poll_timeout_ends_third : ∃ n, mmioPollTimeout ⟨1, 1, 100⟩
    (fun k => if k < 2 then 0 else 1) (getTime ∘ fun i => 2 ^ 32 - 10 + 15 * i) n = some 1 := by
  let c : Poll := ⟨1, 1, 100⟩
  let reg : ℕ → U32 := fun k => if k < 2 then 0 else 1
  let clock : ℕ → ℕ := fun i => 2 ^ 32 - 10 + 15 * i
  have hclock : Follows clock := fun i =>
    ((advances_every _ (by decide) (by decide)) i).imp_left Nat.le_of_lt
  have hends : c.Ends reg clock 2 := Or.inl (by decide)
  have hbefore : ∀ l < 2, ¬c.Ends reg clock l := by
    rintro l hl (hmatch | hgone | ⟨-, hlate⟩)
    · rw [Poll.Matches, show reg l = 0 from if_pos hl] at hmatch
      exact absurd hmatch (by decide)
    · rw [show reg l = 0 from if_pos hl] at hgone
      exact absurd hgone (by decide)
    · change 2 ^ 32 - 10 + 15 * 0 + 100 < 2 ^ 32 - 10 + 15 * (l + 1) at hlate
      omega
  obtain ⟨n, -, hn⟩ := (mmio_poll_timeout_ends hclock (by decide)).2 2 hends hbefore
  exact ⟨n, hn⟩

/-! ## A match between the two reads -/

/-- **A poll, and when its reads happen**: the clock's first, and then in every round the register's
and the clock's.  From a moment before the deadline on the register matches. -/
structure Scene (c : Poll) (reg : ℕ → U32) (at_ : ℕ → ℕ) (moment : ℕ) : Prop where
  follows : Follows at_
  positive : 0 < c.timeoutUs.toNat
  small : c.timeoutUs.toNat < 2 ^ 31
  before : moment < at_ 0 + c.timeoutUs.toNat
  satisfied : ∀ k, moment ≤ at_ (2 * k + 1) → c.Matches (reg k)
  present : ∀ k, reg k ≠ 0xffffffff

/-- What the clock reads. -/
def readings (at_ : ℕ → ℕ) (i : ℕ) : U32 := getTime (at_ (2 * i))

variable {at_ : ℕ → ℕ} {moment : ℕ}

/-- **When no timeout is false**: when every round that reads the register before that moment and
then the clock behind the deadline has a match read by then. -/
theorem polls_truly_iff (h : Scene c reg at_ moment) :
    (∀ n result, mmioPollTimeout c reg (readings at_) n = some result → c.Matches result) ↔
      ∀ k, at_ (2 * k + 1) < moment →
        timeDeadlinePassed (readings at_ (k + 1)) (readings at_ 0 + c.timeoutUs) = true →
          ∃ l ≤ k, c.Matches (reg l) := by
  have h0 : c.timeoutUs ≠ 0 := by
    intro h0
    have := h.positive
    rw [h0] at this
    exact Nat.lt_irrefl 0 this
  constructor
  · intro htrue k _ hpassed
    by_contra hnone
    -- the loop ends in this round or before it, and not by a match
    have hstop : c.Stop (readings at_ 0 + c.timeoutUs) reg (readings at_) k :=
      Or.inr (Or.inr ⟨h0, hpassed⟩)
    obtain ⟨l, hl, hfirst⟩ : ∃ l ≤ k, c.Stop (readings at_ 0 + c.timeoutUs) reg (readings at_) l ∧
        ∀ m < l, ¬c.Stop (readings at_ 0 + c.timeoutUs) reg (readings at_) m := by
      classical
      have hex : ∃ l, c.Stop (readings at_ 0 + c.timeoutUs) reg (readings at_) l := ⟨k, hstop⟩
      exact ⟨Nat.find hex, Nat.find_min' hex hstop, Nat.find_spec hex,
        fun m hm => Nat.find_min hex hm⟩
    obtain ⟨n, hn⟩ := exists_poll_iff.mpr ⟨Nat.zero_le l, hfirst.1, fun m _ hm => hfirst.2 m hm⟩
    exact hnone ⟨l, hl, htrue n (reg l) (congrArg (Option.map reg) hn)⟩
  · intro hcond n result hresult
    obtain ⟨k, hk, rfl⟩ := Option.map_eq_some_iff.mp hresult
    obtain ⟨-, hstop, hgo⟩ := exists_poll_iff.mp ⟨n, hk⟩
    rcases hstop with hmatch | hgone | ⟨-, hpassed⟩
    · exact hmatch
    · exact absurd hgone (h.present k)
    · rcases Nat.lt_or_ge (at_ (2 * k + 1)) moment with hearly | hlate
      · obtain ⟨l, hl, hmatch⟩ := hcond k hearly hpassed
        rcases Nat.eq_or_lt_of_le hl with rfl | hl
        · exact hmatch
        · exact absurd (Or.inl hmatch) (hgo l (Nat.zero_le l) hl)
      · exact h.satisfied k hlate

/-- Read every ten microseconds, the register matches in time, and its value is returned. -/
theorem polls_truly_iff_undisturbed :
    mmioPollTimeout ⟨1, 1, 100⟩ (fun k => if k < 3 then 0 else 1) (readings fun i => 10 * i) 5 =
      some 1 ∧ Poll.Matches ⟨1, 1, 100⟩ 1 := by
  let c : Poll := ⟨1, 1, 100⟩
  let reg : ℕ → U32 := fun k => if k < 3 then 0 else 1
  have hresult : mmioPollTimeout c reg (readings fun i => 10 * i) 5 = some 1 := by decide
  have hscene : Scene c reg (fun i => 10 * i) 60 := by
    refine ⟨fun i => by omega, by decide, by decide, by decide, fun k hk => ?_, fun k => ?_⟩
    · have h3 : ¬k < 3 := by omega
      rw [Poll.Matches, show reg k = 1 from if_neg h3]
      decide
    · by_cases h3 : k < 3
      · rw [show reg k = 0 from if_pos h3]
        decide
      · rw [show reg k = 1 from if_neg h3]
        decide
  refine ⟨hresult, (polls_truly_iff hscene).mpr (fun k hk hpassed => ?_) 5 1 hresult⟩
  have h3 : k = 0 ∨ k = 1 ∨ k = 2 := by omega
  rcases h3 with rfl | rfl | rfl
  · exact absurd hpassed (by decide)
  · exact absurd hpassed (by decide)
  · exact absurd hpassed (by decide)

/-- **Preempted between the two reads**: the register is read, and matches from fifty microseconds
on; then the clock is read, a hundred behind the deadline. -/
theorem polls_falsely : Scene ⟨1, 1, 100⟩ (fun k => if k = 0 then 0 else 1)
    (fun i => if i = 0 then 0 else if i = 1 then 10 else 200 + i) 50 ∧
    mmioPollTimeout ⟨1, 1, 100⟩ (fun k => if k = 0 then 0 else 1)
      (readings fun i => if i = 0 then 0 else if i = 1 then 10 else 200 + i) 1 = some 0 ∧
    ¬Poll.Matches ⟨1, 1, 100⟩ 0 := by
  refine ⟨⟨fun i => ?_, by decide, by decide, by decide, fun k hk => ?_, fun k => ?_⟩, by decide,
    by decide⟩
  · rcases i with _ | _ | i
    · decide
    · decide
    · simp only [Nat.add_eq_zero_iff, Nat.add_eq_right, one_ne_zero, and_false, if_false]
      omega
  · split
    · rename_i h0
      subst h0
      exact absurd hk (by decide)
    · decide
  · split <;> decide

end Clock
