import Mathlib.Data.BitVec
import Mathlib.Order.Monotone.Basic

/-!
# Clock/Delay — busy waits on the microsecond counter

`get_time` is the time modulo `2 ^ 32`, and `delay_us` compares it with its deadline as a plain
number: in one loop, or in two if the deadline is behind the counter's wrap.  It never returns early
(`passed_of_delay_us`), but a reading counts as past the deadline only if it comes before the next
wrap, and, with a wrap on the way, only after one between the wrap and the deadline (`Seen`).

    spin p time n i          the readings from `i` on while `p` holds of them
    delay_us us time n       the readings the whole delay takes
-/

namespace Clock

abbrev U32 : Type := BitVec 32

/-- `get_time`, at a time. -/
def getTime (t : ℕ) : U32 := BitVec.ofNat 32 t

@[simp] theorem toNat_getTime (t : ℕ) : (getTime t).toNat = t % 2 ^ 32 := BitVec.toNat_ofNat t 32

/-! ## Loops over readings -/

/-- `while (p(get_time())) nop;` from reading `i` on, for so many readings at most: the next one. -/
def spin (p : U32 → Bool) (time : ℕ → U32) : ℕ → ℕ → Option ℕ
  | 0, _ => none
  | n + 1, i => if p (time i) then spin p time n (i + 1) else some (i + 1)

/-- The readings a loop ends at. -/
structure Ends (p : U32 → Bool) (time : ℕ → U32) (i k : ℕ) : Prop where
  le : i ≤ k
  stop : p (time k) = false
  go : ∀ l, i ≤ l → l < k → p (time l) = true

variable {p : U32 → Bool} {time : ℕ → U32} {n i j k : ℕ}

/-- **A loop ends at the first reading `p` does not hold of.** -/
theorem spin_eq_some : spin p time n i = some j ↔ ∃ k, j = k + 1 ∧ k < i + n ∧ Ends p time i k := by
  induction n generalizing i with
  | zero => exact ⟨fun h => absurd h.symm (Option.some_ne_none j), fun ⟨k, _, hk, h⟩ => by
      have := h.le
      omega⟩
  | succ n ih =>
    rw [spin]
    by_cases hp : p (time i) = true
    · rw [if_pos hp, ih]
      constructor
      · rintro ⟨k, hj, hk, h⟩
        refine ⟨k, hj, by omega, Nat.le_of_succ_le h.le, h.stop, fun l hl hlk => ?_⟩
        rcases Nat.eq_or_lt_of_le hl with rfl | hl
        · exact hp
        · exact h.go l hl hlk
      · rintro ⟨k, hj, hk, h⟩
        have hik : i ≠ k := by
          rintro rfl
          exact Bool.false_ne_true (h.stop.symm.trans hp)
        exact ⟨k, hj, by omega, Nat.lt_of_le_of_ne h.le hik, h.stop,
          fun l hl hlk => h.go l (Nat.le_of_succ_le hl) hlk⟩
    · rw [if_neg hp, Option.some.injEq]
      have hstop : p (time i) = false := Bool.eq_false_iff.mpr hp
      constructor
      · rintro rfl
        exact ⟨i, rfl, by omega, le_rfl, hstop, fun l hl hli => absurd hli (Nat.not_lt.mpr hl)⟩
      · rintro ⟨k, hj, -, h⟩
        rcases Nat.eq_or_lt_of_le h.le with rfl | hik
        · exact hj.symm
        · exact absurd (h.go i le_rfl hik) hp

/-- There is a first reading `p` does not hold of, if there is one. -/
theorem exists_ends (p : U32 → Bool) (time : ℕ → U32) (hik : i ≤ k) (hk : p (time k) = false) :
    ∃ l ≤ k, Ends p time i l := by
  induction h : k - i using Nat.strong_induction_on generalizing k with
  | _ d ih =>
    by_cases hearlier : ∃ l, i ≤ l ∧ l < k ∧ p (time l) = false
    · obtain ⟨l, hil, hlk, hl⟩ := hearlier
      obtain ⟨m, hml, hm⟩ := ih (l - i) (by omega) hil hl rfl
      exact ⟨m, hml.trans hlk.le, hm⟩
    · refine ⟨k, le_rfl, hik, hk, fun l hil hlk => ?_⟩
      by_contra hl
      exact hearlier ⟨l, hil, hlk, Bool.eq_false_iff.mpr hl⟩

/-! ## The delay -/

/-- **`delay_us(us)`**: how many readings it takes. -/
def delayUs (us : U32) (time : ℕ → U32) (n : ℕ) : Option ℕ :=
  let timer := time 0
  let stop := timer + us
  (if stop < timer then spin (fun t => stop < t) time n 1 else some 1).bind
    (spin (fun t => t < stop) time n)

/-- **A clock read again and again**: it advances, by less than half its counter's range. -/
def Advances (clock : ℕ → ℕ) : Prop := ∀ i, clock i < clock (i + 1) ∧
    clock (i + 1) < clock i + 2 ^ 31

/-- The time has passed at a reading. -/
def Passed (clock : ℕ → ℕ) (us : U32) (i : ℕ) : Prop := clock 0 + us.toNat ≤ clock i

instance (clock : ℕ → ℕ) (us : U32) : DecidablePred (Passed clock us) := fun i =>
  inferInstanceAs (Decidable (clock 0 + us.toNat ≤ clock i))

/-- When the counter wraps after the first reading. -/
def wrap (clock : ℕ → ℕ) : ℕ := (clock 0 / 2 ^ 32 + 1) * 2 ^ 32

/-- **The deadline is seen to pass**: some later reading comes at or behind it but before the
counter wraps; or, where the counter wraps on the way to it, between the two. -/
def Seen (clock : ℕ → ℕ) (us : U32) : Prop :=
  if clock 0 + us.toNat < wrap clock then
    ∃ i, 0 < i ∧ clock 0 + us.toNat ≤ clock i ∧ clock i < wrap clock
  else ∃ i, wrap clock ≤ clock i ∧ clock i ≤ clock 0 + us.toNat

section Delay

variable {clock : ℕ → ℕ} {us : U32}

theorem Advances.strictMono (h : Advances clock) : StrictMono clock :=
  strictMono_nat_of_lt_succ fun i => (h i).1

/-- **The deadline, and whether the counter wraps before it.** -/
theorem stop_cases (clock : ℕ → ℕ) (us : U32) (hus : us.toNat < 2 ^ 31) :
    (clock 0 + us.toNat < wrap clock ∧ ¬getTime (clock 0) + us < getTime (clock 0) ∧
      (getTime (clock 0) + us).toNat + clock 0 / 2 ^ 32 * 2 ^ 32 = clock 0 + us.toNat) ∨
    (¬clock 0 + us.toNat < wrap clock ∧ getTime (clock 0) + us < getTime (clock 0) ∧
      (getTime (clock 0) + us).toNat + wrap clock = clock 0 + us.toNat) := by
  have hadd : (getTime (clock 0) + us).toNat = (clock 0 % 2 ^ 32 + us.toNat) % 2 ^ 32 := by
    rw [BitVec.toNat_add, toNat_getTime]
  rw [BitVec.lt_def, hadd, toNat_getTime, wrap]
  omega

/-- A reading before the wrap. -/
theorem getTime_before (h : StrictMono clock) {i : ℕ} (hi : clock i < wrap clock) :
    (getTime (clock i)).toNat + clock 0 / 2 ^ 32 * 2 ^ 32 = clock i := by
  have hle := h.monotone (Nat.zero_le i)
  rw [toNat_getTime]
  rw [wrap] at hi
  omega

/-- A reading behind it, but before the next. -/
theorem getTime_behind {i : ℕ} (hi : wrap clock ≤ clock i) (hi' : clock i < wrap clock + 2 ^ 32) :
    (getTime (clock i)).toNat + wrap clock = clock i := by
  rw [toNat_getTime]
  rw [wrap] at hi hi' ⊢
  omega

/-! ### Its two loops -/

/-- The reading a delay ends at. -/
def EndsAt (us : U32) (time : ℕ → U32) (k : ℕ) : Prop :=
  if time 0 + us < time 0 then ∃ k₁, Ends (fun t => time 0 + us < t) time 1 k₁ ∧
    Ends (fun t => t < time 0 + us) time (k₁ + 1) k
  else Ends (fun t => t < time 0 + us) time 1 k

theorem endsAt_of_delayUs {time : ℕ → U32} {n j : ℕ} (h : delayUs us time n = some j) :
    ∃ k, j = k + 1 ∧ EndsAt us time k := by
  rw [delayUs] at h
  obtain ⟨i, hfirst, hsecond⟩ := Option.bind_eq_some_iff.mp h
  obtain ⟨k, hj, -, hk⟩ := spin_eq_some.mp hsecond
  refine ⟨k, hj, ?_⟩
  rw [EndsAt]
  split at hfirst
  · rename_i hwrap
    obtain ⟨k₁, rfl, -, hk₁⟩ := spin_eq_some.mp hfirst
    rw [if_pos hwrap]
    exact ⟨k₁, hk₁, hk⟩
  · rename_i hwrap
    obtain rfl := Option.some.inj hfirst
    rw [if_neg hwrap]
    exact hk

theorem exists_delayUs {time : ℕ → U32} {k : ℕ} (h : EndsAt us time k) :
    ∃ n, delayUs us time n = some (k + 1) := by
  refine ⟨k + 1, ?_⟩
  rw [EndsAt] at h
  rw [delayUs]
  split at h
  · rename_i hwrap
    obtain ⟨k₁, hk₁, hk⟩ := h
    have hle := hk.le
    have hfirst : spin (fun t => time 0 + us < t) time (k + 1) 1 = some (k₁ + 1) :=
      spin_eq_some.mpr ⟨k₁, rfl, by omega, hk₁⟩
    rw [if_pos hwrap, hfirst, Option.bind_some]
    exact spin_eq_some.mpr ⟨k, rfl, by omega, hk⟩
  · rename_i hwrap
    rw [if_neg hwrap, Option.bind_some]
    exact spin_eq_some.mpr ⟨k, rfl, by omega, h⟩

/-! ### What it waits for -/

/-- **A delay never ends early.** -/
theorem passed_of_endsAt (h : Advances clock) (hus : us.toNat < 2 ^ 31) {k : ℕ}
    (hk : EndsAt us (getTime ∘ clock) k) : 0 < k ∧ Passed clock us k := by
  simp only [EndsAt, Function.comp_apply] at hk
  rw [Passed]
  rcases stop_cases clock us hus with ⟨hbefore, hwrap, hstop⟩ | ⟨hbehind, hwrap, hstop⟩
  · rw [if_neg hwrap] at hk
    have hle := h.strictMono (show 0 < k from hk.le)
    have hread := of_decide_eq_false hk.stop
    rw [BitVec.lt_def, Function.comp_apply, toNat_getTime] at hread
    refine ⟨hk.le, ?_⟩
    omega
  · rw [if_pos hwrap] at hk
    obtain ⟨k₁, hk₁, hk⟩ := hk
    have hlt := h.strictMono (show 0 < k₁ from hk₁.le)
    have hlt' := h.strictMono (show k₁ < k from hk.le)
    have hread₁ := of_decide_eq_false hk₁.stop
    have hread := of_decide_eq_false hk.stop
    rw [BitVec.lt_def, Function.comp_apply, toNat_getTime] at hread₁ hread
    have := hk₁.le
    have := hk.le
    rw [wrap] at hbehind hstop
    refine ⟨by omega, ?_⟩
    omega

/-- A delay that ends in time has seen the deadline pass. -/
theorem seen_of_endsAt (h : Advances clock) (hus : us.toNat < 2 ^ 31) {k : ℕ}
    (hk : EndsAt us (getTime ∘ clock) k) (hprompt : ∀ i, Passed clock us i → k ≤ i + 1) :
    Seen clock us := by
  obtain ⟨hpos, hpassed⟩ := passed_of_endsAt h hus hk
  obtain ⟨k, rfl⟩ : ∃ l, k = l + 1 := ⟨k - 1, by omega⟩
  simp only [EndsAt, Function.comp_apply] at hk
  rw [Passed] at hpassed
  rw [Seen]
  rcases stop_cases clock us hus with ⟨hbefore, hwrap, hstop⟩ | ⟨hbehind, hwrap, hstop⟩
  · rw [if_neg hwrap] at hk
    rw [if_pos hbefore]
    refine ⟨k + 1, hpos, hpassed, ?_⟩
    by_contra hlate
    -- else the time had passed two readings before
    have hread := of_decide_eq_false hk.stop
    rw [BitVec.lt_def, Function.comp_apply, toNat_getTime] at hread
    have hstep := (h k).2
    rw [wrap] at hbefore hlate
    cases k with
    | zero => omega
    | succ k =>
      have hstep' := (h k).2
      have := hprompt k (by rw [Passed]; omega)
      omega
  · rw [if_pos hwrap] at hk
    rw [if_neg hbehind]
    obtain ⟨k₁, hk₁, hk⟩ := hk
    have hlt := h.strictMono (show 0 < k₁ from hk₁.le)
    have hread₁ := of_decide_eq_false hk₁.stop
    rw [BitVec.lt_def, Function.comp_apply, toNat_getTime] at hread₁
    refine ⟨k₁, ?_, ?_⟩
    · rw [wrap] at hbehind hstop ⊢
      omega
    · by_contra hlate
      -- else the first loop went on over a reading behind the deadline
      obtain ⟨l, rfl⟩ : ∃ l, k₁ = l + 1 := ⟨k₁ - 1, by have := hk₁.le; omega⟩
      have hstep := (h l).2
      have hle := hk.le
      rw [wrap] at hbehind hstop
      have := hprompt l (by rw [Passed]; omega)
      omega

/-- The clock goes past any time. -/
theorem Advances.exists_passed (h : Advances clock) (us : U32) (n : ℕ) :
    ∃ d, Passed clock us (n + d) := by
  have hadd := h.strictMono.add_le_nat us.toNat n
  have hmono := h.strictMono.monotone (Nat.zero_le n)
  refine ⟨us.toNat, ?_⟩
  rw [Passed, Nat.add_comm n]
  omega

/-- The wrap is still to come. -/
theorem lt_wrap (clock : ℕ → ℕ) : clock 0 < wrap clock := by
  rw [wrap]
  omega

/-- **Without a wrap**, the loop ends at the first reading past the deadline. -/
theorem exists_ends_before (h : Advances clock)
    (hstop : (getTime (clock 0) + us).toNat + clock 0 / 2 ^ 32 * 2 ^ 32 = clock 0 + us.toNat)
    {i : ℕ} (hi : 0 < i) (hpassed : Passed clock us i) (hiwrap : clock i < wrap clock) :
    ∃ k, Ends (fun t => t < getTime (clock 0) + us) (getTime ∘ clock) 1 k ∧
      ∀ j, Passed clock us j → k ≤ j + 1 := by
  have hread : ∀ j, 0 < j → j ≤ i → Passed clock us j →
      decide ((getTime ∘ clock) j < getTime (clock 0) + us) = false := by
    intro j hj hji hpassed
    have hread := getTime_before h.strictMono ((h.strictMono.monotone hji).trans_lt hiwrap)
    rw [decide_eq_false_iff_not, BitVec.lt_def, Function.comp_apply]
    rw [Passed] at hpassed
    omega
  obtain ⟨k, hki, hk⟩ := exists_ends (fun t => t < getTime (clock 0) + us)
    (getTime ∘ clock) (Nat.succ_le_of_lt hi) (hread i hi le_rfl hpassed)
  refine ⟨k, hk, fun j hj => ?_⟩
  by_contra hlt
  -- the loop would have ended at the reading behind `j`
  have hnext : Passed clock us (j + 1) := hj.trans (h j).1.le
  have hgo := hk.go (j + 1) (by omega) (by omega)
  have hstop := hread (j + 1) (Nat.succ_pos j) (by omega) hnext
  exact Bool.false_ne_true (hstop.symm.trans hgo)

/-- **With a wrap**, the first loop ends between the wrap and the deadline. -/
theorem exists_ends_wrap (h : Advances clock) (hus : us.toNat < 2 ^ 31)
    (hstop : (getTime (clock 0) + us).toNat + wrap clock = clock 0 + us.toNat)
    {i : ℕ} (hiwrap : wrap clock ≤ clock i) (hile : clock i ≤ clock 0 + us.toNat) :
    ∃ k, Ends (fun t => getTime (clock 0) + us < t) (getTime ∘ clock) 1 k ∧
      wrap clock ≤ clock k ∧ clock k ≤ clock 0 + us.toNat := by
  have hi : 0 < i := by
    refine Nat.pos_of_ne_zero ?_
    rintro rfl
    exact absurd (lt_wrap clock) (not_lt.mpr hiwrap)
  have hread : decide (getTime (clock 0) + us < (getTime ∘ clock) i) = false := by
    have hread := getTime_behind hiwrap (by omega)
    rw [decide_eq_false_iff_not, BitVec.lt_def, Function.comp_apply]
    omega
  obtain ⟨k, hki, hk⟩ := exists_ends (fun t => getTime (clock 0) + us < t)
    (getTime ∘ clock) (Nat.succ_le_of_lt hi) hread
  have hlt := h.strictMono (show 0 < k from hk.le)
  have hle := h.strictMono.monotone hki
  have hread := of_decide_eq_false hk.stop
  rw [BitVec.lt_def, Function.comp_apply, toNat_getTime] at hread
  refine ⟨k, hk, ?_, hle.trans hile⟩
  rw [wrap] at hstop ⊢
  omega

/-- The first reading past the deadline is not below it. -/
theorem first_passed (h : Advances clock) (hus : us.toNat < 2 ^ 31)
    (hstop : (getTime (clock 0) + us).toNat + wrap clock = clock 0 + us.toNat) {k : ℕ}
    (hle : clock k ≤ clock 0 + us.toNat) (hex : ∃ d, Passed clock us (k + 1 + d)) :
    decide ((getTime ∘ clock) (k + 1 + Nat.find hex) < getTime (clock 0) + us) = false := by
  have hfirst := Nat.find_spec hex
  have hsoon : clock (k + 1 + Nat.find hex) < clock 0 + us.toNat + 2 ^ 31 := by
    cases hd : Nat.find hex with
    | zero =>
      have hstep := (h k).2
      rw [Nat.add_zero]
      omega
    | succ d =>
      have hnot := Nat.find_min hex (show d < Nat.find hex by omega)
      have hstep := (h (k + 1 + d)).2
      rw [Passed] at hnot
      rw [← Nat.add_assoc]
      omega
  have hbehind := lt_wrap clock
  rw [Passed] at hfirst
  have hread : (getTime (clock (k + 1 + Nat.find hex))).toNat + wrap clock =
      clock (k + 1 + Nat.find hex) := getTime_behind (by omega) (by omega)
  rw [decide_eq_false_iff_not, BitVec.lt_def, Function.comp_apply]
  omega

/-- **A delay that sees the deadline pass ends in time.** -/
theorem exists_endsAt_of_seen (h : Advances clock) (hus : us.toNat < 2 ^ 31)
    (hseen : Seen clock us) : ∃ k, EndsAt us (getTime ∘ clock) k ∧
      ∀ i, Passed clock us i → k ≤ i + 1 := by
  simp only [EndsAt, Function.comp_apply]
  rw [Seen] at hseen
  rcases stop_cases clock us hus with ⟨hbefore, hwrap, hstop⟩ | ⟨hbehind, hwrap, hstop⟩
  · rw [if_pos hbefore] at hseen
    obtain ⟨i, hi, hpassed, hiwrap⟩ := hseen
    simp only [if_neg hwrap]
    exact exists_ends_before h hstop hi hpassed hiwrap
  · rw [if_neg hbehind] at hseen
    obtain ⟨i, hiwrap, hile⟩ := hseen
    simp only [if_pos hwrap]
    obtain ⟨k₁, hk₁, hk₁wrap, hle⟩ := exists_ends_wrap h hus hstop hiwrap hile
    -- the second loop ends at the first reading behind that one that is past the deadline
    have hex := h.exists_passed us (k₁ + 1)
    obtain ⟨k, hk, hends⟩ := exists_ends (fun t => t < getTime (clock 0) + us)
      (getTime ∘ clock) (Nat.le_add_right _ _) (first_passed h hus hstop hle hex)
    refine ⟨k, ⟨k₁, hk₁, hends⟩, fun j hj => ?_⟩
    rcases Nat.lt_or_ge k₁ j with hkj | hjk
    · have hmin := Nat.find_min' hex (m := j - (k₁ + 1)) (by
        rw [Nat.add_sub_cancel' (Nat.succ_le_of_lt hkj)]
        exact hj)
      omega
    · -- only the first loop's last reading can be at the deadline itself
      have hjle := h.strictMono.monotone hjk
      rw [Passed] at hj
      have heq : j = k₁ := h.strictMono.injective (by omega)
      have hnext := (h k₁).1
      have hmin := Nat.find_min' hex (m := 0) (by rw [Passed, Nat.add_zero]; omega)
      omega

/-! ### When it waits the right time -/

/-- **The delay waits the right time**: it does not return before the time has passed, and it does
return, no later than at the second reading at which it has. -/
def WaitsRight (clock : ℕ → ℕ) (us : U32) : Prop :=
  (∀ n j, delayUs us (getTime ∘ clock) n = some j → Passed clock us (j - 1)) ∧
    ∃ n j, delayUs us (getTime ∘ clock) n = some j ∧ ∀ i, Passed clock us i → j ≤ i + 2

theorem seen_of_waitsRight (h : Advances clock) (hus : us.toNat < 2 ^ 31)
    (hright : WaitsRight clock us) : Seen clock us := by
  obtain ⟨-, n, j, hdelay, hprompt⟩ := hright
  obtain ⟨k, rfl, hk⟩ := endsAt_of_delayUs hdelay
  exact seen_of_endsAt h hus hk fun i hi => Nat.le_of_succ_le_succ (hprompt i hi)

/-- **When the delay waits the right time**: when it sees the deadline pass. -/
theorem delay_us_waits_right_iff (h : Advances clock) (hus : us.toNat < 2 ^ 31) :
    WaitsRight clock us ↔ Seen clock us := by
  refine ⟨seen_of_waitsRight h hus, fun hseen => ⟨fun n j hdelay => ?_, ?_⟩⟩
  · obtain ⟨k, rfl, hk⟩ := endsAt_of_delayUs hdelay
    exact (passed_of_endsAt h hus hk).2
  · obtain ⟨k, hk, hprompt⟩ := exists_endsAt_of_seen h hus hseen
    obtain ⟨n, hn⟩ := exists_delayUs hk
    exact ⟨n, k + 1, hn, fun i hi => Nat.succ_le_succ (hprompt i hi)⟩

end Delay

/-- A clock read every so many microseconds. -/
theorem advances_every (start : ℕ) {d : ℕ} (hd : 0 < d) (hd' : d < 2 ^ 31) :
    Advances fun i => start + d * i := by
  intro i
  dsimp only
  rw [Nat.mul_succ]
  omega

/-- Read every millisecond, with the wrap still far. -/
theorem delay_us_waits_right_iff_far : WaitsRight (fun i => 5 + 1000 * i) 2500 :=
  (delay_us_waits_right_iff (advances_every 5 (by decide) (by decide)) (by decide)).mpr
    ⟨3, by decide, by decide, by decide⟩

/-- **A deadline two microseconds before the wrap**, the counter read every fifteen: the first
reading behind it is behind the wrap as well, and is taken for one before the deadline. -/
theorem delay_us_misses : Advances (fun i => 2 ^ 32 - 10 + 15 * i) ∧
    ¬WaitsRight (fun i => 2 ^ 32 - 10 + 15 * i) 8 := by
  have hadv : Advances fun i => 2 ^ 32 - 10 + 15 * i := advances_every _ (by decide) (by decide)
  refine ⟨hadv, fun hright => ?_⟩
  have hseen := seen_of_waitsRight hadv (by decide) hright
  rw [Seen, if_pos (by decide)] at hseen
  obtain ⟨i, hi, hpassed, hwrap⟩ := hseen
  have h8 : (8 : U32).toNat = 8 := rfl
  rw [h8] at hpassed
  have hw : wrap (fun i => 2 ^ 32 - 10 + 15 * i) = 2 ^ 32 := by decide
  rw [hw] at hwrap
  omega

end Clock
