import Mathlib

/-!
# Machinery/Dial — what a clock that starts over says of the time between two readings

A dial of period `P` shows an instant `T` as `T % P`.  The difference of two of its readings is the
time between them less a period for each turn the dial has made (`sub_shown`); of a sequence of
instants that never goes back, the differences below a bound are those of the gaps that exceed
their turns by less than it (`spans_shown`).

    shown P T        what the dial shows
    differences ts   those of each reading and the next
    gaps Ts          each instant with the next
    elapsed, turns   the time between the two, and how often the dial starts over in it
    keptGaps P n Ts  the gaps whose readings differ by less than `n`
-/

namespace Machinery

variable {P : ℕ} {n : ℤ} {Ts : List ℕ} {p : ℕ × ℕ}

/-- **The dial.** -/
def shown (P T : ℕ) : ℤ := (T % P : ℕ)

/-- Each reading's difference from the one before. -/
def differences (ts : List ℤ) : List ℤ := List.zipWith (fun a b => b - a) ts ts.tail

/-- **Each instant with the next.** -/
def gaps (Ts : List ℕ) : List (ℕ × ℕ) := Ts.zip Ts.tail

/-- The time between the two. -/
def elapsed (p : ℕ × ℕ) : ℕ := p.2 - p.1

/-- How often the dial starts over between the two. -/
def turns (P : ℕ) (p : ℕ × ℕ) : ℕ := p.2 / P - p.1 / P

/-- **The gaps that are longer than their turns by less than a bound.** -/
def keptGaps (P : ℕ) (n : ℤ) (Ts : List ℕ) : List (ℕ × ℕ) :=
  (gaps Ts).filter fun p => elapsed p < P * turns P p + n


/-- **Two readings differ by the time between them, less a period for each turn.** -/
theorem sub_shown (h : p.1 ≤ p.2) : shown P p.2 - shown P p.1 = elapsed p - P * turns P p := by
  have hturns : p.1 / P ≤ p.2 / P := Nat.div_le_div_right h
  have h₁ : ((P * (p.1 / P) + p.1 % P : ℕ) : ℤ) = p.1 := congrArg _ (Nat.div_add_mod p.1 P)
  have h₂ : ((P * (p.2 / P) + p.2 % P : ℕ) : ℤ) = p.2 := congrArg _ (Nat.div_add_mod p.2 P)
  rw [shown, shown, elapsed, turns, Nat.cast_sub h, Nat.cast_sub hturns, ← h₁, ← h₂]
  push_cast
  ring

/-- Instants that never go back. -/
theorem le_of_mem_gaps (hs : Ts.Pairwise (· ≤ ·)) : ∀ p ∈ gaps Ts, p.1 ≤ p.2 := by
  induction Ts with
  | nil => exact fun p hp => absurd hp List.not_mem_nil
  | cons T Ts ih =>
    obtain ⟨hT, hs⟩ := List.pairwise_cons.mp hs
    cases Ts with
    | nil => exact fun p hp => absurd hp List.not_mem_nil
    | cons T' Ts =>
      intro p hp
      rcases List.mem_cons.mp hp with rfl | hp
      · exact hT T' List.mem_cons_self
      · exact ih hs p hp

/-- **The differences of the readings** of instants that never go back. -/
theorem differences_shown (hs : Ts.Pairwise (· ≤ ·)) :
    differences (Ts.map (shown P)) =
      (gaps Ts).map fun p => (elapsed p - P * turns P p : ℤ) := by
  have hpairs (l l' : List ℕ) : List.zipWith (fun a b => shown P b - shown P a) l l' =
      (l.zip l').map fun p => shown P p.2 - shown P p.1 :=
    (List.map_zip_eq_zipWith (f := fun p : ℕ × ℕ => shown P p.2 - shown P p.1)).symm
  rw [differences, ← List.map_tail, List.zipWith_map, hpairs, gaps]
  refine List.map_congr_left fun p hp => ?_
  exact sub_shown (le_of_mem_gaps hs p hp)

/-- **The differences below a bound** are those of the kept gaps. -/
theorem spans_shown (hs : Ts.Pairwise (· ≤ ·)) :
    (differences (Ts.map (shown P))).filter (· < n) =
      (keptGaps P n Ts).map fun p => (elapsed p - P * turns P p : ℤ) := by
  rw [differences_shown hs, List.filter_map, keptGaps]
  refine congrArg _ (List.filter_congr fun p _ => ?_)
  exact decide_eq_decide.mpr sub_lt_iff_lt_add'

/-- What the spans of gaps add up to. -/
theorem sum_spans (ps : List (ℕ × ℕ)) :
    (ps.map fun p => (elapsed p - P * turns P p : ℤ)).sum =
      (ps.map elapsed).sum - P * (ps.map (turns P)).sum := by
  induction ps with
  | nil => rfl
  | cons p ps ih =>
    rw [List.map_cons, List.map_cons, List.map_cons, List.sum_cons, List.sum_cons,
      List.sum_cons, ih]
    push_cast
    ring

end Machinery
