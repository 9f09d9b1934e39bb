import Mathlib.Algebra.Order.Ring.Int
import Mathlib.Data.List.Infix

/-!
# Machinery/Compare — the first place where two lists differ

A compare goes through two lists side by side and returns the difference of the first two values
that differ (`difference`).  It skips what the lists have in common (`difference_append`), so a loop
may take several elements at once.  When neither list is the beginning of the other, the result is
`0` for equal lists only (`difference_eq_zero`).
-/

namespace Machinery

variable {α : Type*} {v : α → ℕ} {l l' : List α}

/-! ## Where two lists part -/

/-- Neither list goes on where the other one ends. -/
def Aligned (l l' : List α) : Prop := (l <+: l' → l = l') ∧ (l' <+: l → l = l')

/-- **Two aligned lists that differ do so at some first place**, inside both. -/
theorem Aligned.exists_first (h : Aligned l l') (hne : l ≠ l') :
    ∃ u c d s s', l = u ++ c :: s ∧ l' = u ++ d :: s' ∧ c ≠ d := by
  induction l generalizing l' with
  | nil => exact absurd (h.1 List.nil_prefix) hne
  | cons c l ih =>
    cases l' with
    | nil => exact absurd (h.2 List.nil_prefix) hne
    | cons d l' =>
      by_cases hc : c = d
      · subst hc
        have htail : Aligned l l' :=
          ⟨fun hl => List.tail_eq_of_cons_eq (h.1 ((List.prefix_cons_inj c).mpr hl)),
            fun hl => List.tail_eq_of_cons_eq (h.2 ((List.prefix_cons_inj c).mpr hl))⟩
        obtain ⟨u, a, b, s, s', rfl, rfl, hab⟩ := ih htail fun heq => hne (heq ▸ rfl)
        exact ⟨c :: u, a, b, s, s', rfl, rfl, hab⟩
      · exact ⟨[], c, d, l, l', rfl, rfl, hc⟩

/-! ## The difference -/

variable [DecidableEq α]

/-- **The difference at the first place where two lists differ**, `0` if there is none. -/
def difference (v : α → ℕ) : List α → List α → ℤ
  | c :: l, d :: l' => if c = d then difference v l l' else v c - v d
  | _, _ => 0

@[simp] theorem difference_cons_self (v : α → ℕ) (c : α) (l l' : List α) :
    difference v (c :: l) (c :: l') = difference v l l' := if_pos rfl

theorem difference_cons_ne {c d : α} (h : c ≠ d) :
    difference v (c :: l) (d :: l') = v c - v d := if_neg h

/-- **What two lists begin with together does not count.** -/
theorem difference_append (v : α → ℕ) (u l l' : List α) :
    difference v (u ++ l) (u ++ l') = difference v l l' := by
  induction u with
  | nil => rfl
  | cons c u ih => rw [List.cons_append, List.cons_append, difference_cons_self, ih]

@[simp] theorem difference_self (v : α → ℕ) (l : List α) : difference v l l = 0 := by
  have h := difference_append v l [] []
  rwa [List.append_nil] at h

/-- **`0` means equal.** -/
theorem Aligned.difference_eq_zero (h : Aligned l l') (hv : Function.Injective v) :
    difference v l l' = 0 ↔ l = l' := by
  refine ⟨fun hzero => ?_, fun heq => heq ▸ difference_self v l⟩
  by_contra hne
  obtain ⟨u, c, d, s, s', rfl, rfl, hcd⟩ := h.exists_first hne
  rw [difference_append, difference_cons_ne hcd, sub_eq_zero, Nat.cast_inj] at hzero
  exact hcd (hv hzero)

end Machinery
