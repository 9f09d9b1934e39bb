import Mathlib.Data.List.Basic
import Mathlib.Logic.Relation

/-!
# Machinery/History — runs of a labelled step relation, with what has happened so far

A claim about an interleaving speaks of the order of events as often as of a state: this before
that, at most once.  A run therefore carries its events, the newest first (`History`), and an
invariant is a relation between the events so far and the state (`History.invariant`).

    History Init Step es s     some run from `Init` ends in `s`, and `es` is what happened on it
    Restrict Ok Step           the steps that meet a condition on the state before them
    CanReach R P s             some run from `s` comes to a state with `P`
-/

namespace Machinery

variable {S E : Type*}

/-- **A run**, with its events, the newest first. -/
inductive History (Init : S → Prop) (Step : S → E → S → Prop) : List E → S → Prop where
  | start {s : S} (h : Init s) : History Init Step [] s
  | next {es : List E} {s s' : S} {e : E} (h : History Init Step es s) (hs : Step s e s') :
    History Init Step (e :: es) s'

/-- The steps that meet a condition on the state before them. -/
def Restrict (Ok : S → E → Prop) (Step : S → E → S → Prop) (s : S) (e : E) (s' : S) : Prop :=
  Ok s e ∧ Step s e s'

namespace History

variable {Init : S → Prop} {Step Step' : S → E → S → Prop} {es : List E} {s : S}

/-- **The invariant rule**: what holds at the start and survives every step holds of every run. -/
theorem invariant (Inv : List E → S → Prop) (h : History Init Step es s)
    (start : ∀ s, Init s → Inv [] s)
    (next : ∀ es s e s', Inv es s → Step s e s' → Inv (e :: es) s') : Inv es s := by
  induction h with
  | start h => exact start _ h
  | next _ hs ih => exact next _ _ _ _ ih hs

/-- Fewer steps, fewer runs. -/
theorem mono (h : History Init Step es s) (hsub : ∀ s e s', Step s e s' → Step' s e s') :
    History Init Step' es s := by
  induction h with
  | start h => exact .start h
  | next _ hs ih => exact ih.next (hsub _ _ _ hs)

/-- One run behind another. -/
theorem append {es' : List E} {s' : S} (h : History Init Step es s)
    (h' : History (· = s) Step es' s') : History Init Step (es' ++ es) s' := by
  induction h' with
  | start heq => exact heq ▸ h
  | next _ hs ih => exact ih.next hs

/-- A run under a condition is a run. -/
theorem of_restrict {Ok : S → E → Prop} (h : History Init (Restrict Ok Step) es s) :
    History Init Step es s := h.mono fun _ _ _ hs => hs.2

end History

/-! ## What a run can come to -/

section CanReach

variable {R : S → S → Prop} {P Q I : S → Prop} {s : S}

/-- **Some run comes to a state like this.** -/
def CanReach (R : S → S → Prop) (P : S → Prop) (s : S) : Prop :=
  ∃ s', Relation.ReflTransGen R s s' ∧ P s'

namespace CanReach

theorem here (h : P s) : CanReach R P s := ⟨s, .refl, h⟩

/-- One run behind another. -/
theorem bind (h : CanReach R P s) (hnext : ∀ s, P s → CanReach R Q s) : CanReach R Q s := by
  obtain ⟨s₁, hrun, h₁⟩ := h
  obtain ⟨s₂, hrun', h₂⟩ := hnext s₁ h₁
  exact ⟨s₂, hrun.trans hrun', h₂⟩

theorem step {s' : S} (hs : R s s') (h : CanReach R P s') : CanReach R P s := by
  obtain ⟨s₁, hrun, h₁⟩ := h
  exact ⟨s₁, hrun.head hs, h₁⟩

/-- **The progress rule**: where there is always a step that keeps the invariant and lowers a rank,
a run comes to the end. -/
theorem of_rank (rank : S → ℕ) (hs : I s)
    (h : ∀ s, I s → ¬P s → ∃ s', R s s' ∧ I s' ∧ rank s' < rank s) :
    CanReach R (fun s => I s ∧ P s) s := by
  induction hn : rank s using Nat.strongRecOn generalizing s with
  | ind n ih =>
    by_cases hP : P s
    · exact here ⟨hs, hP⟩
    · obtain ⟨s', hstep, hs', hlt⟩ := h s hs hP
      exact step hstep (ih (rank s') (hn ▸ hlt) hs' rfl)

end CanReach

end CanReach

/-! ## Orders of events -/

/-- **Whenever an event of the first kind happened, one of the second had happened before.** -/
def Precedes (after before : E → Prop) (es : List E) : Prop :=
  ∀ l e l', es = l ++ e :: l' → after e → ∃ e' ∈ l', before e'

theorem precedes_nil (after before : E → Prop) : Precedes after before [] := by
  intro l e l' h
  exact absurd h (by simp)

/-- One more event: nothing to show of the older ones. -/
theorem Precedes.cons {after before : E → Prop} {es : List E} {e : E}
    (h : Precedes after before es) (he : after e → ∃ e' ∈ es, before e') :
    Precedes after before (e :: es) := by
  intro l e' l' heq
  cases l with
  | nil =>
    obtain ⟨rfl, rfl⟩ := List.cons.inj heq
    exact he
  | cons x l => exact h l e' l' (List.cons.inj heq).2

end Machinery
