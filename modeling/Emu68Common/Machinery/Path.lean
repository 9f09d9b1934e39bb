import Mathlib.Data.List.Nodup
import Mathlib.Logic.Relation

/-!
# Machinery/Path — a linked structure and the list of its nodes

`Path next a z l` says that following `next` from `a` meets the nodes of `l`, in order, and then
`z`.  The links live in some mutable state, so what matters is which changes of `next` a path
survives: those off its nodes (`Path.congr`).  Everything reachable is a node of the path, or past
its end (`Path.mem_of_reaches`).
-/

namespace Machinery

variable {α : Type*} {next next' : α → Option α} {a b z : α} {l : List α}

/-- **A path from `a` through the nodes of `l` to `z`.** -/
inductive Path (next : α → Option α) : α → α → List α → Prop where
  | nil (z : α) : Path next z z []
  | cons {a b z : α} {l : List α} (h : next a = some b) (p : Path next b z l) :
    Path next a z (a :: l)

/-- One node is linked to another. -/
def Links (next : α → Option α) (a b : α) : Prop := next a = some b

/-- A node reachable by links. -/
def OnPath (next : α → Option α) (a b : α) : Prop := Relation.ReflTransGen (Links next) a b

namespace Path

/-- Links changed off a path leave it alone. -/
theorem congr (p : Path next a z l) (h : ∀ b ∈ l, next' b = next b) : Path next' a z l := by
  induction p with
  | nil z => exact .nil z
  | cons hab _ ih =>
    exact .cons ((h _ List.mem_cons_self).trans hab)
      (ih fun b hb => h b (List.mem_cons_of_mem _ hb))

/-- The first node of a path, and the rest. -/
theorem tail (p : Path next a z (b :: l)) : b = a ∧ ∃ c, next a = some c ∧ Path next c z l := by
  cases p with
  | cons hab p => exact ⟨rfl, _, hab, p⟩

theorem eq_of_nil (p : Path next a z []) : a = z := by
  cases p with
  | nil => rfl

/-- A path that does not start where it ends has a first node. -/
theorem exists_cons (p : Path next a z l) (hne : a ≠ z) :
    ∃ b l', l = a :: l' ∧ next a = some b ∧ Path next b z l' := by
  cases p with
  | nil => exact absurd rfl hne
  | cons hab p => exact ⟨_, _, rfl, hab, p⟩

/-- A node of a path has a link. -/
theorem isSome_of_mem (p : Path next a z l) (h : b ∈ l) : (next b).isSome := by
  induction p with
  | nil => exact absurd h List.not_mem_nil
  | cons hab _ ih =>
    rcases List.mem_cons.mp h with rfl | h
    · rw [hab]; rfl
    · exact ih h

/-- **Whatever can be reached is a node of the path**, or its end. -/
theorem mem_of_reaches (p : Path next a z l) (hz : next z = none) (h : OnPath next a b) :
    b ∈ l ∨ b = z := by
  induction p with
  | nil z =>
    rcases Relation.ReflTransGen.cases_head h with rfl | ⟨c, hc, -⟩
    · exact Or.inr rfl
    · exact absurd (hz.symm.trans hc) (by simp)
  | cons hab p ih =>
    rcases Relation.ReflTransGen.cases_head h with rfl | ⟨c, hc, hreach⟩
    · exact Or.inl List.mem_cons_self
    · obtain rfl := Option.some.inj (hab.symm.trans hc)
      exact (ih hz hreach).imp_left (List.mem_cons_of_mem _)

/-- A node is taken out by linking the one before it past it. -/
theorem relink {c d : α} {l' : List α} (p : Path next a z (l ++ c :: d :: l'))
    (hc : next' c = next d)
    (h : ∀ b ∈ l ++ l', next' b = next b) : Path next' a z (l ++ c :: l') := by
  induction l generalizing a with
  | nil =>
    obtain ⟨rfl, e, hnext, p⟩ := p.tail
    obtain ⟨rfl, f, hd, p⟩ := p.tail
    exact .cons (hc.trans hd) (p.congr h)
  | cons b l ih =>
    obtain ⟨rfl, e, hnext, p⟩ := p.tail
    exact .cons ((h b List.mem_cons_self).trans hnext)
      (ih p fun b hb => h b (List.mem_cons_of_mem _ hb))

/-- The node behind part of a path. -/
theorem next_of_append {c : α} {l' : List α} (p : Path next a z (l ++ c :: l')) :
    next c = some (l'.headD z) := by
  induction l generalizing a with
  | nil =>
    obtain ⟨rfl, b, hnext, p⟩ := p.tail
    cases l' with
    | nil => exact hnext.trans (congrArg some p.eq_of_nil)
    | cons d l' => exact hnext.trans (congrArg some p.tail.1.symm)
  | cons b l ih =>
    obtain ⟨rfl, e, -, p⟩ := p.tail
    exact ih p

/-- Where a path starts. -/
theorem head_eq (p : Path next a z l) : a = l.headD z := by
  cases p with
  | nil => rfl
  | cons => rfl

end Path

end Machinery
