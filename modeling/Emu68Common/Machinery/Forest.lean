import Mathlib.Data.List.Basic
import Mathlib.Data.Option.Basic

/-!
# Machinery/Forest — ordered forests, and walking them by parent and next child

A forest of finite trees, each node with its children in an order (`Forest`).  A program sees one
through two calls: the parent of a node, and the child of a node that comes after a given one
(`Linked`).  Going up by the first from any node ends at the root (`Linked.climb`).

    a ── b ── d          preorder   a b d e c
    │    └─── e          beneath a  b d e c
    └─── c
-/

namespace Machinery

/-- **An ordered forest**: its first tree's root, what is beneath that, and the trees beside it. -/
inductive Forest (α : Type) where
  | nil
  | node (a : α) (beneath beside : Forest α)

namespace Forest

variable {α : Type} {parent : α → Option α} {child : α → Option α → Option α} {up a : α}
  {prev : Option α} {f : Forest α} {l : List α}

/-- The nodes, each before what is beneath it, and that before what is beside it. -/
def preorder : Forest α → List α
  | nil => []
  | node a beneath beside => a :: (beneath.preorder ++ beside.preorder)

/-- **The two calls follow the forest**: these are the children of `up` that come after `prev`. -/
def Linked (parent : α → Option α) (child : α → Option α → Option α) :
    α → Option α → Forest α → Prop
  | up, prev, nil => child up prev = none
  | up, prev, node a beneath beside =>
    child up prev = some a ∧ parent a = some up ∧
      Linked parent child a none beneath ∧ Linked parent child up (some a) beside

/-- **Going up** from here passes these, and ends. -/
def Climb (parent : α → Option α) : Option α → List α → Prop
  | k, [] => k = none
  | k, a :: l => k = some a ∧ Climb parent (parent a) l

/-- There is one way up. -/
theorem Climb.unique {k : Option α} {l l' : List α} (h : Climb parent k l)
    (h' : Climb parent k l') : l = l' := by
  induction l generalizing k l' with
  | nil =>
    cases l' with
    | nil => rfl
    | cons b l' => exact nomatch h.symm.trans h'.1
  | cons a l ih =>
    cases l' with
    | nil => exact nomatch h.1.symm.trans h'
    | cons b l' =>
      obtain rfl := Option.some.inj (h.1.symm.trans h'.1)
      rw [ih h.2 h'.2]

/-- **Every node has a way up**, over no more nodes than there are. -/
theorem Linked.climb (h : Linked parent child up prev f) (hup : Climb parent (some up) l)
    (ha : a ∈ f.preorder) :
    ∃ l', Climb parent (some a) l' ∧ l'.length ≤ l.length + f.preorder.length := by
  induction f generalizing up prev l with
  | nil => exact absurd ha List.not_mem_nil
  | node b beneath beside ihbeneath ihbeside =>
    obtain ⟨-, hparent, hbeneath, hbeside⟩ := h
    have hb : Climb parent (some b) (b :: l) := ⟨rfl, hparent ▸ hup⟩
    simp only [preorder, List.length_cons, List.length_append]
    rw [preorder, List.mem_cons, List.mem_append] at ha
    rcases ha with rfl | ha | ha
    · exact ⟨_, hb, by rw [List.length_cons]; omega⟩
    · obtain ⟨l', hl', hle⟩ := ihbeneath hbeneath hb ha
      rw [List.length_cons] at hle
      exact ⟨l', hl', by omega⟩
    · obtain ⟨l', hl', hle⟩ := ihbeside hbeside hup ha
      exact ⟨l', hl', by omega⟩

/-- A node and what is beneath it. -/
def Below (f : Forest α) (a : α) (beneath : Forest α) : Prop :=
  match f with
  | nil => False
  | node b g beside => b = a ∧ g = beneath ∨ g.Below a beneath ∨ beside.Below a beneath

/-- **What is beneath a node is linked to it.** -/
theorem Linked.below {beneath : Forest α} (h : Linked parent child up prev f)
    (hb : f.Below a beneath) : Linked parent child a none beneath := by
  induction f generalizing up prev with
  | nil => exact hb.elim
  | node b g beside ihg ihbeside =>
    obtain ⟨-, -, hg, hbeside⟩ := h
    rcases hb with ⟨rfl, rfl⟩ | hb | hb
    · exact hg
    · exact ihg hg hb
    · exact ihbeside hbeside hb

theorem length_below {beneath : Forest α} (hb : f.Below a beneath) :
    beneath.preorder.length < f.preorder.length := by
  induction f with
  | nil => exact hb.elim
  | node b g beside ihg ihbeside =>
    simp only [preorder, List.length_cons, List.length_append]
    rcases hb with ⟨-, rfl⟩ | hb | hb
    · omega
    · have := ihg hb
      omega
    · have := ihbeside hb
      omega

end Forest

end Machinery
