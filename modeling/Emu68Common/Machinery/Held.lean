import Mathlib.Algebra.BigOperators.Group.Finset.Basic
import Mathlib.Data.Multiset.AddSub
import Mathlib.Logic.Relation

/-!
# Machinery/Held — what a program takes, and what it gives back

A program asks a system for things, each of which it may be refused, uses what it was given, and
gives it back.  It has no result when it uses or gives back what it does not have (`Call`).  What a
piece of it does with its own things it does whatever else is held (`Trades`, `Trades.run`), so
pieces are put together one after the other (`Trades.bind`) and side by side (`Pool.Balanced.run`).

    Call R α            a program that holds things of `R`
    Trades pre x post   `x` runs on `pre`, and leaves something of `post` in its place
-/

namespace Machinery

variable {R α β : Type}

/-- **Where a program runs**: what it holds, and what the system is going to answer it. -/
structure World (R : Type) where
  held : Multiset R
  answers : ℕ → ℕ

/-- **A program** that holds things of a kind; it has no result when it uses what it does not
have. -/
abbrev Call (R : Type) : Type → Type := StateT (World R) Option

/-- The system's next answer. -/
def ask : Call R ℕ := fun w => some (w.answers 0, { w with answers := fun n => w.answers (n + 1) })

/-- Something is held now. -/
def take (r : R) : Call R Unit := fun w => some ((), { w with held := r ::ₘ w.held })

section Uses

variable [DecidableEq R]

/-- Something is used. -/
def need (r : R) : Call R Unit := fun w => if r ∈ w.held then some ((), w) else none

/-- Something is given back. -/
def give (r : R) : Call R Unit := fun w =>
  if r ∈ w.held then some ((), { w with held := w.held.erase r }) else none

end Uses

/-! ## One world -/

section Run

variable {w : World R}

theorem bind_apply (x : Call R α) (f : α → Call R β) (w : World R) :
    (x >>= f) w = (x w).bind fun p => f p.1 p.2 := rfl

theorem pure_apply (a : α) (w : World R) : (pure a : Call R α) w = some (a, w) := rfl

theorem ask_bind_apply (f : ℕ → Call R β) (w : World R) :
    (ask >>= f) w = f (w.answers 0) { w with answers := fun n => w.answers (n + 1) } := rfl

theorem take_bind_apply (r : R) (f : Unit → Call R β) (w : World R) :
    (take r >>= f) w = f () { w with held := r ::ₘ w.held } := rfl

theorem need_bind_apply [DecidableEq R] {r : R} (h : r ∈ w.held) (f : Unit → Call R β) :
    (need r >>= f) w = f () w := by rw [bind_apply, need, if_pos h, Option.bind_some]

theorem give_bind_apply [DecidableEq R] {r : R} (h : r ∈ w.held) (f : Unit → Call R β) :
    (give r >>= f) w = f () { w with held := w.held.erase r } := by
  rw [bind_apply, give, if_pos h, Option.bind_some]

end Run

/-! ## Trades -/

/-- **What a program does with its own**: whatever the system answers and whatever else is held, it
has a result, and holds something else in place of what it had. -/
def Trades (pre : Multiset R) (x : Call R α) (post : α → Multiset R → Prop) : Prop :=
  ∀ w rest, w.held = pre + rest →
    ∃ a w' own, x w = some (a, w') ∧ post a own ∧ w'.held = own + rest

namespace Trades

variable {pre own : Multiset R} {x : Call R α} {f : α → Call R β} {a : α}
  {mid : α → Multiset R → Prop} {post : β → Multiset R → Prop} {post' : α → Multiset R → Prop}

theorem pure (h : mid a pre) : Trades pre (Pure.pure a : Call R α) mid :=
  fun w _ hw => ⟨a, w, pre, rfl, h, hw⟩

/-- **One after the other.** -/
theorem bind (hx : Trades pre x mid) (hf : ∀ a own, mid a own → Trades own (f a) post) :
    Trades pre (x >>= f) post := by
  intro w rest hw
  obtain ⟨a, w', own, hrun, hmid, hheld⟩ := hx w rest hw
  obtain ⟨b, w'', own', hrun', hpost, hheld'⟩ := hf a own hmid w' rest hheld
  refine ⟨b, w'', own', ?_, hpost, hheld'⟩
  change (x w >>= fun p => f p.1 p.2) = _
  rw [hrun]
  exact hrun'

/-- **What is not traded stays.** -/
theorem frame (hx : Trades pre x mid) (stays : Multiset R) :
    Trades (pre + stays) x fun a own => ∃ o, mid a o ∧ own = o + stays := by
  intro w rest hw
  obtain ⟨a, w', own, hrun, hmid, hheld⟩ := hx w (stays + rest) (hw.trans (add_assoc _ _ _))
  exact ⟨a, w', own + stays, hrun, ⟨own, hmid, rfl⟩, hheld.trans (add_assoc _ _ _).symm⟩

theorem mono (hx : Trades pre x mid) (h : ∀ a own, mid a own → post' a own) :
    Trades pre x post' := by
  intro w rest hw
  obtain ⟨a, w', own, hrun, hmid, hheld⟩ := hx w rest hw
  exact ⟨a, w', own, hrun, h a own hmid, hheld⟩

/-- Whatever the system answers. -/
theorem ask_bind {f : ℕ → Call R β} (hf : ∀ n, Trades pre (f n) post) :
    Trades pre (ask >>= f) post :=
  fun w rest hw => hf (w.answers 0) { w with answers := fun n => w.answers (n + 1) } rest hw

theorem take_bind {r : R} {f : Unit → Call R β} (hf : Trades (r ::ₘ pre) (f ()) post) :
    Trades pre (take r >>= f) post :=
  fun _ rest hw => hf _ rest ((congrArg (r ::ₘ ·) hw).trans (Multiset.cons_add _ _ _).symm)

/-- Something is held now. -/
theorem take (r : R) : Trades pre (take r) fun _ own => own = r ::ₘ pre :=
  take_bind (f := Pure.pure) (.pure rfl)

section Uses

variable [DecidableEq R] {r : R}

/-- What is held may be used. -/
theorem need (hr : r ∈ pre) : Trades pre (need r) fun _ own => own = pre := by
  intro w rest hw
  have hmem : r ∈ w.held := hw ▸ Multiset.mem_add.mpr (.inl hr)
  exact ⟨(), w, pre, if_pos hmem, rfl, hw⟩

/-- What is held may be given back. -/
theorem give (hr : r ∈ pre) : Trades pre (give r) fun _ own => own = pre.erase r := by
  intro w rest hw
  have hmem : r ∈ w.held := hw ▸ Multiset.mem_add.mpr (.inl hr)
  refine ⟨(), _, pre.erase r, if_pos hmem, rfl, ?_⟩
  change w.held.erase r = _
  rw [hw, Multiset.erase_add_left_pos _ hr]

theorem need_bind {f : Unit → Call R β} (hr : r ∈ pre) (hf : Trades pre (f ()) post) :
    Trades pre (Machinery.need r >>= f) post :=
  (need hr).bind fun _ _ h => h ▸ hf

theorem give_bind {f : Unit → Call R β} (hr : r ∈ pre) (hf : Trades (pre.erase r) (f ()) post) :
    Trades pre (Machinery.give r >>= f) post :=
  (give hr).bind fun _ _ h => h ▸ hf

end Uses

end Trades

/-! ## Side by side -/

section Pool

variable {ι Obj : Type} [Fintype ι] [DecidableEq ι]

/-- **Things, and the world they are in.** -/
structure Pool (ι Obj R : Type) where
  objs : ι → Obj
  world : World R

/-- **All that is held is the things'**, and what was held before there were any. -/
def Pool.Balanced (owns : Obj → Multiset R) (rest : Multiset R) (p : Pool ι Obj R) : Prop :=
  p.world.held = ∑ i, owns (p.objs i) + rest

variable {Op : Type} {Legal : Obj → Op → Prop} {exec : Obj → Op → Call R Obj}
  {owns : Obj → Multiset R} {rest : Multiset R} {p p' : Pool ι Obj R}

/-- **One of the things does something** that it may do. -/
def Pool.Step (Legal : Obj → Op → Prop) (exec : Obj → Op → Call R Obj)
    (p p' : Pool ι Obj R) : Prop :=
  ∃ i op o w, Legal (p.objs i) op ∧ exec (p.objs i) op p.world = some (o, w) ∧
    p' = ⟨Function.update p.objs i o, w⟩

/-- **What one of the things does with its own goes through**, and the balance is kept. -/
theorem Pool.Balanced.act (h : Pool.Balanced owns rest p) {i : ι} {x : Call R Obj}
    (hx : Trades (owns (p.objs i)) x fun o own => own = owns o) :
    ∃ o w, x p.world = some (o, w) ∧ Pool.Balanced owns rest ⟨Function.update p.objs i o, w⟩ := by
  have hsum : ∀ f : ι → Obj, ∑ j, owns (f j) =
      owns (f i) + ∑ j ∈ Finset.univ.erase i, owns (f j) := fun f =>
    (Finset.add_sum_erase _ _ (Finset.mem_univ i)).symm
  obtain ⟨o, w, own, hrun, rfl, hheld⟩ :=
    hx p.world (∑ j ∈ Finset.univ.erase i, owns (p.objs j) + rest) (by rw [h, hsum, add_assoc])
  refine ⟨o, w, hrun, ?_⟩
  have hothers : ∑ j ∈ Finset.univ.erase i, owns (Function.update p.objs i o j) =
      ∑ j ∈ Finset.univ.erase i, owns (p.objs j) :=
    Finset.sum_congr rfl fun j hj => by rw [Function.update_of_ne (Finset.ne_of_mem_erase hj)]
  change w.held = ∑ j, owns (Function.update p.objs i o j) + rest
  rw [hheld, hsum, Function.update_self, hothers, add_assoc]

/-- **Any run keeps the balance.** -/
theorem Pool.Balanced.run
    (hop : ∀ o op, Legal o op → Trades (owns o) (exec o op) fun o' own => own = owns o')
    (h : Pool.Balanced owns rest p) (hrun : Relation.ReflTransGen (Pool.Step Legal exec) p p') :
    Pool.Balanced owns rest p' := by
  induction hrun with
  | refl => exact h
  | tail _ hstep ih =>
    obtain ⟨i, op, o, w, hlegal, hexec, rfl⟩ := hstep
    obtain ⟨o', w', hexec', hbalanced⟩ := ih.act (hop _ op hlegal)
    obtain ⟨rfl, rfl⟩ := Prod.mk.inj (Option.some.inj (hexec.symm.trans hexec'))
    exact hbalanced

end Pool

end Machinery
