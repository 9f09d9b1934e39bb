import Emu68Common.Waitq.Queue
import Mathlib.Data.List.Nodup

/-!
# Waitq/Wakeup — no wake-up is lost, and nothing is left behind

Each line of `drv_wait_event` is reached in a certain state of the wait's own data (`At`).  Only two
lines are reached without the lock, and what another task or the device can do to a wait there
keeps its state: signal it, never take a signal away.  So between the check and the sleep a change
either comes before the lock is released, or finds the waiter on the list.

    Sent       the request is out, or the reply's signal is there
    Awake      not asleep, or about to wake up
-/

namespace Waitq

open Machinery

variable {T W σ : Type} {pred : W → σ → Bool} {s s' : State T W σ}
  {e : Event T W} {t t' : T} {w w' : W} {line : Line} {x : Wait} {p : Place W}

/-! ## A wait on a line -/

/-- **The request is out, or replied with the signal still there.** -/
def Wait.Sent (x : Wait) : Prop :=
  x.timer = .outstanding false ∨ (x.timer = .replied false ∧ x.sig = true)

/-- The request is out or replied, and was not aborted. -/
def Wait.Running (x : Wait) : Prop := x.timer = .outstanding false ∨ x.timer = .replied false

/-- The request is with the device, or its reply on the port. -/
def Timer.pending : Timer → Bool
  | .outstanding _ | .replied _ => true
  | _ => false

/-- What a result that is about to be returned stands for. -/
def Decided (x : Wait) (cond : Bool) : Result → Prop
  | .ok => cond = true
  | .timeout => cond = false ∧ (x.timer = .replied false ∨ x.timer = .collected false)
  | .noResources => True

/-- **What holds of a wait on a line**: of its own data, of its place on the list, and of its
predicate. -/
def At (x : Wait) (listed : Prop) (cond : Bool) : Line → Prop
  | .check => x.timer = .unsent ∧ x.sig = false ∧ ¬ listed ∧ x.due = false
  | .ready | .port | .send =>
    x.timer = .unsent ∧ x.sig = false ∧ ¬ listed ∧ x.due = false ∧ cond = false
  | .add => x.Sent ∧ ¬ listed ∧ x.due = false ∧ cond = false
  | .release => x.Sent ∧ listed ∧ x.due = false ∧ x.made = false ∧ cond = false
  | .sleep =>
    x.Sent ∧ listed ∧ (x.due = true → x.sig = true) ∧ (cond = true → x.due = true ∨ x.made = true)
  | .obtain => x.Running ∧ listed
  | .recheck => x.Running ∧ listed ∧ x.made = false
  | .checkIo => x.Running ∧ listed ∧ x.made = false ∧ x.due = false ∧ cond = false
  | .remove rc => x.Running ∧ listed ∧ x.made = false ∧ Decided x cond rc
  | .test rc | .abort rc => x.Running ∧ ¬ listed ∧ Decided x cond rc
  | .waitIo rc => x.timer.pending = true ∧ ¬ listed ∧ Decided x cond rc
  | .clear rc => x.timer.pending = false ∧ ¬ listed ∧ Decided x cond rc
  | .delete rc | .ret rc => x.timer.pending = false ∧ x.sig = false ∧ ¬ listed ∧ Decided x cond rc

theorem Wait.Sent.running (h : x.Sent) : x.Running := h.imp_right And.left

theorem Wait.Sent.pending (h : x.Sent) : x.timer.pending = true := by
  rcases h with h | ⟨h, -⟩ <;> rw [h] <;> rfl

theorem Wait.Running.pending (h : x.Running) : x.timer.pending = true := by
  rcases h with h | h <;> rw [h] <;> rfl

/-- The list is only asked about this wait. -/
theorem At.of_iff {a b : Prop} {c : Bool} (hab : a ↔ b) (h : At x a c line) : At x b c line :=
  propext hab ▸ h

/-- **A change disturbs no wait that is without the lock**, if whoever it concerns is made ready. -/
theorem At.changed {a : Prop} {c c' b : Bool} (hl : line.holds = false) (h : At x a c line)
    (hb : a → c' = true → (c = true ∧ b = x.made) ∨ b = true) :
    At { x with made := b } a c' line := by
  cases line with
  | sleep =>
    obtain ⟨hsent, hlisted, hdue, hcond⟩ := h
    refine ⟨hsent, hlisted, hdue, fun hc' => ?_⟩
    rcases hb hlisted hc' with ⟨hc, rfl⟩ | hb
    · exact hcond hc
    · exact Or.inr hb
  | obtain => exact h
  | _ => exact absurd hl.symm Bool.false_ne_true

/-- **A signal disturbs no wait that is without the lock.** -/
theorem At.signalled {a : Prop} {c : Bool} (hl : line.holds = false) (h : At x a c line) :
    At { x with sig := true } a c line := by
  cases line with
  | sleep =>
    obtain ⟨hsent, hlisted, -, hcond⟩ := h
    exact ⟨hsent.imp_right fun hr => ⟨hr.1, rfl⟩, hlisted, fun _ => rfl, hcond⟩
  | obtain => exact h
  | _ => exact absurd hl.symm Bool.false_ne_true

/-- A reply keeps a result that was decided without it. -/
theorem Decided.replied {c aborting aborted : Bool} {rc : Result} (h : Decided x c rc)
    (ht : x.timer = .outstanding aborting) :
    Decided { x with timer := .replied aborted, sig := true } c rc := by
  cases rc with
  | ok => exact h
  | timeout =>
    obtain ⟨-, h | h⟩ := h
    · cases ht.symm.trans h
    · cases ht.symm.trans h
  | noResources => trivial

/-- **The reply comes with its signal**, on whatever line it finds the wait. -/
theorem At.replied {a : Prop} {c aborting aborted : Bool} (h : At x a c line)
    (ht : x.timer = .outstanding aborting) (hab : aborted = true → aborting = true) :
    At { x with timer := .replied aborted, sig := true } a c line := by
  have hfalse : x.Running → aborted = false := by
    rintro (hr | hr)
    · obtain rfl := Timer.outstanding.inj (ht.symm.trans hr)
      exact Bool.eq_false_iff.mpr fun hab' => absurd (hab hab') (by decide)
    · cases ht.symm.trans hr
  have hsent : x.Running → Wait.Sent { x with timer := .replied aborted, sig := true } :=
    fun hr => Or.inr ⟨by rw [hfalse hr], rfl⟩
  cases line with
  | check | ready | port | send => cases ht.symm.trans h.1
  | add => exact ⟨hsent h.1.running, h.2⟩
  | release => exact ⟨hsent h.1.running, h.2⟩
  | sleep => exact ⟨hsent h.1.running, h.2.1, fun _ => rfl, h.2.2.2⟩
  | obtain | recheck | checkIo => exact ⟨(hsent h.1).running, h.2⟩
  | remove rc => exact ⟨(hsent h.1).running, h.2.1, h.2.2.1, h.2.2.2.replied ht⟩
  | test rc | abort rc => exact ⟨(hsent h.1).running, h.2.1, h.2.2.replied ht⟩
  | waitIo rc => exact ⟨rfl, h.2.1, h.2.2.replied ht⟩
  | clear rc | delete rc | ret rc =>
    have := h.1
    rw [ht] at this
    cases this

/-! ## The invariant -/

/-- **Not asleep, or about to wake up.** -/
def Awake (s : State T W σ) (w : W) : Prop :=
  ∀ t, s.place t = .waiting w .sleep → (s.waits w).sig = true

/-- **The invariant** of the queue. -/
structure Inv (pred : W → σ → Bool) (s : State T W σ) : Prop where
  lock : ∀ t, (s.place t).holds = true ↔ s.owner = some t
  unique : ∀ t t' w l l', s.place t = .waiting w l → s.place t' = .waiting w l' → t = t'
  begun : ∀ t w l, s.place t = .waiting w l → (s.waits w).begun = true
  fresh : ∀ w, (s.waits w).begun = false → s.waits w = .fresh ∧ w ∉ s.waiters
  line : ∀ t w l, s.place t = .waiting w l →
    At (s.waits w) (w ∈ s.waiters) (pred w s.shared) l
  listed : ∀ w ∈ s.waiters, ∃ t l, s.place t = .waiting w l ∧ l.listed = true
  nodup : s.waiters.Nodup
  made : ∀ w, (s.waits w).made = true → w ∈ s.waiters ∧ s.owner ≠ none
  told : ∀ t, s.owner = some t → (s.place t).clean = true → ∀ w, (s.waits w).made = true →
    Awake s w
  woken : ∀ t k, s.place t = .waking k → ∀ i < k, ∀ w, s.waiters[i]? = some w → Awake s w

namespace Inv

/-- Nobody else is in a wait of this task's. -/
theorem ne_of_waiting (h : Inv pred s) (hp : s.place t = .waiting w line) (hne : t' ≠ t)
    (l : Line) :
    s.place t' ≠ .waiting w l := fun h' => hne (h.unique t' t w l line h' hp)

/-- Whoever is elsewhere while this task has the lock is without it. -/
theorem not_holds (h : Inv pred s) (hp : (s.place t).holds = true) (hne : t' ≠ t) :
    (s.place t').holds = false := by
  rw [Bool.eq_false_iff]
  intro h'
  exact hne (Option.some.inj (((h.lock t').mp h').symm.trans ((h.lock t).mp hp)))

/-- With the lock free, nothing is made. -/
theorem not_made (h : Inv pred s) (ho : s.owner = none) (w : W) : (s.waits w).made = false :=
  Bool.eq_false_iff.mpr fun hm => (h.made w hm).2 ho

/-- The lock held here: nobody else is in `drv_wake_up_all`. -/
theorem not_waking (h : Inv pred s) (hp : (s.place t).holds = true) (hne : t' ≠ t) (k : ℕ) :
    s.place t' ≠ .waking k := fun h' => by
  have := h.not_holds hp hne
  rw [h'] at this
  cases this

/-- A task that keeps the lock. -/
theorem keeps_lock (h : Inv pred s) (hq : (s.place t).holds = true) (hp : p.holds = true) :
    (p.holds = true ↔ s.owner = some t)
      ∧ ∀ t', t' ≠ t → ((s.place t').holds = true ↔ s.owner = some t') :=
  ⟨iff_of_true hp ((h.lock t).mp hq), fun t' _ => h.lock t'⟩

theorem of_start (h : Start s) : Inv pred s where
  lock t := by rw [h.place, h.owner]; simp [Place.holds]
  unique t _ _ _ _ hp := by rw [h.place] at hp; cases hp
  begun t _ _ hp := by rw [h.place] at hp; cases hp
  fresh w _ := ⟨h.waits w, by rw [h.waiters]; exact List.not_mem_nil⟩
  line t _ _ hp := by rw [h.place] at hp; cases hp
  listed w hw := by rw [h.waiters] at hw; cases hw
  nodup := by rw [h.waiters]; exact List.nodup_nil
  made w hm := by rw [h.waits] at hm; cases hm
  told t ho := by rw [h.owner] at ho; cases ho
  woken t _ hp := by rw [h.place] at hp; cases hp

/-! ## One task moves -/

variable [DecidableEq T] [DecidableEq W]

omit [DecidableEq W] in
/-- **One task moves, and the rest is to be shown of the state it leaves.** -/
theorem moved (h : Inv pred s) (hplace : ∀ t', s'.place t' = if t' = t then p else s.place t')
    (hlock : p.holds = true ↔ s'.owner = some t)
    (hlocks : ∀ t', t' ≠ t → ((s.place t').holds = true ↔ s'.owner = some t'))
    (hmine : ∀ w l, p = .waiting w l → (∀ t' l', t' ≠ t → s.place t' ≠ .waiting w l')
      ∧ (s'.waits w).begun = true ∧ At (s'.waits w) (w ∈ s'.waiters) (pred w s'.shared) l)
    (hothers : ∀ t' w l, t' ≠ t → s.place t' = .waiting w l → (s'.waits w).begun = true
      ∧ At (s'.waits w) (w ∈ s'.waiters) (pred w s'.shared) l)
    (hfresh : ∀ w, (s'.waits w).begun = false → s'.waits w = .fresh ∧ w ∉ s'.waiters)
    (hlisted : ∀ w ∈ s'.waiters, (∃ l, p = .waiting w l ∧ l.listed = true)
      ∨ ∃ t' l, t' ≠ t ∧ s.place t' = .waiting w l ∧ l.listed = true)
    (hnodup : s'.waiters.Nodup)
    (hmade : ∀ w, (s'.waits w).made = true → w ∈ s'.waiters ∧ s'.owner ≠ none)
    (htold : ∀ t', s'.owner = some t' → (s'.place t').clean = true →
      ∀ w, (s'.waits w).made = true → Awake s' w)
    (hwoken : ∀ t' k, s'.place t' = .waking k → ∀ i < k, ∀ w, s'.waiters[i]? = some w →
      Awake s' w) :
    Inv pred s' := by
  have hself : s'.place t = p := by rw [hplace, if_pos rfl]
  have hother : ∀ t', t' ≠ t → s'.place t' = s.place t' := fun t' hne => by
    rw [hplace, if_neg hne]
  refine ⟨fun t' => ?_, fun t₁ t₂ w l₁ l₂ h₁ h₂ => ?_, fun t' w l h' => ?_, hfresh,
    fun t' w l h' => ?_, fun w hmem => ?_, hnodup, hmade, htold, hwoken⟩
  · by_cases heq : t' = t
    · rw [heq, hself]
      exact hlock
    · rw [hother t' heq]
      exact hlocks t' heq
  · by_cases heq₁ : t₁ = t <;> by_cases heq₂ : t₂ = t
    · rw [heq₁, heq₂]
    · rw [heq₁, hself] at h₁
      rw [hother t₂ heq₂] at h₂
      exact absurd h₂ ((hmine w l₁ h₁).1 t₂ l₂ heq₂)
    · rw [heq₂, hself] at h₂
      rw [hother t₁ heq₁] at h₁
      exact absurd h₁ ((hmine w l₂ h₂).1 t₁ l₁ heq₁)
    · rw [hother t₁ heq₁] at h₁
      rw [hother t₂ heq₂] at h₂
      exact h.unique t₁ t₂ w l₁ l₂ h₁ h₂
  · by_cases heq : t' = t
    · rw [heq, hself] at h'
      exact (hmine w l h').2.1
    · rw [hother t' heq] at h'
      exact (hothers t' w l heq h').1
  · by_cases heq : t' = t
    · rw [heq, hself] at h'
      exact (hmine w l h').2.2
    · rw [hother t' heq] at h'
      exact (hothers t' w l heq h').2
  · rcases hlisted w hmem with ⟨l, hp, hl⟩ | ⟨t', l, hne, hp, hl⟩
    · exact ⟨t, l, hself.trans hp, hl⟩
    · exact ⟨t', l, (hother t' hne).trans hp, hl⟩

/-- **A line that concerns the wait alone**: its task goes on, with or without the lock as
before. -/
theorem own (h : Inv pred s) (hp : s.place t = .waiting w line) {opens : Bool}
    (hplace : p = .holding true ∨ ∃ l, p = .waiting w l ∧ l ≠ .sleep
      ∧ At x (w ∈ s.waiters) (pred w s.shared) l)
    (hholds : p.holds = line.holds)
    (hlisted : line.listed = true → ∃ l, p = .waiting w l ∧ l.listed = true)
    (hbegun : x.begun = true) (hmade : x.made = (s.waits w).made) :
    Inv pred { (s.set w x).go t p with timerOpen := opens } := by
  have hne : ∀ t' w' l, t' ≠ t → s.place t' = .waiting w' l → w' ≠ w := fun t' w' l hne h' heq =>
    h.ne_of_waiting hp hne l (heq ▸ h')
  have hmade' : ∀ w', ((s.set w x).waits w').made = (s.waits w').made := by
    intro w'
    rw [State.set_waits]
    split
    · rename_i heq
      rw [heq, hmade]
    · rfl
  have hawake : ∀ w', Awake s w' → Awake { (s.set w x).go t p with timerOpen := opens } w' := by
    intro w' ha t' ht'
    change ((s.set w x).go t p).place t' = _ at ht'
    change ((s.set w x).waits w').sig = true
    rw [State.go_place] at ht'
    split at ht'
    · rcases hplace with rfl | ⟨l, rfl, hl, -⟩
      · cases ht'
      · exact absurd (Place.waiting.inj ht').2 hl
    · rename_i hne'
      rw [State.set_waits, if_neg (hne t' w' _ hne' ht')]
      exact ha t' ht'
  refine h.moved (State.go_place _ t · p) ?_ (fun t' _ => h.lock t') (fun w' l hl => ?_)
    (fun t' w' l hne' h' => ?_) (fun w' hb => ?_) (fun w' hmem => ?_) h.nodup
    (fun w' hm => h.made w' ((hmade' w').symm.trans hm)) (fun t' ho hc w' hm => ?_)
    fun t' k h' i hi w' hw' => ?_
  · rw [hholds]
    have := h.lock t
    rwa [hp] at this
  · rcases hplace with rfl | ⟨l', rfl, -, hat⟩
    · cases hl
    · obtain ⟨rfl, rfl⟩ := Place.waiting.inj hl
      change _ ∧ ((s.set w x).waits w).begun = true ∧ At ((s.set w x).waits w) _ _ _
      rw [State.set_waits, if_pos rfl]
      exact ⟨fun t' l hne' => h.ne_of_waiting hp hne' l, hbegun, hat⟩
  · change ((s.set w x).waits w').begun = true ∧ At ((s.set w x).waits w') _ _ _
    rw [State.set_waits, if_neg (hne t' w' l hne' h')]
    exact ⟨h.begun t' w' l h', h.line t' w' l h'⟩
  · change ((s.set w x).waits w').begun = false at hb
    change (s.set w x).waits w' = _ ∧ w' ∉ s.waiters
    rw [State.set_waits] at hb ⊢
    split at hb
    · exact absurd (hbegun.symm.trans hb) (by decide)
    · rename_i hne'
      rw [if_neg hne']
      exact h.fresh w' hb
  · obtain ⟨t', l, h', hl⟩ := h.listed w' hmem
    by_cases heq : t' = t
    · rw [heq, hp] at h'
      obtain ⟨rfl, rfl⟩ := Place.waiting.inj h'
      exact Or.inl (hlisted hl)
    · exact Or.inr ⟨t', l, heq, h', hl⟩
  · refine hawake w' (h.told t' ho ?_ w' ((hmade' w').symm.trans hm))
    by_cases heq : t' = t
    · rw [heq, hp]
      rfl
    · change (((s.set w x).go t p).place t').clean = true at hc
      rwa [State.go_place, if_neg heq] at hc
  · change ((s.set w x).go t p).place t' = _ at h'
    rw [State.go_place] at h'
    split at h'
    · rcases hplace with rfl | ⟨l, rfl, -⟩ <;> cases h'
    · exact hawake w' (h.woken t' k h' i hi w' hw')

/-- The same, with the wait left as it is. -/
theorem own_place (h : Inv pred s) (hp : s.place t = .waiting w line)
    (hplace : p = .holding true ∨ ∃ l, p = .waiting w l ∧ l ≠ .sleep
      ∧ At (s.waits w) (w ∈ s.waiters) (pred w s.shared) l)
    (hholds : p.holds = line.holds)
    (hlisted : line.listed = true → ∃ l, p = .waiting w l ∧ l.listed = true) {opens : Bool} :
    Inv pred { s.go t p with timerOpen := opens } := by
  have hset : s.set w (s.waits w) = s := by
    rw [State.set, Function.update_eq_self]
  have : Inv pred { (s.set w (s.waits w)).go t p with timerOpen := opens } :=
    h.own hp hplace hholds hlisted (h.begun t w line hp) rfl
  rwa [hset] at this

/-! ## A task that does not wait -/

omit [DecidableEq W] in
/-- A task between two places that are no line of a wait. -/
theorem outside (h : Inv pred s) (hp : ∀ w l, p ≠ .waiting w l)
    (hq : ∀ w l, s.place t ≠ .waiting w l)
    (hplace : ∀ t', s'.place t' = if t' = t then p else s.place t')
    (hwaiters : s'.waiters = s.waiters) (hlock : p.holds = true ↔ s'.owner = some t)
    (hlocks : ∀ t', t' ≠ t → ((s.place t').holds = true ↔ s'.owner = some t'))
    (hbegun : ∀ w, (s'.waits w).begun = (s.waits w).begun)
    (hfresh : ∀ w, s.waits w = .fresh → w ∉ s.waiters → s'.waits w = .fresh)
    (hline : ∀ t' w l, t' ≠ t → s.place t' = .waiting w l →
      At (s'.waits w) (w ∈ s.waiters) (pred w s'.shared) l)
    (hmade : ∀ w, (s'.waits w).made = true → w ∈ s.waiters ∧ s'.owner ≠ none)
    (htold : ∀ t', s'.owner = some t' → (s'.place t').clean = true →
      ∀ w, (s'.waits w).made = true → Awake s' w)
    (hwoken : ∀ t' k, s'.place t' = .waking k → ∀ i < k, ∀ w, s.waiters[i]? = some w → Awake s' w) :
    Inv pred s' := by
  refine h.moved hplace hlock hlocks (fun w l hl => absurd hl (hp w l)) (fun t' w l hne h' => ?_)
    (fun w hb => ?_) (fun w hmem => ?_) (by rw [hwaiters]; exact h.nodup) (by rwa [hwaiters]) htold
    (by rwa [hwaiters])
  · rw [hwaiters, hbegun]
    exact ⟨h.begun t' w l h', hline t' w l hne h'⟩
  · rw [hbegun] at hb
    obtain ⟨hf, hmem⟩ := h.fresh w hb
    rw [hwaiters]
    exact ⟨hfresh w hf hmem, hmem⟩
  · rw [hwaiters] at hmem
    obtain ⟨t', l, h', hl⟩ := h.listed w hmem
    exact Or.inr ⟨t', l, fun heq => hq w l (heq ▸ h'), h', hl⟩

omit [DecidableEq W] in
theorem obtained (h : Inv pred s) (hq : s.place t = .away) (ho : s.owner = none) :
    Inv pred { s.go t (.holding true) with owner := some t } := by
  refine h.outside (fun w l h' => by cases h') (fun w l h' => by cases hq.symm.trans h')
    (State.go_place s t · _) rfl (iff_of_true rfl rfl) (fun t' hne => ?_) (fun _ => rfl)
    (fun _ hf _ => hf) (fun t' w l _ h' => h.line t' w l h')
    (fun w hm => absurd ((h.not_made ho w).symm.trans hm) (by decide))
    (fun _ _ _ w hm => absurd ((h.not_made ho w).symm.trans hm) (by decide))
    fun t' k h' _ _ _ _ => ?_
  · refine iff_of_false (fun h' => ?_) fun h' => hne (Option.some.inj h').symm
    cases ho.symm.trans ((h.lock t').mp h')
  · change (s.go t _).place t' = _ at h'
    rw [State.go_place] at h'
    split at h'
    · cases h'
    · have := (h.lock t').mp (by rw [h']; rfl)
      cases ho.symm.trans this

theorem changed {clean : Bool} (h : Inv pred s) (hq : s.place t = .holding clean) (y : σ) :
    Inv pred ((s.change pred y).go t (.holding false)) := by
  have hholds : (s.place t).holds = true := by rw [hq]; rfl
  obtain ⟨hlock, hlocks⟩ := h.keeps_lock hholds (p := .holding false) rfl
  have hform : ∀ w, ∃ m, (s.change pred y).waits w = { s.waits w with made := m }
      ∧ (m = true → (s.waits w).made = true ∨ w ∈ s.waiters)
      ∧ (w ∈ s.waiters → pred w y = true →
        (pred w s.shared = true ∧ m = (s.waits w).made) ∨ m = true) := by
    intro w
    by_cases hc : w ∈ s.waiters ∧ pred w s.shared = false ∧ pred w y = true
    · exact ⟨true, if_pos hc, fun _ => Or.inr hc.1, fun _ _ => Or.inr rfl⟩
    · refine ⟨(s.waits w).made, if_neg hc, Or.inl, fun hmem hy => Or.inl ⟨?_, rfl⟩⟩
      exact (Bool.eq_false_or_eq_true _).resolve_right fun hs => hc ⟨hmem, hs, hy⟩
  refine h.outside (fun w l h' => by cases h') (fun w l h' => by cases hq.symm.trans h')
    (State.go_place _ t · _) rfl hlock hlocks (fun w => ?_) (fun w hf hmem => ?_)
    (fun t' w l hne h' => ?_) (fun w hm => ?_) (fun t' ho hc => ?_) fun t' k h' _ _ _ _ => ?_
  · obtain ⟨m, hm, -⟩ := hform w
    change ((s.change pred y).waits w).begun = _
    rw [hm]
  · exact (if_neg fun hc => hmem hc.1).trans hf
  · obtain ⟨m, hm, -, hready⟩ := hform w
    change At ((s.change pred y).waits w) _ _ _
    rw [hm]
    have hl := h.not_holds hholds hne
    rw [h'] at hl
    exact (h.line t' w l h').changed hl hready
  · obtain ⟨m, hm', hmem, -⟩ := hform w
    have hm := (congrArg Wait.made hm').symm.trans hm
    have howner : s.owner ≠ none := by rw [(h.lock t).mp hholds]; exact Option.some_ne_none t
    rcases hmem hm with hold | hmem
    · exact h.made w hold
    · exact ⟨hmem, howner⟩
  · have heq : t' = t := Option.some.inj (ho.symm.trans ((h.lock t).mp hholds))
    rw [State.go_place, if_pos heq] at hc
    cases hc
  · rw [State.go_place] at h'
    split at h'
    · cases h'
    · rename_i hne
      exact absurd h' (h.not_waking hholds hne k)

omit [DecidableEq W] in
theorem wakeAll {clean : Bool} (h : Inv pred s) (hq : s.place t = .holding clean) :
    Inv pred (s.go t (.waking 0)) := by
  have hholds : (s.place t).holds = true := by rw [hq]; rfl
  obtain ⟨hlock, hlocks⟩ := h.keeps_lock hholds (p := .waking 0) rfl
  refine h.outside (fun w l h' => by cases h') (fun w l h' => by cases hq.symm.trans h')
    (State.go_place s t · _) rfl hlock hlocks (fun _ => rfl) (fun _ hf _ => hf)
    (fun t' w l _ h' => h.line t' w l h') h.made (fun t' ho hc => ?_) fun t' k h' i hi => ?_
  · have heq : t' = t := Option.some.inj (ho.symm.trans ((h.lock t).mp hholds))
    rw [State.go_place, if_pos heq] at hc
    cases hc
  · rw [State.go_place] at h'
    split at h'
    · obtain rfl := Place.waking.inj h'
      exact absurd hi (Nat.not_lt_zero i)
    · rename_i hne
      exact absurd h' (h.not_waking hholds hne k)

omit [DecidableEq T] in
/-- A signal keeps everybody awake who was. -/
theorem awake_signal {timer : Timer} (ha : Awake s w') :
    Awake (s.set w { s.waits w with timer := timer, sig := true }) w' := by
  intro t ht
  rw [State.set_waits]
  split
  · rfl
  · exact ha t ht

theorem wakeOne {k : ℕ} (h : Inv pred s) (hq : s.place t = .waking k)
    (hw : s.waiters[k]? = some w) :
    Inv pred ((s.set w { s.waits w with sig := true }).go t (.waking (k + 1))) := by
  have hholds : (s.place t).holds = true := by rw [hq]; rfl
  obtain ⟨hlock, hlocks⟩ := h.keeps_lock hholds (p := .waking (k + 1)) rfl
  have hmem : w ∈ s.waiters := List.mem_of_getElem? hw
  have hgo : ∀ w', Awake (s.set w { s.waits w with sig := true }) w' →
      Awake ((s.set w { s.waits w with sig := true }).go t (.waking (k + 1))) w' := by
    intro w' ha t' ht'
    rw [State.go_place] at ht'
    split at ht'
    · cases ht'
    · exact ha t' ht'
  refine h.outside (fun w l h' => by cases h') (fun w l h' => by cases hq.symm.trans h')
    (State.go_place _ t · _) rfl hlock hlocks (fun w' => ?_) (fun w' hf hmem' => ?_)
    (fun t' w' l hne h' => ?_) (fun w' hm => ?_) (fun t' ho hc => ?_) fun t' k' h' i hi w' hw' => ?_
  · rw [State.go_waits, State.set_waits]
    split
    · rename_i heq
      rw [heq]
    · rfl
  · rw [State.go_waits, State.set_waits, if_neg (by rintro rfl; exact hmem' hmem), hf]
  · have hl := h.not_holds hholds hne
    rw [h'] at hl
    rw [State.go_waits, State.set_waits]
    split
    · rename_i heq
      subst heq
      exact (h.line t' _ l h').signalled hl
    · exact h.line t' w' l h'
  · rw [State.go_waits, State.set_waits] at hm
    split at hm
    · rename_i heq
      rw [heq]
      exact h.made w hm
    · exact h.made w' hm
  · have heq : t' = t := Option.some.inj (ho.symm.trans ((h.lock t).mp hholds))
    rw [State.go_place, if_pos heq] at hc
    cases hc
  · rw [State.go_place] at h'
    split at h'
    · obtain rfl := Place.waking.inj h'
      refine hgo w' ?_
      rcases Nat.lt_succ_iff_lt_or_eq.mp hi with hlt | rfl
      · exact awake_signal (h.woken t k hq i hlt w' hw')
      · obtain rfl := Option.some.inj (hw.symm.trans hw')
        intro t' _
        rw [State.set_waits, if_pos rfl]
    · rename_i hne
      exact absurd h' (h.not_waking hholds hne k')

omit [DecidableEq W] in
theorem wokeAll {k : ℕ} (h : Inv pred s) (hq : s.place t = .waking k)
    (hk : s.waiters[k]? = none) : Inv pred (s.go t (.holding true)) := by
  have hholds : (s.place t).holds = true := by rw [hq]; rfl
  obtain ⟨hlock, hlocks⟩ := h.keeps_lock hholds (p := .holding true) rfl
  have hgo : ∀ w', Awake s w' → Awake (s.go t (.holding true)) w' := by
    intro w' ha t' ht'
    rw [State.go_place] at ht'
    split at ht'
    · cases ht'
    · exact ha t' ht'
  refine h.outside (fun w l h' => by cases h') (fun w l h' => by cases hq.symm.trans h')
    (State.go_place s t · _) rfl hlock hlocks (fun _ => rfl) (fun _ hf _ => hf)
    (fun t' w l _ h' => h.line t' w l h') h.made (fun t' ho hc w hm => hgo w ?_) fun t' k' h' => ?_
  · -- the whole list was signalled, and whoever was made ready is on it
    obtain ⟨i, hi⟩ := List.getElem?_of_mem (h.made w hm).1
    refine h.woken t k hq i (Nat.lt_of_not_le fun hge => ?_) w hi
    obtain ⟨hlt, -⟩ := List.getElem?_eq_some_iff.mp hi
    have := List.getElem?_eq_none_iff.mp hk
    omega
  · rw [State.go_place] at h'
    split at h'
    · cases h'
    · rename_i hne
      exact absurd h' (h.not_waking hholds hne k')

/-! ## The lock let go -/

omit [DecidableEq T] [DecidableEq W] in
/-- **What was made ready is told before the lock is free.** -/
theorem line_letGo (h : Inv pred s) (hq : (s.place t).holds = true)
    (hc : (s.place t).clean = true) (h' : s.place t' = .waiting w line)
    (hl : line.holds = false) :
    At (s.letGo.waits w) (w ∈ s.waiters) (pred w s.shared) line := by
  have hat := h.line t' w line h'
  cases line with
  | sleep =>
    obtain ⟨hsent, hlisted, hdue, hcond⟩ := hat
    refine ⟨hsent, hlisted, fun hd => ?_, fun hp => ?_⟩
    · rcases Bool.or_eq_true_iff.mp hd with hd | hm
      · exact hdue hd
      · exact h.told t ((h.lock t).mp hq) hc w hm t' h'
    · exact Or.inl (Bool.or_eq_true_iff.mpr (hcond hp))
  | obtain => exact hat
  | _ => exact absurd hl.symm Bool.false_ne_true

omit [DecidableEq W] in
/-- **The holder lets go of the lock**, to go its way or to sleep. -/
theorem letsGo (h : Inv pred s) (hq : (s.place t).holds = true)
    (hc : (s.place t).clean = true) (hp : p.holds = false)
    (hmine : ∀ w l, p = .waiting w l → s.place t = .waiting w .release ∧ l = .sleep)
    (hlisted : ∀ w l, s.place t = .waiting w l → l.listed = true →
      ∃ l, p = .waiting w l ∧ l.listed = true) :
    Inv pred (s.letGo.go t p) := by
  refine h.moved (State.go_place _ t · p) (iff_of_false (by rw [hp]; exact Bool.false_ne_true)
    fun ho => by cases ho) (fun t' hne => ?_) (fun w l hl => ?_) (fun t' w l hne h' => ?_)
    (fun w hb => ?_) (fun w hmem => ?_) h.nodup (fun w hm => by cases hm) (fun t' ho => by cases ho)
    fun t' k h' => ?_
  · rw [h.not_holds hq hne]
    exact iff_of_false Bool.false_ne_true fun ho => by cases ho
  · obtain ⟨hrel, rfl⟩ := hmine w l hl
    obtain ⟨hsent, hlisted, hdue, hmade, hcond⟩ := h.line t w _ hrel
    have hdue' : (s.letGo.waits w).due = false := Bool.or_eq_false_iff.mpr ⟨hdue, hmade⟩
    refine ⟨fun t' l hne => h.ne_of_waiting hrel hne l, h.begun t w _ hrel, hsent, hlisted,
      fun hd => ?_, fun hp => ?_⟩
    · cases hdue'.symm.trans hd
    · cases hcond.symm.trans hp
  · have hl := h.not_holds hq hne
    rw [h'] at hl
    exact ⟨h.begun t' w l h', h.line_letGo hq hc h' hl⟩
  · obtain ⟨hf, hmem⟩ := h.fresh w hb
    refine ⟨?_, hmem⟩
    change Wait.mk _ _ _ _ _ = _
    rw [hf]
    rfl
  · obtain ⟨t', l, h', hl⟩ := h.listed w hmem
    by_cases heq : t' = t
    · rw [heq] at h'
      exact Or.inl (hlisted w l h' hl)
    · exact Or.inr ⟨t', l, heq, h', hl⟩
  · rw [State.go_place] at h'
    split at h'
    · rw [h'] at hp
      cases hp
    · rename_i hne
      exact absurd h' (h.not_waking hq hne k)

omit [DecidableEq W] in
theorem released (h : Inv pred s) (hq : s.place t = .holding true) :
    Inv pred (s.letGo.go t .away) :=
  h.letsGo (by rw [hq]; rfl) (by rw [hq]; rfl) rfl (fun w l hp => by cases hp)
    fun w l h' => by cases hq.symm.trans h'

omit [DecidableEq W] in
theorem release (h : Inv pred s) (hq : s.place t = .waiting w .release) :
    Inv pred (s.letGo.go t (.waiting w .sleep)) := by
  refine h.letsGo (by rw [hq]; rfl) (by rw [hq]; rfl) rfl (fun w' l hp => ?_)
    fun w' l h' _ => ?_
  · obtain ⟨rfl, rfl⟩ := Place.waiting.inj hp
    exact ⟨hq, rfl⟩
  · obtain ⟨rfl, -⟩ := Place.waiting.inj (hq.symm.trans h')
    exact ⟨.sleep, rfl, rfl⟩

end Inv

end Waitq
