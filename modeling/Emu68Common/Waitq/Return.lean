import Emu68Common.Waitq.Wakeup

/-!
# Waitq/Return — a waiter goes through `drv_wait_event`, and comes back with nothing outstanding

The lines that concern the wait alone follow from what holds on them; joining the list and leaving
it, taking the lock and the device's reply are steps of their own.  Together with the tasks that do
not wait they are all the steps there are (`Inv.next`).
-/

namespace Waitq

open Machinery

variable {T W σ : Type} {pred : W → σ → Bool} {s s' : State T W σ}
  {e : Event T W} {es : List (Event T W)} {t t' : T} {w w' : W} {line : Line} {x : Wait}
  {p : Place W} [DecidableEq T] [DecidableEq W]

namespace Inv

/-! ## Into the wait, and back to the lock -/

theorem call (h : Inv pred s) (hq : s.place t = .holding true) (hw : (s.waits w).begun = false) :
    Inv pred ((s.set w { s.waits w with begun := true }).go t (.waiting w .check)) := by
  have hholds : (s.place t).holds = true := by rw [hq]; rfl
  obtain ⟨hlock, hlocks⟩ := h.keeps_lock hholds (p := .waiting w .check) rfl
  obtain ⟨hf, hmem⟩ := h.fresh w hw
  have hne : ∀ t' w' l, s.place t' = .waiting w' l → w' ≠ w := by
    rintro t' w' l h' rfl
    cases hw.symm.trans (h.begun t' w' l h')
  refine h.moved (State.go_place _ t · _) hlock hlocks (fun w' l hl => ?_)
    (fun t' w' l _ h' => ?_) (fun w' hb => ?_) (fun w' hmem' => ?_) h.nodup (fun w' hm => ?_)
    (fun t' ho hc w' hm t'' ht'' => ?_) fun t' k h' => ?_
  · obtain ⟨rfl, rfl⟩ := Place.waiting.inj hl
    rw [State.go_waits, State.set_waits, if_pos rfl, hf]
    exact ⟨fun t' l _ h' => hne t' w l h' rfl, rfl, rfl, rfl, hmem, rfl⟩
  · rw [State.go_waits, State.set_waits, if_neg (hne t' w' l h')]
    exact ⟨h.begun t' w' l h', h.line t' w' l h'⟩
  · rw [State.go_waits, State.set_waits] at hb ⊢
    split at hb
    · cases hb
    · rename_i hne'
      rw [if_neg hne']
      exact h.fresh w' hb
  · obtain ⟨t', l, h', hl⟩ := h.listed w' hmem'
    refine Or.inr ⟨t', l, ?_, h', hl⟩
    rintro rfl
    cases hq.symm.trans h'
  · rw [State.go_waits, State.set_waits, hf] at hm
    split at hm
    · cases hm
    · exact h.made w' hm
  · rw [State.go_place] at ht''
    split at ht''
    · cases ht''
    · rw [State.go_waits, State.set_waits, if_neg (hne t'' w' _ ht'')] at hm ⊢
      exact h.told t ((h.lock t).mp hholds) (by rw [hq]; rfl) w' hm t'' ht''
  · rw [State.go_place] at h'
    split at h'
    · cases h'
    · rename_i hne'
      exact absurd h' (h.not_waking hholds hne' k)

omit [DecidableEq W] in
theorem obtain (h : Inv pred s) (hq : s.place t = .waiting w .obtain) (ho : s.owner = none) :
    Inv pred { s.go t (.waiting w .recheck) with owner := some t } := by
  have hnot : ∀ t', (s.place t').holds = false := fun t' =>
    Bool.eq_false_iff.mpr fun h' => by cases ho.symm.trans ((h.lock t').mp h')
  have hmade := h.not_made ho
  refine h.moved (State.go_place s t · _) (iff_of_true rfl rfl)
    (fun t' hne => ?_) (fun w' l hl => ?_)
      (fun t' w' l _ h' => ⟨h.begun t' w' l h', h.line t' w' l h'⟩)
    h.fresh (fun w' hmem => ?_) h.nodup (fun w' hm => by cases (hmade w').symm.trans hm)
    (fun _ _ _ w' hm => by cases (hmade w').symm.trans hm) fun t' k h' => ?_
  · rw [hnot t']
    exact iff_of_false Bool.false_ne_true fun h' => hne (Option.some.inj h').symm
  · obtain ⟨rfl, rfl⟩ := Place.waiting.inj hl
    obtain ⟨hrun, hlisted⟩ := h.line t w _ hq
    exact ⟨fun t' l hne => h.ne_of_waiting hq hne l, h.begun t w _ hq, hrun, hlisted, hmade w⟩
  · obtain ⟨t', l, h', hl⟩ := h.listed w' hmem
    by_cases heq : t' = t
    · rw [heq, hq] at h'
      obtain ⟨rfl, rfl⟩ := Place.waiting.inj h'
      exact Or.inl ⟨.recheck, rfl, rfl⟩
    · exact Or.inr ⟨t', l, heq, h', hl⟩
  · change (s.go t _).place t' = _ at h'
    rw [State.go_place] at h'
    split at h'
    · cases h'
    · have := hnot t'
      rw [h'] at this
      cases this

/-! ## The list -/

/-- **A waiter joins the list, or leaves it**, with the lock held. -/
theorem relisted (h : Inv pred s) (hq : s.place t = .waiting w line) (hh : line.holds = true)
    {l' : Line} {ws : List W} (hh' : l'.holds = true) (hmade : (s.waits w).made = false)
    (hws : ∀ w', w' ≠ w → (w' ∈ ws ↔ w' ∈ s.waiters)) (hnodup : ws.Nodup)
    (hlisted : w ∈ ws → l'.listed = true) (hat : At (s.waits w) (w ∈ ws) (pred w s.shared) l') :
    Inv pred { s.go t (.waiting w l') with waiters := ws } := by
  have hholds : (s.place t).holds = true := by rw [hq]; exact hh
  obtain ⟨hlock, hlocks⟩ := h.keeps_lock hholds (p := .waiting w l') hh'
  have hne : ∀ t' w' l, t' ≠ t → s.place t' = .waiting w' l → w' ≠ w := by
    rintro t' w' l hne h' rfl
    exact h.ne_of_waiting hq hne l h'
  refine h.moved (State.go_place s t · _) hlock hlocks (fun w' l hl => ?_)
    (fun t' w' l hne' h' => ?_) (fun w' hb => ?_) (fun w' hmem => ?_) hnodup (fun w' hm => ?_)
    (fun t' ho hc w' hm t'' ht'' => ?_) fun t' k h' => ?_
  · obtain ⟨rfl, rfl⟩ := Place.waiting.inj hl
    exact ⟨fun t' l hne => h.ne_of_waiting hq hne l, h.begun t w _ hq, hat⟩
  · exact ⟨h.begun t' w' l h', (h.line t' w' l h').of_iff (hws w' (hne t' w' l hne' h')).symm⟩
  · obtain ⟨hf, hmem⟩ := h.fresh w' hb
    refine ⟨hf, fun hmem' => hmem ((hws w' ?_).mp hmem')⟩
    rintro rfl
    cases (h.begun t w' _ hq).symm.trans hb
  · by_cases heq : w' = w
    · rw [heq] at hmem ⊢
      exact Or.inl ⟨l', rfl, hlisted hmem⟩
    · obtain ⟨t', l, h', hl⟩ := h.listed w' ((hws w' heq).mp hmem)
      refine Or.inr ⟨t', l, ?_, h', hl⟩
      rintro rfl
      exact heq (Place.waiting.inj (h'.symm.trans hq)).1
  · obtain ⟨hmem, ho⟩ := h.made w' hm
    refine ⟨(hws w' ?_).mpr hmem, ho⟩
    rintro rfl
    cases hmade.symm.trans hm
  · change (s.go t _).place t'' = _ at ht''
    rw [State.go_place] at ht''
    split at ht''
    · obtain ⟨-, rfl⟩ := Place.waiting.inj ht''
      cases hh'
    · exact h.told t ((h.lock t).mp hholds) (by rw [hq]; rfl) w' hm t'' ht''
  · change (s.go t _).place t' = _ at h'
    rw [State.go_place] at h'
    split at h'
    · cases h'
    · rename_i hne'
      exact absurd h' (h.not_waking hholds hne' k)

theorem add (h : Inv pred s) (hq : s.place t = .waiting w .add) :
    Inv pred { s.go t (.waiting w .release) with waiters := s.waiters ++ [w] } := by
  obtain ⟨hsent, hmem, hdue, hcond⟩ := h.line t w _ hq
  have hmade : (s.waits w).made = false := Bool.eq_false_iff.mpr fun hm => hmem (h.made w hm).1
  refine h.relisted hq rfl rfl hmade (fun w' hne => ?_) ?_ (fun _ => rfl)
    ⟨hsent, List.mem_append_right _ List.mem_cons_self, hdue, hmade, hcond⟩
  · rw [List.mem_append, List.mem_singleton, or_iff_left hne]
  · exact h.nodup.append (List.nodup_singleton w)
      fun w' hmem' heq => hmem (List.mem_singleton.mp heq ▸ hmem')

theorem remove {rc : Result} (h : Inv pred s) (hq : s.place t = .waiting w (.remove rc)) :
    Inv pred { s.go t (.waiting w (.test rc)) with waiters := s.waiters.erase w } := by
  obtain ⟨hrun, -, hmade, hdec⟩ := h.line t w _ hq
  exact h.relisted hq rfl rfl hmade (fun w' hne => List.mem_erase_of_ne hne) (h.nodup.erase w)
    (fun hmem => absurd hmem h.nodup.not_mem_erase) ⟨hrun, h.nodup.not_mem_erase, hdec⟩

/-! ## The device -/

omit [DecidableEq T] in
/-- **A reply**, at any time. -/
theorem reply {aborting aborted : Bool} (h : Inv pred s)
    (ht : (s.waits w).timer = .outstanding aborting) (ha : aborted = true → aborting = true) :
    Inv pred (s.set w { s.waits w with timer := .replied aborted, sig := true }) := by
  have hmade : ∀ w', ((s.set w { s.waits w with timer := .replied aborted, sig := true }).waits
      w').made = (s.waits w').made := by
    intro w'
    rw [State.set_waits]
    split
    · rename_i heq
      rw [heq]
    · rfl
  refine { h with
    begun := fun t' w' l h' => ?_
    fresh := fun w' hb => ?_
    line := fun t' w' l h' => ?_
    made := fun w' hm => h.made w' ((hmade w').symm.trans hm)
    told := fun t' ho hc w' hm => awake_signal (h.told t' ho hc w' ((hmade w').symm.trans hm))
    woken := fun t' k h' i hi w' hw' => awake_signal (h.woken t' k h' i hi w' hw') }
  · have := h.begun t' w' l h'
    rw [State.set_waits]
    split
    · rename_i heq
      rwa [heq] at this
    · exact this
  · rw [State.set_waits] at hb ⊢
    split at hb
    · rw [(h.fresh w hb).1] at ht
      cases ht
    · rename_i hne
      rw [if_neg hne]
      exact h.fresh w' hb
  · have hat := h.line t' w' l h'
    rw [State.set_waits]
    split
    · rename_i heq
      subst heq
      exact hat.replied ht ha
    · exact hat

/-! ## The wait's own lines -/

theorem check (h : Inv pred s) (hq : s.place t = .waiting w .check) :
    Inv pred (s.go t (.waiting w (if pred w s.shared then .ret .ok else .ready))) := by
  obtain ⟨htimer, hsig, hmem, hdue⟩ := h.line t w _ hq
  cases hp : pred w s.shared with
  | true =>
    refine h.own_place hq (Or.inr ⟨.ret .ok, rfl, by decide, ?_, hsig, hmem, hp⟩) rfl
      fun hl => by cases hl
    rw [htimer]
    rfl
  | false =>
    exact h.own_place hq (Or.inr ⟨.ready, rfl, by decide, htimer, hsig, hmem, hdue, hp⟩) rfl
      fun hl => by cases hl

theorem ready (h : Inv pred s) (hq : s.place t = .waiting w .ready) (opens : Bool) :
    Inv pred { s.go t (.waiting w (if s.timerOpen || opens then .port else .ret .noResources)) with
      timerOpen := s.timerOpen || opens } := by
  obtain ⟨htimer, hsig, hmem, hrest⟩ := h.line t w _ hq
  cases s.timerOpen || opens with
  | true =>
    exact h.own_place hq (Or.inr ⟨.port, rfl, by decide, htimer, hsig, hmem, hrest⟩) rfl
      fun hl => by cases hl
  | false =>
    refine h.own_place hq (Or.inr ⟨.ret .noResources, rfl, by decide, ?_, hsig, hmem, trivial⟩) rfl
      fun hl => by cases hl
    rw [htimer]
    rfl

theorem port (h : Inv pred s) (hq : s.place t = .waiting w .port) (created : Bool) :
    Inv pred ((s.set w { s.waits w with sig := false }).go t
      (.waiting w (if created then .send else .ret .noResources))) := by
  obtain ⟨htimer, -, hmem, hrest⟩ := h.line t w _ hq
  have hbegun := h.begun t w _ hq
  cases created with
  | true =>
    exact h.own hq (Or.inr ⟨.send, rfl, by decide, htimer, rfl, hmem, hrest⟩) rfl
      (fun hl => by cases hl) hbegun rfl
  | false =>
    refine h.own hq (Or.inr ⟨.ret .noResources, rfl, by decide, ?_, rfl, hmem, trivial⟩) rfl
      (fun hl => by cases hl) hbegun rfl
    change (s.waits w).timer.pending = false
    rw [htimer]
    rfl

theorem send (h : Inv pred s) (hq : s.place t = .waiting w .send) :
    Inv pred ((s.set w { s.waits w with timer := .outstanding false }).go t (.waiting w .add)) := by
  obtain ⟨-, -, hmem, hdue, hcond⟩ := h.line t w _ hq
  exact h.own hq (Or.inr ⟨.add, rfl, by decide, Or.inl rfl, hmem, hdue, hcond⟩) rfl
    (fun hl => by cases hl) (h.begun t w _ hq) rfl

theorem sleep (h : Inv pred s) (hq : s.place t = .waiting w .sleep) :
    Inv pred ((s.set w { s.waits w with sig := false }).go t (.waiting w .obtain)) := by
  obtain ⟨hsent, hmem, -⟩ := h.line t w _ hq
  exact h.own hq (Or.inr ⟨.obtain, rfl, by decide, hsent.running, hmem⟩) rfl
    (fun _ => ⟨.obtain, rfl, rfl⟩) (h.begun t w _ hq) rfl

/-- **The waiter looks again**: nothing is due to it any more. -/
theorem recheck (h : Inv pred s) (hq : s.place t = .waiting w .recheck) :
    Inv pred ((s.set w { s.waits w with due := false }).go t
      (.waiting w (if pred w s.shared then .remove .ok else .checkIo))) := by
  obtain ⟨hrun, hmem, hmade⟩ := h.line t w _ hq
  have hbegun := h.begun t w _ hq
  cases hp : pred w s.shared with
  | true =>
    exact h.own hq (Or.inr ⟨.remove .ok, rfl, by decide, hrun, hmem, hmade, hp⟩) rfl
      (fun _ => ⟨.remove .ok, rfl, rfl⟩) hbegun rfl
  | false =>
    exact h.own hq (Or.inr ⟨.checkIo, rfl, by decide, hrun, hmem, hmade, rfl, hp⟩) rfl
      (fun _ => ⟨.checkIo, rfl, rfl⟩) hbegun rfl

/-- **A waiter gives up only with the predicate false and the time up**; else it goes back to sleep
with the request still out. -/
theorem checkIo (h : Inv pred s) (hq : s.place t = .waiting w .checkIo) :
    Inv pred (s.go t
      (.waiting w (if (s.waits w).timer.done then .remove .timeout else .release))) := by
  obtain ⟨hrun, hmem, hmade, hdue, hcond⟩ := h.line t w _ hq
  rcases hrun with hout | hrep
  · rw [hout]
    exact h.own_place hq
      (Or.inr ⟨.release, rfl, by decide, Or.inl hout, hmem, hdue, hmade, hcond⟩) rfl
      fun _ => ⟨.release, rfl, rfl⟩
  · rw [hrep]
    exact h.own_place hq
      (Or.inr ⟨.remove .timeout, rfl, by decide, Or.inr hrep, hmem, hmade, hcond, Or.inl hrep⟩) rfl
      fun _ => ⟨.remove .timeout, rfl, rfl⟩

theorem test {rc : Result} (h : Inv pred s) (hq : s.place t = .waiting w (.test rc)) :
    Inv pred (s.go t (.waiting w (if (s.waits w).timer.done then .waitIo rc else .abort rc))) := by
  obtain ⟨hrun, hmem, hdec⟩ := h.line t w _ hq
  cases (s.waits w).timer.done with
  | true =>
    exact h.own_place hq (Or.inr ⟨.waitIo rc, rfl, Line.noConfusion, hrun.pending, hmem, hdec⟩) rfl
      fun hl => by cases hl
  | false =>
    exact h.own_place hq (Or.inr ⟨.abort rc, rfl, Line.noConfusion, hrun, hmem, hdec⟩) rfl
      fun hl => by cases hl

theorem abort {rc : Result} (h : Inv pred s) (hq : s.place t = .waiting w (.abort rc)) :
    Inv pred ((s.set w { s.waits w with
        timer := if (s.waits w).timer.done then (s.waits w).timer else .outstanding true }).go t
      (.waiting w (.waitIo rc))) := by
  obtain ⟨hrun, hmem, hdec⟩ := h.line t w _ hq
  refine h.own hq (Or.inr ⟨.waitIo rc, rfl, Line.noConfusion, ?_, hmem, ?_⟩) rfl
    (fun hl => by cases hl) (h.begun t w _ hq) rfl
  · rcases hrun with hout | hrep
    · rw [hout]
      rfl
    · rw [hrep]
      rfl
  · cases rc with
    | ok => exact hdec
    | timeout =>
      -- a wait whose time was up has its request replied
      obtain ⟨hcond, hrep | hcol⟩ := hdec
      · exact ⟨hcond, Or.inl (by rw [hrep]; rfl)⟩
      · exact ⟨hcond, Or.inr (by rw [hcol]; rfl)⟩
    | noResources => trivial

theorem waitIoAgain {rc : Result} (h : Inv pred s) (hq : s.place t = .waiting w (.waitIo rc)) :
    Inv pred ((s.set w { s.waits w with sig := false }).go t (.waiting w (.waitIo rc))) := by
  obtain ⟨hpend, hmem, hdec⟩ := h.line t w _ hq
  refine h.own hq (Or.inr ⟨.waitIo rc, rfl, Line.noConfusion, hpend, hmem, ?_⟩) rfl
    (fun hl => by cases hl) (h.begun t w _ hq) rfl
  cases rc <;> exact hdec

/-- **The reply is collected.** -/
theorem waitIo {rc : Result} {aborted : Bool} (h : Inv pred s)
    (hq : s.place t = .waiting w (.waitIo rc)) (hr : (s.waits w).timer = .replied aborted) :
    Inv pred ((s.set w { s.waits w with timer := .collected aborted }).go t
      (.waiting w (.clear rc))) := by
  obtain ⟨-, hmem, hdec⟩ := h.line t w _ hq
  refine h.own hq (Or.inr ⟨.clear rc, rfl, Line.noConfusion, rfl, hmem, ?_⟩) rfl
    (fun hl => by cases hl) (h.begun t w _ hq) rfl
  cases rc with
  | ok => exact hdec
  | timeout =>
    obtain ⟨hcond, hrep | hcol⟩ := hdec
    · obtain rfl := Timer.replied.inj (hr.symm.trans hrep)
      exact ⟨hcond, Or.inr rfl⟩
    · cases hr.symm.trans hcol
  | noResources => trivial

theorem clear {rc : Result} (h : Inv pred s) (hq : s.place t = .waiting w (.clear rc)) :
    Inv pred ((s.set w { s.waits w with sig := false }).go t (.waiting w (.delete rc))) := by
  obtain ⟨hpend, hmem, hdec⟩ := h.line t w _ hq
  refine h.own hq (Or.inr ⟨.delete rc, rfl, Line.noConfusion, hpend, rfl, hmem, ?_⟩) rfl
    (fun hl => by cases hl) (h.begun t w _ hq) rfl
  cases rc <;> exact hdec

theorem delete {rc : Result} (h : Inv pred s) (hq : s.place t = .waiting w (.delete rc)) :
    Inv pred (s.go t (.waiting w (.ret rc))) := by
  have hat := h.line t w _ hq
  exact h.own_place hq (Or.inr ⟨.ret rc, rfl, Line.noConfusion, hat⟩) rfl fun hl => by cases hl

theorem ret {rc : Result} (h : Inv pred s) (hq : s.place t = .waiting w (.ret rc)) :
    Inv pred (s.go t (.holding true)) :=
  h.own_place hq (Or.inl rfl) rfl fun hl => by cases hl

/-- **Every step keeps the invariant.** -/
theorem next (h : Inv pred s) (hs : Step pred s e s') : Inv pred s' := by
  cases hs with
  | obtained t hq ho => exact h.obtained hq ho
  | changed t clean y hq => exact h.changed hq y
  | wakeAll t clean hq => exact h.wakeAll hq
  | wakeOne t k w hq hw => exact h.wakeOne hq hw
  | wokeAll t k hq hk => exact h.wokeAll hq hk
  | released t hq => exact h.released hq
  | call t w hq hw => exact h.call hq hw
  | check t w hq => exact h.check hq
  | ready t w opens hq => exact h.ready hq opens
  | port t w created hq => exact h.port hq created
  | send t w hq => exact h.send hq
  | add t w hq => exact h.add hq
  | release t w hq => exact h.release hq
  | sleep t w hq hsig => exact h.sleep hq
  | obtain t w hq ho => exact h.obtain hq ho
  | recheck t w hq => exact h.recheck hq
  | checkIo t w hq => exact h.checkIo hq
  | remove t w rc hq => exact h.remove hq
  | test t w rc hq => exact h.test hq
  | abort t w rc hq => exact h.abort hq
  | waitIoAgain t w rc hq hsig hd => exact h.waitIoAgain hq
  | waitIo t w rc aborted hq hr => exact h.waitIo hq hr
  | clear t w rc hq => exact h.clear hq
  | delete t w rc hq => exact h.delete hq
  | ret t w rc hq => exact h.ret hq
  | reply w aborting aborted ht ha => exact h.reply ht ha

/-- **Every run keeps it.** -/
theorem of_history (h : History Start (Step pred) es s) : Inv pred s :=
  h.invariant (fun _ s => Inv pred s) (fun _ h => of_start h) fun _ _ _ _ h hs => h.next hs

omit [DecidableEq T] [DecidableEq W] in
/-- **The list is the waits between `AddTail` and `Remove`.** -/
theorem mem_waiters (h : Inv pred s) (w : W) :
    w ∈ s.waiters ↔ ∃ t l, s.place t = .waiting w l ∧ l.listed = true := by
  refine ⟨h.listed w, ?_⟩
  rintro ⟨t, l, hp, hl⟩
  have hat := h.line t w l hp
  cases l with
  | release | sleep | recheck | checkIo | remove rc => exact hat.2.1
  | obtain => exact hat.2
  | _ => exact absurd hl Bool.false_ne_true

end Inv

/-! ## After the return -/

/-- **Nothing of this wait is left.** -/
structure Gone (s : State T W σ) (w : W) : Prop where
  place : ∀ t l, s.place t ≠ .waiting w l
  timer : (s.waits w).timer.pending = false
  begun : (s.waits w).begun = true

namespace Gone

omit [DecidableEq W] in
theorem moved (h : Gone s w) (hplace : ∀ t', s'.place t' = if t' = t then p else s.place t')
    (hp : ∀ l, p ≠ .waiting w l) (htimer : (s'.waits w).timer = (s.waits w).timer)
    (hbegun : (s'.waits w).begun = (s.waits w).begun) : Gone s' w := by
  refine ⟨fun t' l h' => ?_, by rw [htimer]; exact h.timer, by rw [hbegun]; exact h.begun⟩
  rw [hplace] at h'
  split at h'
  · exact hp l h'
  · exact h.place t' l h'

/-- A line of another wait. -/
theorem own (h : Gone s w) (hq : s.place t = .waiting w' line)
    (hp : p = .holding true ∨ ∃ l, p = .waiting w' l) : Gone ((s.set w' x).go t p) w := by
  have hne : w ≠ w' := by
    rintro rfl
    exact h.place t _ hq
  refine h.moved (State.go_place _ t · p) (fun l hl => ?_)
    (by rw [State.go_waits, State.set_waits, if_neg hne])
    (by rw [State.go_waits, State.set_waits, if_neg hne])
  rcases hp with rfl | ⟨l', rfl⟩
  · cases hl
  · exact hne (Place.waiting.inj hl).1.symm

omit [DecidableEq W] in
theorem own_place (h : Gone s w) (hq : s.place t = .waiting w' line)
    (hp : p = .holding true ∨ ∃ l, p = .waiting w' l)
    (hplace : ∀ t', s'.place t' = if t' = t then p else s.place t')
    (htimer : (s'.waits w).timer = (s.waits w).timer)
    (hbegun : (s'.waits w).begun = (s.waits w).begun) : Gone s' w := by
  refine h.moved hplace (fun l hl => ?_) htimer hbegun
  rcases hp with rfl | ⟨l', rfl⟩
  · cases hl
  · obtain ⟨rfl, -⟩ := Place.waiting.inj hl
    exact h.place t _ hq

/-- **It stays that way.** -/
theorem next (h : Gone s w) (hs : Step pred s e s') : Gone s' w := by
  cases hs with
  | obtained t hq ho | wakeAll t clean hq | wokeAll t k hq hk | released t hq =>
    exact h.moved (State.go_place _ t · _) (fun l hl => by cases hl) rfl rfl
  | changed t clean y hq =>
    refine h.moved (State.go_place _ t · _) (fun l hl => by cases hl) ?_ ?_
    · change (ite _ _ _ : Wait).timer = _
      split <;> rfl
    · change (ite _ _ _ : Wait).begun = _
      split <;> rfl
  | wakeOne t k w' hq hw =>
    refine h.moved (State.go_place _ t · _) (fun l hl => by cases hl) ?_ ?_ <;>
    · rw [State.go_waits, State.set_waits]
      split
      · rename_i heq
        rw [heq]
      · rfl
  | call t w' hq hw =>
    have hne : w ≠ w' := by
      rintro rfl
      cases hw.symm.trans h.begun
    exact h.moved (State.go_place _ t · _) (fun l hl => hne (Place.waiting.inj hl).1.symm)
      (by rw [State.go_waits, State.set_waits, if_neg hne])
      (by rw [State.go_waits, State.set_waits, if_neg hne])
  | check t w' hq | ready t w' _ hq | add t w' hq | release t w' hq | obtain t w' hq ho
  | checkIo t w' hq | remove t w' rc hq | test t w' rc hq | delete t w' rc hq =>
    exact h.own_place hq (Or.inr ⟨_, rfl⟩) (State.go_place _ t · _) rfl rfl
  | ret t w' rc hq => exact h.own_place hq (Or.inl rfl) (State.go_place _ t · _) rfl rfl
  | port t w' created hq | send t w' hq | sleep t w' hq hsig | recheck t w' hq | abort t w' rc hq
  | waitIoAgain t w' rc hq hsig hd | waitIo t w' rc aborted hq hr | clear t w' rc hq =>
    exact h.own hq (Or.inr ⟨_, rfl⟩)
  | reply w' aborting aborted ht ha =>
    have hne : w ≠ w' := by
      rintro rfl
      have := h.timer
      rw [ht] at this
      cases this
    refine ⟨h.place, ?_, ?_⟩ <;> rw [State.set_waits, if_neg hne]
    · exact h.timer
    · exact h.begun

/-- **Nobody signals for it.** -/
theorem not_signals (h : Gone s w) (hinv : Inv pred s) (hs : Step pred s e s') :
    ¬ Event.signals w e := by
  intro hsig
  cases hs with
  | wakeOne t k w' hq hw =>
    obtain rfl : w' = w := hsig
    obtain ⟨t', l, h', -⟩ := hinv.listed w' (List.mem_of_getElem? hw)
    exact h.place t' l h'
  | reply w' aborting aborted ht ha =>
    obtain rfl : w' = w := hsig
    have := h.timer
    rw [ht] at this
    cases this
  | _ => exact hsig

/-- What a wait leaves when it returns. -/
theorem of_returned {rc : Result} (hinv : Inv pred s) (hs : Step pred s (.returned t w rc) s') :
    Gone s' w := by
  cases hs with
  | ret t w rc hq =>
    refine ⟨fun t' l h' => ?_, (hinv.line t w _ hq).1, hinv.begun t w _ hq⟩
    rw [State.go_place] at h'
    split at h'
    · cases h'
    · rename_i hne
      exact hinv.ne_of_waiting hq hne l h'

/-- **Every wait that has returned is gone.** -/
theorem of_history (h : History Start (Step pred) es s) :
    Inv pred s ∧ ∀ t w rc, .returned t w rc ∈ es → Gone s w := by
  refine h.invariant (fun es s => Inv pred s ∧ ∀ t w rc, .returned t w rc ∈ es → Gone s w)
    (fun s h => ⟨Inv.of_start h, fun t w rc hmem => by cases hmem⟩) ?_
  rintro es s e s' ⟨hinv, hgone⟩ hs
  refine ⟨hinv.next hs, fun t w rc hmem => ?_⟩
  rcases List.mem_cons.mp hmem with rfl | hmem
  · exact of_returned hinv hs
  · exact (hgone t w rc hmem).next hs

end Gone

/-- **The list changes only in the hands of whoever has the lock.** -/
theorem Inv.owner_of_waiters_ne (h : Inv pred s) (hs : Step pred s e s')
    (hne : s'.waiters ≠ s.waiters) : ∃ t, Event.by t e ∧ s.owner = some t := by
  cases hs with
  | add t w hq | remove t w rc hq => exact ⟨t, rfl, (h.lock t).mp (by rw [hq]; rfl)⟩
  | _ => exact absurd rfl hne

omit [DecidableEq T] [DecidableEq W] in
/-- **A waiter asleep is told of everything it waits for**: what was made true and let go, a
predicate that holds with the lock free, and the reply to its request. -/
theorem Inv.asleep (h : Inv pred s) (hp : s.place t = .waiting w .sleep) :
    ((s.waits w).due = true → (s.waits w).sig = true)
      ∧ (s.owner = none → pred w s.shared = true → (s.waits w).sig = true)
      ∧ (∀ aborted, (s.waits w).timer = .replied aborted → (s.waits w).sig = true) := by
  obtain ⟨hsent, -, hdue, hcond⟩ := h.line t w _ hp
  refine ⟨hdue, fun ho hpred => hdue ?_, fun aborted ht => ?_⟩
  · exact (hcond hpred).resolve_right (by rw [h.not_made ho w]; exact Bool.false_ne_true)
  · rcases hsent with hout | ⟨-, hsig⟩
    · cases hout.symm.trans ht
    · exact hsig

/-- **What a wait returns with.** -/
theorem Inv.returned {rc : Result} (h : Inv pred s) (hs : Step pred s (.returned t w rc) s') :
    s'.owner = some t ∧ (rc = .ok → pred w s'.shared = true)
      ∧ (rc = .timeout → pred w s'.shared = false ∧ (s'.waits w).timer = .collected false)
      ∧ w ∉ s'.waiters ∧ (s'.waits w).timer.pending = false ∧ (s'.waits w).sig = false := by
  cases hs with
  | ret t w rc hq =>
    obtain ⟨hpend, hsig, hmem, hdec⟩ := h.line t w _ hq
    refine ⟨(h.lock t).mp (by rw [hq]; rfl), ?_, ?_, hmem, hpend, hsig⟩
    · rintro rfl
      exact hdec
    · rintro rfl
      obtain ⟨hcond, hrep | hcol⟩ := hdec
      · rw [hrep] at hpend
        cases hpend
      · exact ⟨hcond, hcol⟩

/-- **No wake-up is lost, and nothing is left behind**: in every run of any number of tasks and
waits, a waiter asleep without its signal has nothing to look at; a result is what it says, and the
lock is held; the list is the waits between `AddTail` and `Remove`, in the hands of the lock's
holder; and a wait that has returned is off the list, collected, clear, and not signalled again. -/
theorem wait_event_loses_nothing (h : History Start (Step pred) es s) :
    (∀ t w, s.place t = .waiting w .sleep →
      ((s.waits w).due = true → (s.waits w).sig = true)
        ∧ (s.owner = none → pred w s.shared = true → (s.waits w).sig = true)
        ∧ (∀ aborted, (s.waits w).timer = .replied aborted → (s.waits w).sig = true))
    ∧ (∀ t w rc s', Step pred s (.returned t w rc) s' →
      s'.owner = some t ∧ (rc = .ok → pred w s'.shared = true)
        ∧ (rc = .timeout → pred w s'.shared = false ∧ (s'.waits w).timer = .collected false)
        ∧ w ∉ s'.waiters ∧ (s'.waits w).timer.pending = false ∧ (s'.waits w).sig = false)
    ∧ (∀ w, w ∈ s.waiters ↔ ∃ t l, s.place t = .waiting w l ∧ l.listed = true)
    ∧ s.waiters.Nodup
    ∧ (∀ e s', Step pred s e s' → s'.waiters ≠ s.waiters → ∃ t, Event.by t e ∧ s.owner = some t)
    ∧ (∀ t w rc e s', .returned t w rc ∈ es → Step pred s e s' → ¬ Event.signals w e) := by
  obtain ⟨hinv, hgone⟩ := Gone.of_history h
  refine ⟨fun t w hp => hinv.asleep hp, fun t w rc s' hs => hinv.returned hs, hinv.mem_waiters,
    hinv.nodup, fun e s' hs hne => hinv.owner_of_waiters_ne hs hne,
    fun t w rc e s' hmem hs => (hgone t w rc hmem).not_signals hinv hs⟩

/-- One task asleep, and another that has turned its predicate true, woken it and let go. -/
theorem wait_event_loses_nothing_woken :
    ∃ (es : List (Event Bool Unit)) (s : State Bool Unit Bool),
      History Start (Step fun _ b => b) es s ∧ s.place false = .waiting () .sleep
        ∧ s.owner = none ∧ (s.waits ()).due = true ∧ (s.waits ()).sig = true := by
  let s₀ : State Bool Unit Bool := ⟨false, none, fun _ => .away, [], fun _ => .fresh, true⟩
  have h₀ : History Start (Step fun _ b => b) [] s₀ :=
    .start ⟨rfl, fun _ => rfl, rfl, fun _ => rfl⟩
  have h₁ := ((((((h₀.next (.obtained false rfl rfl)).next (.call false () rfl rfl)).next
    (.check false () rfl)).next (.ready false () true rfl)).next (.port false () true rfl)).next
    (.send false () rfl))
  have h₂ := (h₁.next (.add false () rfl)).next (.release false () rfl)
  have h₃ := ((h₂.next (.obtained true rfl rfl)).next (.changed true true true rfl)).next
    (.wakeAll true false rfl)
  have h₄ := ((h₃.next (.wakeOne true 0 () rfl rfl)).next (.wokeAll true 1 rfl rfl)).next
    (.released true rfl)
  exact ⟨_, _, h₄, rfl, rfl, rfl, ((wait_event_loses_nothing h₄).1 false () rfl).1 rfl⟩

end Waitq
