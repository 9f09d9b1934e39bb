import Emu68Common.Task.Join

/-!
# Task/Fate — when a spawn reports its own child's fate

All children report to their parent with the same two signals, so a parent that waits for one child
can be answered by another.  A child that has not reported yet has its parent waiting for it
(`Fate.unready`), which leaves two kinds of stranger: an older child that ends meanwhile, and, where
the parent is a worker itself, a join of the parent.
-/

namespace DriverTask

open Machinery

variable {T S : Type} {s s' : State T S} {e : Event T S} {es : List (Event T S)} {t w p : T}
  {i : S} {ph ph' : Phase}

/-! ## What a child has told -/

/-- It has not reported anything yet. -/
def Phase.unready : Phase → Bool
  | .starting | .published | .exiting false | .cleared false => true
  | _ => false

/-- It has reached its wait loop, and said so. -/
def Phase.reached : Phase → Bool
  | .looping | .exiting true | .cleared true | .signalled true | .ended true => true
  | _ => false

/-- It has said that it could not get there. -/
def Phase.failed : Phase → Bool
  | .signalled false | .ended false => true
  | _ => false

/-- It has reported one of the two, or nothing. -/
theorem Phase.unready_eq_false_iff :
    ph.unready = false ↔ ph.reached = true ∨ ph.failed = true := by
  cases ph with
  | starting | published | looping => decide
  | exiting r | cleared r | signalled r | ended r => cases r <;> decide

/-- **No stranger's signal comes in between**, after a task has cleared its signals for a new child
and before it has added it, or while it waits for a child that would be taken for another. -/
structure Undisturbed (s : State T S) (e : Event T S) : Prop where
  /-- an older child reports its end where the new one has reported -/
  exits : ∀ w' t r, e = .exited w' t r → (∀ i, s.line t ≠ .addTask i)
    ∧ ∀ w i ph, w ≠ w' → s.line t = .await w → s.place w = .worker t i ph → ph.unready = false
  /-- a join signals where the new one has reported that it failed -/
  joins : ∀ t' t, e = .stopped t' (some t) → (∀ i, s.line t ≠ .addTask i)
    ∧ ∀ w i ph, s.line t = .await w → s.place w = .worker t i ph → ph.failed = true

/-- **The invariant** of the spawns. -/
structure Fate (s : State T S) : Prop where
  await : ∀ t w, s.line t = .await w → ∃ i ph, s.place w = .worker t i ph
    ∧ (s.sigC t = true ↔ ph.failed = true)
    ∧ (s.sigF t = true → ph.reached = true ∨ ph.failed = true)
  fresh : ∀ t i, s.line t = .addTask i → s.sigC t = false ∧ s.sigF t = false
  unready : ∀ w t i ph, s.place w = .worker t i ph → ph.unready = true → s.line t = .await w

/-- Where a task's signals are a child's answer, or are to be. -/
def Line.spawning : Line T S → Bool
  | .addTask _ | .await _ => true
  | _ => false

namespace Fate

theorem of_start (h : Start s) : Fate s := by
  refine ⟨fun t w hq => ?_, fun t i hq => ?_, fun w t i ph hw => ?_⟩
  · cases (h.line t).symm.trans hq
  · cases (h.line t).symm.trans hq
  · rcases h.place w with hn | hn <;> cases hn.symm.trans hw

variable [DecidableEq T]

/-- **A task goes on to a line**, and the signals of those who spawn stay. -/
theorem called {line line' : Line T S} {s₁ : State T S} (h : Fate s) (hq : s.line t = line)
    (hline : s₁.line = s.line) (hplace : s₁.place = s.place)
    (hsig : ∀ t', t' ≠ t → (s.line t').spawning = true →
      s₁.sigC t' = s.sigC t' ∧ s₁.sigF t' = s.sigF t')
    (hleave : ∀ w i ph, line = .await w → s.place w = .worker t i ph → ph.unready = false)
    (hawait : ∀ w, line' ≠ .await w)
    (hfresh : ∀ i, line' = .addTask i → s₁.sigC t = false ∧ s₁.sigF t = false) :
    Fate (s₁.go t line') := by
  have hback : ∀ {t' l}, t' ≠ t → (s₁.go t line').line t' = l → s.line t' = l :=
    fun hne hq' => by rw [← hline, ← go_line_of_ne (s := s₁) hne, hq']
  refine ⟨fun t' w hq' => ?_, fun t' i hq' => ?_, fun w t' i ph hw hu => ?_⟩
  · by_cases heq : t' = t
    · rw [heq, go_line_self] at hq'
      exact absurd hq' (hawait w)
    · have hq₀ := hback heq hq'
      obtain ⟨i, ph, hw, hC, hF⟩ := h.await t' w hq₀
      obtain ⟨hsC, hsF⟩ := hsig t' heq (by rw [hq₀]; rfl)
      rw [State.go_sigC, State.go_sigF, State.go_place, hsC, hsF, hplace]
      exact ⟨i, ph, hw, hC, hF⟩
  · by_cases heq : t' = t
    · rw [heq, go_line_self] at hq'
      rw [heq]
      exact hfresh i hq'
    · have hq₀ := hback heq hq'
      obtain ⟨hsC, hsF⟩ := hsig t' heq (by rw [hq₀]; rfl)
      rw [State.go_sigC, State.go_sigF, hsC, hsF]
      exact h.fresh t' i hq₀
  · rw [State.go_place, hplace] at hw
    have hq₀ := h.unready w t' i ph hw hu
    by_cases heq : t' = t
    · rw [heq] at hq₀ hw
      cases hu.symm.trans (hleave w i ph (hq.symm.trans hq₀) hw)
    · rw [go_line_of_ne heq, hline, hq₀]

omit [DecidableEq T] in
/-- A worker other than the one its parent waits for, if any, has reported. -/
theorem stranger (h : Fate s) {w' : T} (hw : s.place w = .worker p i ph) (hne : w' ≠ w)
    (hq : s.line p = .await w') : ph.unready = false := by
  refine Bool.eq_false_iff.mpr fun hu => hne ?_
  exact Line.await.inj (hq.symm.trans (h.unready w p i ph hw hu))

/-- **A worker goes on to a phase**, and only its parent's signals change. -/
theorem worker {s₁ : State T S} (h : Fate s) (hw : s.place w = .worker p i ph)
    (hline : s₁.line = s.line) (hplace : s₁.place = s.place)
    (hu : ph'.unready = true → ph.unready = true)
    (hsig : ∀ t, t ≠ p → s₁.sigC t = s.sigC t ∧ s₁.sigF t = s.sigF t)
    (hmine : s.line p = .await w → (s₁.sigC p = true ↔ ph'.failed = true)
      ∧ (s₁.sigF p = true → ph'.reached = true ∨ ph'.failed = true))
    (hother : ∀ w' i' ph', w' ≠ w → s.line p = .await w' → s.place w' = .worker p i' ph' →
      s₁.sigC p = s.sigC p ∧ (s₁.sigF p = s.sigF p ∨ ph'.unready = false))
    (hfresh : ∀ i, s.line p = .addTask i → s₁.sigC p = s.sigC p ∧ s₁.sigF p = s.sigF p) :
    Fate (s₁.setPlace w (.worker p i ph')) := by
  refine ⟨fun t w' hq => ?_, fun t j hq => ?_, fun w' t j ph'' hw' hu' => ?_⟩
  · have hq₀ : s.line t = .await w' := (congrFun hline t).symm.trans hq
    obtain ⟨j, ph₀, hw', hC, hF⟩ := h.await t w' hq₀
    by_cases heq : w' = w
    · subst heq
      obtain ⟨rfl, rfl, rfl⟩ := Place.worker.inj (hw.symm.trans hw')
      exact ⟨i, ph', setPlace_place_self, hmine hq₀⟩
    · refine ⟨j, ph₀, by rw [setPlace_place_of_ne heq, hplace, hw'], ?_⟩
      by_cases htp : t = p
      · subst htp
        obtain ⟨hsC, hsF⟩ := hother w' j ph₀ heq hq₀ hw'
        rw [State.setPlace_sigC, State.setPlace_sigF, hsC]
        refine ⟨hC, fun hf => ?_⟩
        rcases hsF with hsF | hu₀
        · exact hF (hsF.symm.trans hf)
        · exact Phase.unready_eq_false_iff.mp hu₀
      · obtain ⟨hsC, hsF⟩ := hsig t htp
        rw [State.setPlace_sigC, State.setPlace_sigF, hsC, hsF]
        exact ⟨hC, hF⟩
  · have hq₀ : s.line t = .addTask j := (congrFun hline t).symm.trans hq
    rw [State.setPlace_sigC, State.setPlace_sigF]
    by_cases htp : t = p
    · subst htp
      rw [(hfresh j hq₀).1, (hfresh j hq₀).2]
      exact h.fresh t j hq₀
    · rw [(hsig t htp).1, (hsig t htp).2]
      exact h.fresh t j hq₀
  · rw [State.setPlace_line, hline]
    by_cases heq : w' = w
    · subst heq
      rw [setPlace_place_self] at hw'
      obtain ⟨rfl, rfl, rfl⟩ := Place.worker.inj hw'
      exact h.unready w' p i ph hw (hu hu')
    · rw [setPlace_place_of_ne heq, hplace] at hw'
      exact h.unready w' t j ph'' hw' hu'

/-- A worker that tells nobody anything. -/
theorem worker_silent {s₁ : State T S} (h : Fate s) (hw : s.place w = .worker p i ph)
    (hline : s₁.line = s.line) (hplace : s₁.place = s.place) (hC : s₁.sigC = s.sigC)
    (hF : s₁.sigF = s.sigF) (hu : ph'.unready = ph.unready) (hf : ph'.failed = ph.failed)
    (hr : ph'.reached = ph.reached) : Fate (s₁.setPlace w (.worker p i ph')) := by
  refine h.worker hw hline hplace (fun hu' => by rw [← hu, hu'])
    (fun t _ => by rw [hC, hF]; exact ⟨rfl, rfl⟩)
    (fun hq => ?_) (fun _ _ _ _ _ _ => by rw [hC, hF]; exact ⟨rfl, Or.inl rfl⟩)
    fun _ _ => by rw [hC, hF]; exact ⟨rfl, rfl⟩
  obtain ⟨j, ph₀, hw', hsC, hsF⟩ := h.await p w hq
  obtain ⟨-, -, rfl⟩ := Place.worker.inj (hw.symm.trans hw')
  rw [hC, hF, hf, hr]
  exact ⟨hsC, hsF⟩

/-- **A new child**, whose parent has clear signals and waits for it. -/
theorem added (h : Fate s) (hq : s.line t = .addTask i) (hw : s.place w = .unborn) :
    Fate ((s.setPlace w (.worker t i .starting)).go t (.await w)) := by
  have hline : ∀ t', ((s.setPlace w (.worker t i .starting)).go t (.await w)).line t'
      = if t' = t then .await w else s.line t' := fun t' => by rw [State.go_line]; rfl
  have hplace : ∀ w', ((s.setPlace w (.worker t i .starting)).go t (.await w)).place w'
      = if w' = w then .worker t i .starting else s.place w' :=
    fun w' => by rw [State.go_place, State.setPlace_place]
  have hfree := h.fresh t i hq
  refine ⟨fun t' w' hq' => ?_, fun t' j hq' => ?_, fun w' t' j ph hw' hu => ?_⟩
  · rw [hline] at hq'
    split at hq'
    · rename_i heq
      subst heq
      obtain rfl := Line.await.inj hq'
      refine ⟨i, .starting, by rw [hplace, if_pos rfl], ?_, fun hf => ?_⟩
      · refine iff_of_false ?_ Bool.false_ne_true
        rw [State.go_sigC, State.setPlace_sigC, hfree.1]
        exact Bool.false_ne_true
      · rw [State.go_sigF, State.setPlace_sigF, hfree.2] at hf
        cases hf
    · obtain ⟨j, ph, hw', hC, hF⟩ := h.await t' w' hq'
      have hww : w' ≠ w := by
        rintro rfl
        cases hw.symm.trans hw'
      exact ⟨j, ph, by rw [hplace, if_neg hww, hw'], hC, hF⟩
  · rw [hline] at hq'
    split at hq'
    · cases hq'
    · exact h.fresh t' j hq'
  · rw [hplace] at hw'
    split at hw'
    · rename_i heq
      obtain ⟨rfl, -, -⟩ := Place.worker.inj hw'
      rw [hline, if_pos rfl, heq]
    · have hq₀ := h.unready w' t' j ph hw' hu
      have htt : t' ≠ t := by
        rintro rfl
        cases hq.symm.trans hq₀
      rw [hline, if_neg htt, hq₀]

variable [DecidableEq S]

/-- **Every undisturbed step keeps it.** -/
theorem next (h : Fate s) (hs : Step s e s') (hok : Undisturbed s e) : Fate s' := by
  have hclear : ∀ {t}, ∀ t', t' ≠ t → (s.line t').spawning = true →
      (s.clearSignals t).sigC t' = s.sigC t' ∧ (s.clearSignals t).sigF t' = s.sigF t' :=
    fun t' hne _ => ⟨Function.update_of_ne hne _ _, Function.update_of_ne hne _ _⟩
  cases hs with
  | dispatch t hd ht | nesting t b hr ho => exact ⟨h.await, h.fresh, h.unready⟩
  | allocFail t hr ho | joinNone t i hr ho hi | pollHot t w i paceMs hr hq hi => exact h
  | ownWait t hr ho =>
    have hsame : (s.clearSignals t).go t .idle = s.clearSignals t := by
      rw [State.go, State.clearSignals_line, ← ho.1, Function.update_eq_self]
      rfl
    rw [← hsame]
    exact h.called ho.1 rfl rfl hclear (fun w i ph hl => by cases hl) (fun w hl => by cases hl)
      fun i hl => by cases hl
  | alloc t i hr ho | join t w i hr ho hi =>
    exact h.called ho.1 rfl rfl (fun _ _ _ => ⟨rfl, rfl⟩) (fun w i ph hl => by cases hl)
      (fun w hl => by cases hl) fun i hl => by cases hl
  | addTaskFail t i hr hq | «open» t w i haveTimer hr hq
  | load t w i haveTimer hr hq | pollSleep t w i paceMs hr hq hi | sleep t w i paceMs hr hq
  | pollDone t w i haveTimer paceMs hr hq hi | close t w i hr hq =>
    exact h.called hq rfl rfl (fun _ _ _ => ⟨rfl, rfl⟩) (fun w i ph hl => by cases hl)
      (fun w hl => by cases hl) fun i hl => by cases hl
  | clear t w i hr hq =>
    exact h.called hq rfl rfl hclear (fun w i ph hl => by cases hl) (fun w hl => by cases hl)
      fun i hl => by cases hl
  | clearBits t i hr hq =>
    exact h.called hq rfl rfl hclear (fun w i ph hl => by cases hl) (fun w hl => by cases hl)
      fun _ _ => ⟨Function.update_self .., Function.update_self ..⟩
  | signal t w i haveTimer task hr hq =>
    refine h.called hq (State.stop_line ..) (State.stop_place ..) (fun t' _ hl => ?_)
      (fun w i ph hl => by cases hl) (fun w hl => by cases hl) fun i hl => by cases hl
    cases task with
    | none => exact ⟨rfl, rfl⟩
    | some v =>
      refine ⟨?_, rfl⟩
      by_cases hne : t' = v
      · -- its child has failed already
        subst hne
        obtain ⟨hno, hfailed⟩ := hok.joins t t' rfl
        cases hl' : s.line t' with
        | addTask j => exact absurd hl' (hno j)
        | await v =>
          obtain ⟨j, ph, hv, hC, -⟩ := h.await t' v hl'
          exact (Function.update_self ..).trans (hC.mpr (hfailed v j ph hl' hv)).symm
        | _ =>
          rw [hl'] at hl
          cases hl
      · exact Function.update_of_ne hne _ _
  | await t w hr hq hsig =>
    refine h.called hq rfl rfl hclear (fun w' i ph hl hw' => ?_) (fun w hl => by cases hl)
      fun i hl => by cases hl
    obtain rfl := Line.await.inj hl
    obtain ⟨j, ph₀, hw, hC, hF⟩ := h.await t w hq
    obtain ⟨-, -, rfl⟩ := Place.worker.inj (hw.symm.trans hw')
    refine Phase.unready_eq_false_iff.mpr ?_
    rcases hsig with hc | hf
    · exact Or.inr (hC.mp hc)
    · exact hF hf
  | addTask t w i hr hq hw hi => exact h.added hq hw
  | publish w p i hr hl hq | leave w p i hr hl hq =>
    exact h.worker_silent hq rfl rfl rfl rfl rfl rfl rfl
  | clearSlot w p i r hr hq | finish w p i r hr hq =>
    exact h.worker_silent hq rfl rfl rfl rfl (by cases r <;> rfl) (by cases r <;> rfl)
      (by cases r <;> rfl)
  | giveUp w p i hr hl hq =>
    rcases hq with hq | hq
    · exact h.worker_silent hq rfl rfl rfl rfl rfl rfl rfl
    · exact h.worker_silent hq rfl rfl rfl rfl rfl rfl rfl
  | ready w p i hr hl hq =>
    have hwait := h.unready w p i _ hq rfl
    refine h.worker hq (State.report_line ..) (State.report_place ..) (fun hu => by cases hu)
      (fun t hne => report_sig_of_ne s true hne) (fun _ => ⟨?_, fun _ => Or.inl rfl⟩)
      (fun w' i' ph' hne hq' => ?_) fun j hq' => by cases hwait.symm.trans hq'
    · obtain ⟨j, ph₀, hw', hC, -⟩ := h.await p w hwait
      obtain ⟨-, -, rfl⟩ := Place.worker.inj (hq.symm.trans hw')
      exact hC
    · have := h.stranger hq hne hq'
      cases this
  | report w p i r hr hq =>
    obtain ⟨hno, hreported⟩ := hok.exits w p r rfl
    cases r with
    | true =>
      refine h.worker hq (State.report_line ..) (State.report_place ..) (fun hu => by cases hu)
        (fun t hne => report_sig_of_ne s true hne) (fun hq' => ⟨?_, fun _ => Or.inl rfl⟩)
        (fun w' i' ph' hne hq' hw' => ⟨rfl, Or.inr (hreported w' i' ph' hne hq' hw')⟩)
        fun j hq' => absurd hq' (hno j)
      obtain ⟨j, ph₀, hw', hC, -⟩ := h.await p w hq'
      obtain ⟨-, -, rfl⟩ := Place.worker.inj (hq.symm.trans hw')
      exact hC
    | false =>
      have hwait := h.unready w p i _ hq rfl
      refine h.worker hq (State.report_line ..) (State.report_place ..) (fun hu => by cases hu)
        (fun t hne => report_sig_of_ne s false hne)
        (fun _ => ⟨iff_of_true (Function.update_self ..) rfl, fun _ => Or.inr rfl⟩)
        (fun w' i' ph' hne hq' => ?_) fun j hq' => absurd hq' (hno j)
      have := h.stranger hq hne hq'
      cases this

end Fate

section Result

variable [DecidableEq T] [DecidableEq S]

/-- **A spawn reports its own child's fate**, in every run in which nobody else's signal comes to
the parent between its `SetSignal` and its new child's own report, and no join's before that is
taken: zero means that the child just added has reached its wait loop, `-EIO` that it has ended
without. -/
theorem spawn_reports_its_child (h : History Start (Restrict Undisturbed Step) es s) :
    ∀ t w res s', Step s (.spawned t w res) s' → ∃ i ph, s.place w = .worker t i ph
      ∧ (res = .ok → ph.reached = true) ∧ (res = .eio → ph = .ended false) := by
  have hinv := Inv.of_history h.of_restrict
  have hfate : Fate s := h.invariant (fun _ s => Fate s) (fun _ hs => Fate.of_start hs)
    fun _ _ _ _ hfate ⟨hok, hs⟩ => hfate.next hs hok
  intro t w res s' hs
  cases hs with
  | await t w hr hq hsig =>
    obtain ⟨i, ph, hw, hC, hF⟩ := hfate.await t w hq
    refine ⟨i, ph, hw, fun hres => ?_, fun hres => ?_⟩
    · have hnot : ¬ s.sigC t = true := fun hc => by rw [if_pos hc] at hres; cases hres
      exact (hF (hsig.resolve_left hnot)).resolve_right fun hf => hnot (hC.mpr hf)
    · have hc : s.sigC t = true := by
        by_contra hc
        rw [if_neg hc] at hres
        cases hres
      have hfail := hC.mp hc
      cases ph with
      | ended r => cases r with
        | true => cases hfail
        | false => rfl
      | signalled r =>
        -- its parent has the CPU, and it is not in `Forbid` any more
        obtain rfl : s.running = w := (hinv.cpu w t i _ hw rfl).1
        cases hinv.leaving_of_busy (by rw [hr, hq]; rfl) hw
      | starting | published | looping | exiting r | cleared r => cases hfail

/-- One child, which gets to its loop. -/
theorem spawn_reports_its_child_first :
    ∃ (es : List (Event Bool Unit)) (s s' : State Bool Unit),
      History Start (Restrict Undisturbed Step) es s ∧ Step s (.spawned false true .ok) s'
        ∧ ∃ i ph, s.place true = .worker false i ph ∧ ph.reached = true := by
  let s₀ : State Bool Unit := ⟨false, fun _ => false, fun _ => false, fun _ => false, fun _ => none,
    fun _ => .idle, fun t => if t then .unborn else .client⟩
  have hok : ∀ {s : State Bool Unit} {e}, (∀ w t r, e ≠ .exited w t r) →
      (∀ t task, e ≠ .stopped t task) → Undisturbed s e := fun hexit hjoin =>
    ⟨fun w t r heq => absurd heq (hexit w t r), fun t' t heq => absurd heq (hjoin t' _)⟩
  have h₀ : History Start (Restrict Undisturbed Step) [] s₀ :=
    .start ⟨fun t => by cases t <;> simp [s₀], rfl, fun _ => rfl, fun _ => rfl⟩
  have h₁ := ((h₀.next ⟨hok (by simp) (by simp), .alloc false () rfl ⟨rfl, rfl⟩⟩).next
    ⟨hok (by simp) (by simp), .clearBits false () rfl rfl⟩).next
    ⟨hok (by simp) (by simp), .addTask false true () rfl rfl rfl
      fun w' p ph hw => by cases w' <;> cases hw⟩
  have h₂ := ((h₁.next ⟨hok (by simp) (by simp), .dispatch true (.inl rfl) rfl⟩).next
    ⟨hok (by simp) (by simp), .publish true false () rfl rfl rfl⟩).next
    ⟨hok (by simp) (by simp), .ready true false () rfl rfl rfl⟩
  have h₃ := h₂.next ⟨hok (by simp) (by simp), .dispatch false (.inl rfl) rfl⟩
  obtain ⟨i, ph, hw, hreached, -⟩ :=
    spawn_reports_its_child h₃ false true .ok _ (.await false true rfl rfl (.inr rfl))
  exact ⟨_, _, _, h₃, .await false true rfl rfl (.inr rfl), i, ph, hw, hreached rfl⟩

/-- **A stranger's signal is taken for the new child's**: an older child that ends while its parent
waits for a new one, and a join of a worker that waits for a child of its own. -/
theorem spawn_mistakes_a_stranger :
    (∃ (es : List (Event (Option Bool) Bool)) (s s' : State (Option Bool) Bool),
      History Start Step es s ∧ Step s (.spawned none (some true) .ok) s'
        ∧ s.place (some true) = .worker none true .starting)
    ∧ ∃ (es : List (Event (Option Bool) Bool)) (s s' : State (Option Bool) Bool),
      History Start Step es s ∧ Step s (.spawned (some false) (some true) .eio) s'
        ∧ s.place (some true) = .worker (some false) true .starting := by
  let s₀ : State (Option Bool) Bool :=
    ⟨none, fun _ => false, fun _ => false, fun _ => false, fun _ => none,
    fun _ => .idle, fun t => if t = none then .client else .unborn⟩
  have h₀ : History Start Step [] s₀ :=
    .start ⟨fun t => by cases t <;> simp [s₀], rfl, fun _ => rfl, fun _ => rfl⟩
  have h₁ := ((h₀.next (.alloc none false rfl ⟨rfl, rfl⟩)).next
    (.clearBits none false rfl rfl)).next
    (.addTask none (some false) false rfl rfl rfl
      fun w' p ph hw => by rcases w' with _ | _ | _ <;> cases hw)
  have h₂ := ((h₁.next (.dispatch (some false) (.inl rfl) rfl)).next
    (.publish (some false) none false rfl rfl rfl)).next
    (.ready (some false) none false rfl rfl rfl)
  have h₃ := (h₂.next (.dispatch none (.inl rfl) rfl)).next
    (.await none (some false) rfl rfl (.inr rfl))
  refine ⟨?_, ?_⟩
  · have h₄ := ((h₃.next (.alloc none true rfl ⟨rfl, rfl⟩)).next
      (.clearBits none true rfl rfl)).next
      (.addTask none (some true) true rfl rfl rfl
        fun w' p ph hw => by rcases w' with _ | _ | _ <;> cases hw)
    have h₅ := ((h₄.next (.dispatch (some false) (.inl rfl) rfl)).next
      (.leave (some false) none false rfl rfl rfl)).next
      (.clearSlot (some false) none false true rfl rfl)
    have h₆ := ((h₅.next (.report (some false) none false true rfl rfl)).next
      (.finish (some false) none false true rfl rfl)).next (.dispatch none (.inl rfl) rfl)
    exact ⟨_, _, _, h₆, .await none (some true) rfl rfl (.inr rfl), rfl⟩
  · have h₄ := ((h₃.next (.dispatch (some false) (.inl rfl) rfl)).next
      (.alloc (some false) true rfl ⟨rfl, rfl⟩)).next (.clearBits (some false) true rfl rfl)
    have h₅ := (h₄.next (.addTask (some false) (some true) true rfl rfl rfl
      fun w' p ph hw => by rcases w' with _ | _ | _ <;> cases hw)).next
      (.dispatch none (.inl rfl) rfl)
    have h₆ := ((h₅.next (.join none (some false) false rfl ⟨rfl, rfl⟩ rfl)).next
      (.open none (some false) false true rfl rfl)).next
      (.load none (some false) false true rfl rfl)
    have h₇ := (h₆.next (.signal none (some false) false true (some (some false)) rfl rfl)).next
      (.dispatch (some false) (.inl rfl) rfl)
    exact ⟨_, _, _, h₇, .await (some false) (some true) rfl rfl (.inl rfl), rfl⟩

end Result

end DriverTask
