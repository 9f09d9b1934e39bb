import Emu68Common.Timer.Device

/-!
# Timer/Wait — when `drv_timer_wait` takes an old signal for its timeout

`drv_timer_cancel` clears the port's signal behind the reply, `drv_timer_sleep_ms` and
`drv_timer_consume` do not.  A reply that is there before `DoIO` looks for it, or one that is
consumed without a `Wait`, leaves the signal behind; the next `drv_timer_wait` then ends at once,
with nothing seen, and aborts the request it has just armed.
-/

namespace DrvTimer

open Machinery Waitq

variable {bit : Fin 32} {s s' : State} {e : Event} {mask seen : BitVec 32}

/-! ## What a wait relies on -/

/-- The places of `drv_timer_wait`. -/
def Place.waiting : Place → Bool
  | .wait _ | .abort (some _) | .waitIo (some _) | .clear (some _) => true
  | _ => false

/-- **What the call under way relies on**: nothing of the mask seen means the reply is there, or has
been. -/
def During (bit : Fin 32) (s : State) : Place → Prop
  | .wait mask =>
    (s.request = .outstanding false ∨ s.request = .replied false)
      ∧ (s.fired bit = true → s.sigRecvd &&& mask = 0 → s.request = .replied false)
  | .abort (some seen) => seen = 0 → s.request = .replied false
  | .waitIo (some seen) => seen = 0 → s.request = .replied false
  | .clear (some seen) => ∃ aborted, s.request = .collected aborted ∧ (seen = 0 → aborted = false)
  | _ => True

/-- **The call starts with the port's signal clear**, or with something to see. -/
def Ready (bit : Fin 32) (s : State) (e : Event) : Prop :=
  ∀ mask, e = .called mask → s.fired bit = false ∨ s.sigRecvd &&& mask ≠ 0

/-- Signals that come leave the signals that are there. -/
theorem and_eq_zero_of_or {r m mask : BitVec 32} (h : (r ||| m) &&& mask = 0) : r &&& mask = 0 := by
  refine BitVec.eq_of_getLsbD_eq fun i _ => ?_
  have hz : (0 : BitVec 32).getLsbD i = false := BitVec.getLsbD_zero
  have hi : ((r ||| m) &&& mask).getLsbD i = false := by rw [h, hz]
  rw [BitVec.getLsbD_and, BitVec.getLsbD_or, Bool.and_or_distrib_right] at hi
  rw [BitVec.getLsbD_and, hz]
  exact (Bool.or_eq_false_iff.mp hi).1

/-- A place that is none of `drv_timer_wait`'s asks nothing. -/
theorem During.of_not_waiting {p : Place} (h : p.waiting = false) : During bit s p := by
  cases p with
  | idle | doIo => trivial
  | wait mask => cases h
  | abort seen | waitIo seen | clear seen =>
    cases seen with
    | none => trivial
    | some seen => cases h

/-- **Every step keeps it**, if each call starts ready. -/
theorem During.next (h : During bit s s.place) (hs : Step bit s e s') (hready : Ready bit s e) :
    During bit s' s'.place := by
  cases hs with
  | sleep ms hp hf =>
    split
    · exact h
    · trivial
  | doIoAgain hp _ _ => exact .of_not_waiting (by rw [hp]; rfl)
  | doIoWoken aborted hp _ hr => trivial
  | doIo aborted hp hr => trivial
  | arm hp hf => exact .of_not_waiting (by rw [hp]; rfl)
  | consumeNone hp hf hd => exact h
  | consume aborted hp hr => exact .of_not_waiting (by rw [hp]; rfl)
  | cancel hp hf => trivial
  | call mask hp hf hm =>
    refine ⟨Or.inl rfl, fun hfired h0 => ?_⟩
    rcases hready mask rfl with hclear | hseen
    · cases hclear.symm.trans hfired
    · exact absurd h0 hseen
  | wake mask hp hs =>
    rw [hp] at h
    intro h0
    refine h.2 (fired_of_seen_eq_zero s.sigRecvd bit mask hs h0) ?_
    rwa [seen_eq] at h0
  | abort seen hp =>
    cases seen with
    | none => trivial
    | some seen =>
      rw [hp] at h
      intro h0
      have hr := h h0
      change (if s.request.done then s.request else _) = _
      rw [hr]
      rfl
  | waitIoAgain seen hp _ hd =>
    change During bit _ s.place
    rw [hp] at h ⊢
    cases seen with
    | none => trivial
    | some seen => exact h
  | waitIoWoken seen aborted hp _ hr | waitIo seen aborted hp hr =>
    cases seen with
    | none => trivial
    | some seen =>
      rw [hp] at h
      exact ⟨aborted, rfl, fun h0 => Timer.replied.inj (hr.symm.trans (h h0))⟩
  | cleared hp => trivial
  | returned seen hp => trivial
  | ownWait m hp => exact .of_not_waiting (by rw [hp]; rfl)
  | reply aborting aborted hr ha =>
    change During bit _ s.place
    cases hp : s.place with
    | idle | doIo => trivial
    | wait mask =>
      rw [hp] at h
      have hab : aborted = false := by
        refine Bool.eq_false_iff.mpr fun hab => ?_
        rcases h.1 with hout | hrep
        · obtain rfl := Timer.outstanding.inj (hr.symm.trans hout)
          exact absurd (ha hab) Bool.false_ne_true
        · cases hr.symm.trans hrep
      have hrep : Timer.replied aborted = .replied false := by rw [hab]
      exact ⟨Or.inr hrep, fun _ _ => hrep⟩
    | abort seen | waitIo seen =>
      cases seen with
      | none => trivial
      | some seen =>
        rw [hp] at h
        intro h0
        cases hr.symm.trans (h h0)
    | clear seen =>
      cases seen with
      | none => trivial
      | some seen =>
        rw [hp] at h
        obtain ⟨_, hcol, -⟩ := h
        cases hr.symm.trans hcol
  | signal m hm =>
    change During bit _ s.place
    cases hp : s.place with
    | wait mask =>
      rw [hp] at h
      refine ⟨h.1, fun hfired h0 => h.2 ?_ (and_eq_zero_of_or h0)⟩
      exact (fired_or s.sigRecvd m bit hm).symm.trans hfired
    | idle | doIo => trivial
    | abort seen | waitIo seen | clear seen =>
      rw [hp] at h
      cases seen with
      | none => trivial
      | some seen => exact h

/-- A wait goes on until it returns. -/
theorem Step.waiting (hs : Step bit s e s') (h : s.place.waiting = true)
    (hno : ∀ seen, e ≠ .waited seen) : s'.place.waiting = true := by
  cases hs with
  | sleep _ hp _ | doIoAgain hp _ _ | doIoWoken _ hp _ _ | doIo _ hp _ | arm hp _
  | consumeNone hp _ _ | consume _ hp _ | cancel hp _ | call _ hp _ _ | ownWait _ hp | cleared hp =>
    rw [hp] at h
    cases h
  | wake mask hp hs => rfl
  | abort seen hp | waitIoWoken seen _ hp _ _ | waitIo seen _ hp _ =>
    rw [hp] at h
    cases seen with
    | none => cases h
    | some seen => rfl
  | waitIoAgain seen hp _ _ => exact h
  | returned seen hp => exact absurd rfl (hno seen)
  | reply _ _ _ _ => exact h
  | signal _ _ => exact h

/-- What a wait leaves. -/
theorem During.returned (h : During bit s s.place) (hs : Step bit s (.waited seen) s') :
    (seen = 0 → s'.request = .collected false) ∧ (∃ aborted, s'.request = .collected aborted)
      ∧ s'.fired bit = false := by
  cases hs with
  | returned seen hp =>
    rw [hp] at h
    obtain ⟨aborted, hcol, hzero⟩ := h
    exact ⟨fun h0 => by rw [← hzero h0]; exact hcol, ⟨aborted, hcol⟩, fired_clear s.sigRecvd bit⟩

/-! ## The timeout is real -/

/-- **In every run whose waits start ready**, a wait that has seen nothing has had its timeout; and
whatever it has seen, its request is collected and the port's signal clear. -/
theorem timeout_of_ready {es : List Event}
    (h : History Start (Restrict (Ready bit) (Step bit)) es s) (hs : Step bit s (.waited seen) s') :
    (seen = 0 → s'.request = .collected false) ∧ (∃ aborted, s'.request = .collected aborted)
      ∧ s'.fired bit = false := by
  refine During.returned (h.invariant (fun _ s => During bit s s.place) (fun s hs => ?_) ?_) hs
  · rw [hs.2]
    trivial
  · rintro - s e s' h ⟨hready, hs⟩
    exact h.next hs hready

/-- **An old signal ends the wait at once.** -/
theorem mistaken (h : s.place = .wait mask) (hr : s.request = .outstanding false)
    (hfired : s.fired bit = true) (h0 : s.sigRecvd &&& mask = 0) :
    ∃ es s₂ s₃, History (· = s) (Step bit) es s₂ ∧ (∀ seen, .waited seen ∉ es)
      ∧ Step bit s₂ (.waited 0) s₃ ∧ s₃.request = .collected true := by
  have hs : s.sigRecvd &&& (mask ||| sigmask bit) ≠ 0 := by
    intro hz
    have hbit : (s.sigRecvd &&& (mask ||| sigmask bit)).getLsbD bit = true := by
      rw [BitVec.getLsbD_and, BitVec.getLsbD_or, getLsbD_sigmask, decide_eq_true rfl, Bool.or_true,
        Bool.and_true]
      exact hfired
    have hz' : (0 : BitVec 32).getLsbD bit = false := BitVec.getLsbD_zero
    rw [hz, hz'] at hbit
    cases hbit
  have h₀ : History (· = s) (Step bit) [] s := .start rfl
  have h₁ := h₀.next (.wake mask h hs)
  rw [seen_eq, h0] at h₁
  have h₂ := h₁.next (.abort (some 0) rfl)
  have h₃ := h₂.next (.reply true true
    (by change (if s.request.done then _ else _) = _; rw [hr]; rfl)
    fun _ => rfl)
  have h₄ := h₃.next (.waitIo (some 0) true rfl rfl)
  refine ⟨_, _, _, h₄, fun seen hmem => ?_, .returned 0 rfl, rfl⟩
  simp at hmem

/-- **One call** returns zero for its own timeout alone, however it goes on, exactly when it starts
ready. -/
theorem call_trusts_iff {s₁ : State} (hcall : Step bit s (.called mask) s₁) :
    (∀ es s₂ seen s₃, History (· = s₁) (Step bit) es s₂ → (∀ seen', .waited seen' ∉ es) →
      Step bit s₂ (.waited seen) s₃ →
      (seen = 0 → s₃.request = .collected false) ∧ (∃ aborted, s₃.request = .collected aborted)
        ∧ s₃.fired bit = false)
      ↔ s.fired bit = false ∨ s.sigRecvd &&& mask ≠ 0 := by
  have hs₁ : s₁ = { s with request := .outstanding false, place := .wait mask } := by
    cases hcall
    rfl
  refine ⟨fun hall => ?_, fun hready es s₂ seen s₃ h hno hret => ?_⟩
  · by_contra hnot
    obtain ⟨hfired, hseen⟩ := not_or.mp hnot
    obtain ⟨es, s₂, s₃, h, hno, hret, htrue⟩ := mistaken (s := s₁)
      (by rw [hs₁] : s₁.place = .wait mask) (by rw [hs₁])
        (by rw [hs₁]; exact (Bool.eq_false_or_eq_true _).resolve_right hfired)
      (by rw [hs₁]; exact not_not.mp hseen)
    have := (hall es s₂ 0 s₃ h hno hret).1 rfl
    rw [htrue] at this
    cases this
  · have hkeep : (∀ seen', .waited seen' ∉ es) → During bit s₂ s₂.place ∧
      s₂.place.waiting = true := by
      refine h.invariant (fun es s => (∀ seen', .waited seen' ∉ es) →
        During bit s s.place ∧ s.place.waiting = true) (fun s hs _ => ?_) ?_
      · have hd : During bit s₁ s₁.place := by
          refine During.next (.of_not_waiting ?_) hcall fun mask' heq => ?_
          · cases hcall
            rename_i hp _ _
            rw [hp]
            rfl
          · obtain rfl := Event.called.inj heq
            exact hready
        rw [hs]
        exact ⟨hd, by rw [hs₁]; rfl⟩
      · intro es s e s' ih hs hno
        obtain ⟨hd, hw⟩ := ih fun seen' hmem => hno seen' (List.mem_cons_of_mem e hmem)
        have hne : ∀ seen, e ≠ .waited seen := by
          rintro seen rfl
          exact hno seen List.mem_cons_self
        refine ⟨hd.next hs fun mask' heq => ?_, hs.waiting hw hne⟩
        -- nobody calls again before the wait is over
        cases hs <;> cases heq
        rename_i hp _ _
        rw [hp] at hw
        cases hw
    exact (hkeep hno).1.returned hret

/-- **`drv_timer_wait` returns zero for its own timeout alone, exactly when it finds the port's
signal clear** or something of its mask to see: so it is in every run whose waits start like that,
and a call that does not can take the old signal for the reply.  Its request is collected and the
signal clear whenever it returns. -/
theorem wait_trusts_its_signal (bit : Fin 32) :
    (∀ es s seen s', History Start (Restrict (Ready bit) (Step bit)) es s →
      Step bit s (.waited seen) s' →
      (seen = 0 → s'.request = .collected false) ∧ (∃ aborted, s'.request = .collected aborted)
        ∧ s'.fired bit = false)
    ∧ ∀ s mask s₁, Step bit s (.called mask) s₁ →
      ((∀ es s₂ seen s₃, History (· = s₁) (Step bit) es s₂ → (∀ seen', .waited seen' ∉ es) →
        Step bit s₂ (.waited seen) s₃ →
        (seen = 0 → s₃.request = .collected false) ∧ (∃ aborted, s₃.request = .collected aborted)
          ∧ s₃.fired bit = false)
        ↔ s.fired bit = false ∨ s.sigRecvd &&& mask ≠ 0) :=
  ⟨fun _ _ _ _ h hs => timeout_of_ready h hs, fun _ _ _ hcall => call_trusts_iff hcall⟩

/-- A sleep whose `DoIO` waits for the reply, and a wait that has its timeout. -/
theorem wait_trusts_its_signal_timeout :
    ∃ es s s', History Start (Restrict (Ready 5) (Step 5)) es s ∧ .called 0x1000 ∈ es ∧
      Step 5 s (.waited 0) s' ∧ s'.request = .collected false := by
  have hacted : ∀ s : State, Ready 5 s .acted := fun _ _ h => Event.noConfusion h
  have hreplied : ∀ s : State, Ready 5 s .replied := fun _ _ h => Event.noConfusion h
  have h₀ : History Start (Restrict (Ready 5) (Step 5)) [] (⟨0, .unsent, .idle⟩ : State) :=
    .start ⟨rfl, rfl⟩
  have h₁ := ((h₀.next ⟨hacted _, .sleep 10 rfl rfl⟩).next
    ⟨hreplied _, .reply false false rfl id⟩).next ⟨hacted _, .doIoWoken false rfl rfl rfl⟩
  have h₂ := (h₁.next ⟨fun _ _ => .inl rfl, .call 0x1000 rfl rfl (by decide)⟩).next
    ⟨hreplied _, .reply false false rfl id⟩
  have h₃ := ((h₂.next ⟨hacted _, .wake 0x1000 rfl (by decide)⟩).next
    ⟨hacted _, .abort _ rfl⟩).next ⟨hacted _, .waitIo _ false rfl rfl⟩
  obtain ⟨htimeout, -⟩ := (wait_trusts_its_signal 5).1 _ _ 0 _ h₃ (.returned 0 rfl)
  exact ⟨_, _, _, h₃, by simp, .returned 0 rfl, htimeout rfl⟩

/-- **A sleep whose reply was there before `DoIO` looked** leaves the signal that the next wait
takes for its timeout. -/
theorem sleep_then_wait :
    ∃ es s s', History Start (Step 5) es s ∧ Step 5 s (.waited 0) s'
      ∧ s'.request = .collected true := by
  have h₀ : History Start (Step 5) [] (⟨0, .unsent, .idle⟩ : State) := .start ⟨rfl, rfl⟩
  have h₁ := ((h₀.next (.sleep 10 rfl rfl)).next (.reply false false rfl id)).next
    (.doIo false rfl rfl)
  have h₂ := h₁.next (.call 0x1000 rfl rfl (by decide))
  have h₃ := ((h₂.next (.wake 0x1000 rfl (by decide))).next (.abort _ rfl)).next
    (.reply true true rfl id)
  have h₄ := h₃.next (.waitIo _ true rfl rfl)
  exact ⟨_, _, _, h₄, .returned 0 rfl, rfl⟩

end DrvTimer
