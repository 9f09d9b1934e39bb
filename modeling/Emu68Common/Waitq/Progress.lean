import Emu68Common.Waitq.Return

/-!
# Waitq/Progress — every wait can return

A waiter needs three things it cannot do itself: a reply of the device, the lock, and for the lock
that whoever has it lets go.  The device may always reply; the holder of the lock, on whatever line
it is, has a line of its own to go on with until it has let go; and with the lock free the waiter
goes on alone.  So no run comes to a state in which a wait depends on a task that sleeps, or on the
predicate ever coming true (`wait_can_return`).

    rank s t     how far a task is from letting go of the lock, or from its return
    Helped       the steps of a task, of whoever has the lock, and of the device
-/

namespace Waitq

open Machinery

variable {T W σ : Type} [DecidableEq T] [DecidableEq W] {pred : W → σ → Bool} {s s' : State T W σ}
  {es : List (Event T W)} {t t' : T} {w : W} {line : Line}

/-! ## How far it is -/

/-- The lines still to go to the return, with the reply to come or there. -/
def Line.rank : Line → Bool → ℕ
  | .check, _ => 19
  | .ready, _ => 18
  | .port, _ => 17
  | .send, _ => 16
  | .add, false | .release, false | .sleep, false | .obtain, false | .recheck, false
  | .checkIo, false => 15
  | .add, true => 14
  | .release, true => 13
  | .sleep, true => 12
  | .obtain, true => 11
  | .recheck, true => 10
  | .checkIo, true => 9
  | .remove _, _ => 8
  | .test _, _ => 7
  | .abort _, _ => 6
  | .waitIo _, false => 5
  | .waitIo _, true => 4
  | .clear _, _ => 3
  | .delete _, _ => 2
  | .ret _, _ => 1

/-- What a task at a place has still to do, with so many waiters on the list. -/
def Place.rank (n : ℕ) (waits : W → Wait) : Place W → ℕ
  | .away => 0
  | .holding true => 1
  | .waking k => 2 + (n - k)
  | .holding false => 3 + n
  | .waiting w line => 1 + line.rank (waits w).timer.done

/-- **The rank of a task.** -/
def rank (t : T) (s : State T W σ) : ℕ := (s.place t).rank s.waiters.length s.waits

/-- **A step of this task, of whoever has the lock, or of the device.** -/
def Helped (pred : W → σ → Bool) (t : T) (s s' : State T W σ) : Prop :=
  ∃ e, Step pred s e s' ∧ (Event.by t e ∨ (∃ t', s.owner = some t' ∧ Event.by t' e) ∨
    ∃ w, e = .replied w)

/-! ## A line further -/

/-- **A wait goes on**: by a step of its own, or by the reply to its request. -/
def Advances (pred : W → σ → Bool) (s : State T W σ) (t : T) (w : W) (line : Line) : Prop :=
  ∃ e s' line', Step pred s e s' ∧ (Event.by t e ∨ e = .replied w) ∧
    s'.place = Function.update s.place t (.waiting w line') ∧
    (s'.owner = none ∨ s'.owner = some t) ∧
    line'.rank (s'.waits w).timer.done < line.rank (s.waits w).timer.done

/-- The lines between sending the request and finding it complete. -/
def Line.awaits : Line → Bool
  | .add | .release | .sleep | .obtain | .recheck | .checkIo | .waitIo _ => true
  | _ => false

theorem rank_reply (hline : line.awaits = true) : line.rank true < line.rank false := by
  cases line with
  | waitIo rc => exact Nat.lt_succ_self 4
  | add | release | sleep | obtain | recheck | checkIo => decide
  | _ => exact absurd hline Bool.false_ne_true

theorem rank_waitIo (rc : Result) (done : Bool) : (Line.waitIo rc).rank done < 6 := by
  cases done with
  | false => exact Nat.lt_succ_self 5
  | true => exact Nat.lt_succ_of_lt (Nat.lt_succ_self 4)

/-- The device replies to what it was sent. -/
theorem advances_reply (hp : s.place t = .waiting w line) (ho : s.owner = none ∨ s.owner = some t)
    (hline : line.awaits = true) {aborting : Bool}
    (htimer : (s.waits w).timer = .outstanding aborting) : Advances pred s t w line := by
  refine ⟨_, _, line, .reply w aborting aborting htimer id, .inr rfl, ?_, ho, ?_⟩
  · exact (Function.update_eq_self_iff.mpr hp.symm).symm
  · rw [htimer, State.set_waits, if_pos rfl]
    exact rank_reply hline

/-- Whether the request is complete is settled once it was sent. -/
theorem done_or_outstanding {x : Wait} (h : x.timer ≠ .unsent) :
    x.timer.done = true ∨ ∃ aborting, x.timer = .outstanding aborting := by
  cases hx : x.timer with
  | unsent => exact absurd hx h
  | outstanding aborting => exact .inr ⟨aborting, rfl⟩
  | replied aborted => exact .inl rfl
  | collected aborted => exact .inl rfl

theorem Wait.Running.ne_unsent {x : Wait} (h : x.Running) : x.timer ≠ .unsent := by
  rintro hx
  rcases h with h | h
  · exact Timer.noConfusion (hx.symm.trans h)
  · exact Timer.noConfusion (hx.symm.trans h)

/-- **With the lock in its own hands or free, a wait goes on** until it returns. -/
theorem advances (h : Inv pred s) (hp : s.place t = .waiting w line)
    (ho : s.owner = none ∨ s.owner = some t) (hret : ∀ rc, line ≠ .ret rc) :
    Advances pred s t w line := by
  have hat := h.line t w line hp
  -- where a reply may have to come first, it does
  have hfirst : line.awaits = true → (s.waits w).timer ≠ .unsent →
      ((s.waits w).timer.done = true → Advances pred s t w line) → Advances pred s t w line := by
    intro hline hne hdone
    rcases done_or_outstanding hne with hd | ⟨aborting, htimer⟩
    · exact hdone hd
    · exact advances_reply hp ho hline htimer
  cases line with
  | check =>
    refine ⟨_, _, _, .check t w hp, .inl rfl, rfl, ho, ?_⟩
    split
    · exact (by decide : ∀ b, (Line.ret .ok).rank b < Line.check.rank b) _
    · exact (by decide : ∀ b, Line.ready.rank b < Line.check.rank b) _
  | ready =>
    refine ⟨_, _, _, .ready t w true hp, .inl rfl, rfl, ho, ?_⟩
    rw [Bool.or_true, if_pos rfl]
    exact (by decide : ∀ b, Line.port.rank b < Line.ready.rank b) _
  | port =>
    refine ⟨_, _, _, .port t w true hp, .inl rfl, rfl, ho, ?_⟩
    rw [if_pos rfl, State.go_waits, State.set_waits, if_pos rfl]
    exact (by decide : ∀ b, Line.send.rank b < Line.port.rank b) _
  | send =>
    refine ⟨_, _, _, .send t w hp, .inl rfl, rfl, ho, ?_⟩
    rw [State.go_waits, State.set_waits, if_pos rfl]
    exact (by decide : ∀ b, Line.add.rank false < Line.send.rank b) _
  | add =>
    refine hfirst rfl hat.1.running.ne_unsent fun hd => ?_
    refine ⟨_, _, _, .add t w hp, .inl rfl, rfl, ho, ?_⟩
    rw [hd, State.go_waits, hd]
    decide
  | release =>
    refine hfirst rfl hat.1.running.ne_unsent fun hd => ?_
    refine ⟨_, _, _, .release t w hp, .inl rfl, rfl, .inl rfl, ?_⟩
    rw [hd, State.go_waits, State.letGo, hd]
    decide
  | sleep =>
    refine hfirst rfl hat.1.running.ne_unsent fun hd => ?_
    have hsig : (s.waits w).sig = true := by
      rcases hat.1 with hout | ⟨-, hsig⟩
      · rw [hout] at hd
        exact absurd hd Bool.false_ne_true
      · exact hsig
    refine ⟨_, _, _, .sleep t w hp hsig, .inl rfl, rfl, ho, ?_⟩
    rw [State.go_waits, State.set_waits, if_pos rfl, hd]
    decide
  | obtain =>
    refine hfirst rfl hat.1.ne_unsent fun hd => ?_
    have hfree : s.owner = none := ho.resolve_right fun hown =>
      absurd ((h.lock t).mpr hown) (by rw [hp]; exact Bool.false_ne_true)
    refine ⟨_, _, _, .obtain t w hp hfree, .inl rfl, rfl, .inr rfl, ?_⟩
    rw [State.go_waits, hd]
    decide
  | recheck =>
    refine hfirst rfl hat.1.ne_unsent fun hd => ?_
    refine ⟨_, _, _, .recheck t w hp, .inl rfl, rfl, ho, ?_⟩
    rw [State.go_waits, State.set_waits, if_pos rfl, hd]
    split
    · decide
    · decide
  | checkIo =>
    refine hfirst rfl hat.1.ne_unsent fun hd => ?_
    refine ⟨_, _, _, .checkIo t w hp, .inl rfl, rfl, ho, ?_⟩
    rw [State.go_waits, hd, if_pos rfl]
    decide
  | remove rc =>
    exact ⟨_, _, _, .remove t w rc hp, .inl rfl, rfl, ho, Nat.lt_succ_self 7⟩
  | test rc =>
    refine ⟨_, _, _, .test t w rc hp, .inl rfl, rfl, ho, ?_⟩
    rw [State.go_waits]
    split
    · exact Nat.lt_succ_of_lt (rank_waitIo rc _)
    · exact Nat.lt_succ_self 6
  | abort rc => exact ⟨_, _, _, .abort t w rc hp, .inl rfl, rfl, ho, rank_waitIo rc _⟩
  | waitIo rc =>
    have hpending : (s.waits w).timer.pending = true := hat.1
    cases htimer : (s.waits w).timer with
    | outstanding aborting => exact advances_reply hp ho rfl htimer
    | replied aborted =>
      refine ⟨_, _, _, .waitIo t w rc aborted hp htimer, .inl rfl, rfl, ho, ?_⟩
      rw [htimer]
      exact Nat.lt_succ_self 3
    | _ =>
      rw [htimer] at hpending
      exact absurd hpending Bool.false_ne_true
  | clear rc => exact ⟨_, _, _, .clear t w rc hp, .inl rfl, rfl, ho, Nat.lt_succ_self 2⟩
  | delete rc => exact ⟨_, _, _, .delete t w rc hp, .inl rfl, rfl, ho, Nat.lt_succ_self 1⟩
  | ret rc => exact absurd rfl (hret rc)

/-! ## The lock is let go -/

/-- **Whoever has the lock can let go of it**, with the help of the device at most. -/
theorem can_let_go (h : Inv pred s) (hne : t' ≠ t) {p : Place W} (hp : s.place t = p)
    (ho : s.owner = some t') : CanReach (Helped pred t)
      (fun s => (Inv pred s ∧ s.place t = p ∧ (s.owner = none ∨ s.owner = some t')) ∧
        s.owner = none) s := by
  refine CanReach.of_rank (rank t') ⟨h, hp, .inr ho⟩ ?_
  rintro s ⟨h, hp, ho⟩ hheld
  have hown : s.owner = some t' := ho.resolve_left hheld
  have hholds : (s.place t').holds = true := (h.lock t').mpr hown
  -- a step of the holder's to another place
  have hmove : ∀ {e : Event T W} {s' : State T W σ} {q : Place W}, Step pred s e s' →
      (Event.by t' e ∨ ∃ w, e = .replied w) → s'.place = Function.update s.place t' q →
        (s'.owner = none ∨ s'.owner = some t') →
          q.rank s'.waiters.length s'.waits < (s.place t').rank s.waiters.length s.waits →
          ∃ s', Helped pred t s s' ∧ (Inv pred s' ∧ s'.place t = p ∧
            (s'.owner = none ∨ s'.owner = some t')) ∧ rank t' s' < rank t' s := by
    intro e s' q hs hby hplace hown' hlt
    refine ⟨s', ⟨e, hs, ?_⟩, ⟨h.next hs, ?_, hown'⟩, ?_⟩
    · exact .inr (hby.imp_left fun hby => ⟨t', hown, hby⟩)
    · rw [hplace, Function.update_of_ne hne.symm, hp]
    · rwa [rank, hplace, Function.update_self]
  cases hplace : s.place t' with
  | away =>
    rw [hplace] at hholds
    exact absurd hholds Bool.false_ne_true
  | holding clean =>
    cases clean with
    | true =>
      refine hmove (.released t' hplace) (.inl rfl) rfl (.inl rfl) ?_
      rw [hplace]
      exact Nat.zero_lt_one
    | false =>
      refine hmove (.wakeAll t' false hplace) (.inl rfl) rfl (.inr hown) ?_
      rw [hplace]
      exact Nat.add_lt_add_right (by decide) s.waiters.length
  | waking k =>
    cases hk : s.waiters[k]? with
    | none =>
      refine hmove (.wokeAll t' k hplace hk) (.inl rfl) rfl (.inr hown) ?_
      rw [hplace]
      exact Nat.lt_add_right (s.waiters.length - k) (Nat.lt_succ_self 1)
    | some w =>
      have hlt : k < s.waiters.length := (List.getElem?_eq_some_iff.mp hk).1
      refine hmove (.wakeOne t' k w hplace hk) (.inl rfl) rfl (.inr hown) ?_
      rw [hplace]
      exact Nat.add_lt_add_left (Nat.sub_succ_lt_self _ _ hlt) 2
  | waiting w line =>
    by_cases hret : ∃ rc, line = .ret rc
    · obtain ⟨rc, rfl⟩ := hret
      refine hmove (.ret t' w rc hplace) (.inl rfl) rfl (.inr hown) ?_
      rw [hplace]
      exact Nat.lt_succ_self 1
    · obtain ⟨e, s', line', hs, hby, hplace', hown', hlt⟩ :=
        advances h hplace ho fun rc heq => hret ⟨rc, heq⟩
      refine hmove hs (hby.imp_right fun heq => ⟨w, heq⟩) hplace' hown' ?_
      rw [hplace]
      exact Nat.add_lt_add_left hlt 1

/-! ## The wait returns -/

/-- **With the lock its own or free, a wait comes to its return**, alone but for the device. -/
theorem can_come_to_ret (h : Inv pred s) (hp : s.place t = .waiting w line)
    (ho : s.owner = none ∨ s.owner = some t) : CanReach (Helped pred t)
      (fun s => (Inv pred s ∧ (∃ line, s.place t = .waiting w line) ∧
        (s.owner = none ∨ s.owner = some t)) ∧ ∃ rc, s.place t = .waiting w (.ret rc)) s := by
  refine CanReach.of_rank (rank t) ⟨h, ⟨line, hp⟩, ho⟩ ?_
  rintro s ⟨h, ⟨line, hp⟩, ho⟩ hret
  obtain ⟨e, s', line', hs, hby, hplace, ho', hlt⟩ :=
    advances h hp ho fun rc heq => hret ⟨rc, heq ▸ hp⟩
  have hp' : s'.place t = .waiting w line' := by rw [hplace, Function.update_self]
  refine ⟨s', ⟨e, hs, hby.imp_right fun heq => .inr ⟨w, heq⟩⟩, ⟨h.next hs, ⟨line', hp'⟩, ho'⟩, ?_⟩
  rw [rank, rank, hp, hp']
  exact Nat.add_lt_add_left hlt 1

/-- **Every wait can return.**  In every run of any number of tasks and waits, a task in
`drv_wait_event` can still return from it, on whatever line it is and whatever the others do or wait
for: by steps of its own, of whoever has the lock at the time, and of the device. -/
theorem wait_can_return (h : History Start (Step pred) es s) (hp : s.place t = .waiting w line) :
    CanReach (Helped pred t) (fun s' => ∃ rc s'', Step pred s' (.returned t w rc) s'') s := by
  have hinv := Inv.of_history h
  have hlast : ∀ {s line}, Inv pred s → s.place t = .waiting w line →
      (s.owner = none ∨ s.owner = some t) →
        CanReach (Helped pred t) (fun s' => ∃ rc s'', Step pred s' (.returned t w rc) s'') s := by
    intro s line h hp ho
    refine (can_come_to_ret h hp ho).bind ?_
    rintro s' ⟨-, rc, hret⟩
    exact .here ⟨rc, _, .ret t w rc hret⟩
  by_cases hown : ∃ t', t' ≠ t ∧ s.owner = some t'
  · -- somebody else has the lock
    obtain ⟨t', hne, ho⟩ := hown
    refine (can_let_go hinv hne hp ho).bind ?_
    rintro s' ⟨⟨hinv', hp', -⟩, hfree⟩
    exact hlast hinv' hp' (.inl hfree)
  · refine hlast hinv hp ?_
    cases ho : s.owner with
    | none => exact .inl rfl
    | some t' =>
      by_cases hne : t' = t
      · exact .inr (congrArg some hne)
      · exact absurd ⟨t', hne, ho⟩ hown

/-- A task asleep on a predicate that never holds, and another with the lock. -/
theorem wait_can_return_asleep :
    ∃ (es : List (Event Bool Unit)) (s : State Bool Unit Bool),
      History Start (Step fun _ _ => false) es s ∧ s.place false = .waiting () .sleep
        ∧ s.owner = some true ∧ CanReach (Helped (fun _ _ => false) false)
          (fun s' => ∃ rc s'', Step (fun _ _ => false) s' (.returned false () rc) s'') s := by
  let s₀ : State Bool Unit Bool := ⟨false, none, fun _ => .away, [], fun _ => .fresh, true⟩
  have h₀ : History Start (Step fun _ _ => false) [] s₀ :=
    .start ⟨rfl, fun _ => rfl, rfl, fun _ => rfl⟩
  have h₁ := ((((((h₀.next (.obtained false rfl rfl)).next (.call false () rfl rfl)).next
    (.check false () rfl)).next (.ready false () true rfl)).next (.port false () true rfl)).next
    (.send false () rfl))
  have h₂ := ((h₁.next (.add false () rfl)).next (.release false () rfl)).next
    (.obtained true rfl rfl)
  exact ⟨_, _, h₂, rfl, rfl, wait_can_return h₂ rfl⟩

end Waitq
