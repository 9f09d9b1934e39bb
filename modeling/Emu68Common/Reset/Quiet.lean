import Emu68Common.Reset.Hooks
import Mathlib.Data.Fin.VecNotation

/-!
# Reset/Quiet — what the once-flag does and does not promise

`rg_Prepared` is set before `prepare()` runs, so whoever finds it set goes on at once.  That
`prepare()` is entered at most once holds of every run (`Once`), and a `ColdReboot()` passes every
guard on its way (`Passing`).  That `prepare()` has been entered, or has returned, by the time a
hook goes on (`Marked`) holds of the runs in which nobody tests the flag while the caller that set
it is still short of that point (`Clear`), and not of all of them.
-/

namespace Reset

open Machinery

variable {C G : Type} [DecidableEq C] [DecidableEq G] {cfg : Guards G} {s s' : State C G}
  {e : Event C G} {es : List (Event C G)}

/-! ## At most once -/

/-- Whether an event is the entry of a guard's `prepare()`. -/
def Event.enters (g : G) : Event C G → Bool
  | .prepareEntered _ g' => g' = g
  | _ => false

/-- How often a guard's `prepare()` has been entered. -/
def entries (g : G) (es : List (Event C G)) : ℕ := es.countP (·.enters g)

omit [DecidableEq C] in
theorem entries_cons_of_false {g : G} (h : e.enters g = false) :
    entries g (e :: es) = entries g es :=
  List.countP_cons_of_neg (by rw [h]; exact Bool.false_ne_true)

omit [DecidableEq C] in
theorem entries_cons_of_true {g : G} (h : e.enters g = true) :
    entries g (e :: es) = entries g es + 1 := List.countP_cons_of_pos h

/-- **One winner a guard**, and its entry is the first. -/
structure Once (es : List (Event C G)) (s : State C G) : Prop where
  clear : ∀ g, s.prepared g = false → entries g es = 0
  winner : ∀ c k g, s.place c = .hook k g (.tested false) → s.prepared g = true ∧ entries g es = 0
  single : ∀ c c' k k' g, s.place c = .hook k g (.tested false) →
    s.place c' = .hook k' g (.tested false) → c = c'
  once : ∀ g, entries g es ≤ 1

/-- A caller that moves anywhere but past a lost test, entering nothing. -/
theorem Once.frame {c : C} {p : Place G} (h : Once es s)
    (hp : ∀ k g, p ≠ .hook k g (.tested false)) (he : ∀ g, e.enters g = false) :
    Once (e :: es) (s.move c p) := by
  have hother : ∀ c' k g, (s.move c p).place c' = .hook k g (.tested false) →
      s.place c' = .hook k g (.tested false) := by
    intro c' k g hc'
    rw [State.move_place] at hc'
    split at hc'
    · exact absurd hc' (hp k g)
    · exact hc'
  refine ⟨fun g hg => ?_, fun c' k g hc' => ?_, fun c₁ c₂ k₁ k₂ g h₁ h₂ => ?_, fun g => ?_⟩
  · rw [entries_cons_of_false (he g)]
    exact h.clear g hg
  · rw [entries_cons_of_false (he g)]
    exact h.winner c' k g (hother c' k g hc')
  · exact h.single c₁ c₂ k₁ k₂ g (hother c₁ k₁ g h₁) (hother c₂ k₂ g h₂)
  · rw [entries_cons_of_false (he g)]
    exact h.once g

/-- The test itself: whoever finds the flag clear is alone. -/
theorem Once.test {c : C} {k : Hook} {g : G} (h : Once es s) :
    Once (.tested c g (s.prepared g) :: es) (s.test c k g) := by
  have hkeep : ∀ g', entries g' (.tested c g (s.prepared g) :: es) = entries g' es := fun g' =>
    entries_cons_of_false rfl
  have hother : ∀ c' k' g', (s.test c k g).place c' = .hook k' g' (.tested false) →
      (c' = c ∧ g' = g ∧ s.prepared g = false)
        ∨ (c' ≠ c ∧ s.place c' = .hook k' g' (.tested false)) := by
    intro c' k' g' hc'
    rw [State.test_place] at hc'
    split at hc'
    · rename_i hcc
      simp only [Place.hook.injEq, Stage.tested.injEq] at hc'
      exact Or.inl ⟨hcc, hc'.2.1.symm, hc'.2.2⟩
    · rename_i hcc
      exact Or.inr ⟨hcc, hc'⟩
  refine ⟨fun g' hg' => ?_, fun c' k' g' hc' => ?_, fun c₁ c₂ k₁ k₂ g' h₁ h₂ => ?_, fun g' => ?_⟩
  · rw [hkeep]
    rw [State.test_prepared] at hg'
    split at hg'
    · exact absurd hg' (by decide)
    · exact h.clear g' hg'
  · rw [hkeep, State.test_prepared]
    rcases hother c' k' g' hc' with ⟨-, rfl, hfalse⟩ | ⟨-, hold⟩
    · exact ⟨if_pos rfl, h.clear _ hfalse⟩
    · obtain ⟨htrue, hzero⟩ := h.winner c' k' g' hold
      exact ⟨by rw [htrue, ite_self], hzero⟩
  · rcases hother c₁ k₁ g' h₁ with ⟨rfl, rfl, hfalse⟩ | ⟨-, hold₁⟩
    · rcases hother c₂ k₂ _ h₂ with ⟨rfl, -, -⟩ | ⟨-, hold₂⟩
      · rfl
      · exact absurd ((h.winner c₂ k₂ _ hold₂).1.symm.trans hfalse) (by decide)
    · rcases hother c₂ k₂ g' h₂ with ⟨rfl, rfl, hfalse⟩ | ⟨-, hold₂⟩
      · exact absurd ((h.winner c₁ k₁ _ hold₁).1.symm.trans hfalse) (by decide)
      · exact h.single c₁ c₂ k₁ k₂ g' hold₁ hold₂
  · rw [hkeep]
    exact h.once g'

/-- The entry: the winner leaves the place that let it in. -/
theorem Once.enter {c : C} {k : Hook} {g : G} (h : Once es s)
    (hc : s.place c = .hook k g (.tested false)) :
    Once (.prepareEntered c g :: es) (s.move c (.hook k g .preparing)) := by
  obtain ⟨htrue, hzero⟩ := h.winner c k g hc
  have hother : ∀ c' k' g', (s.move c (.hook k g .preparing)).place c'
      = .hook k' g' (.tested false) → c' ≠ c ∧ s.place c' = .hook k' g' (.tested false) := by
    intro c' k' g' hc'
    rw [State.move_place] at hc'
    split at hc'
    · exact absurd hc' (by simp)
    · rename_i hcc
      exact ⟨hcc, hc'⟩
  have hkeep : ∀ g', g' ≠ g → entries g' (.prepareEntered c g :: es) = entries g' es :=
    fun g' hg' => entries_cons_of_false (decide_eq_false fun heq => hg' heq.symm)
  have hone : entries g (.prepareEntered c g :: es) = 1 := by
    have henters : (Event.prepareEntered c g).enters g = true := decide_eq_true rfl
    rw [entries_cons_of_true henters, hzero]
  refine ⟨fun g' hg' => ?_, fun c' k' g' hc' => ?_, fun c₁ c₂ k₁ k₂ g' h₁ h₂ => ?_, fun g' => ?_⟩
  · have hne : g' ≠ g := fun heq => absurd (htrue.symm.trans (heq ▸ hg')) (by decide)
    rw [hkeep g' hne]
    exact h.clear g' hg'
  · obtain ⟨hcc, hold⟩ := hother c' k' g' hc'
    have hne : g' ≠ g := fun heq => hcc (h.single c' c k' k g (heq ▸ hold) hc)
    rw [hkeep g' hne]
    exact h.winner c' k' g' hold
  · exact h.single c₁ c₂ k₁ k₂ g' (hother c₁ k₁ g' h₁).2 (hother c₂ k₂ g' h₂).2
  · by_cases heq : g' = g
    · rw [heq, hone]
    · rw [hkeep g' heq]
      exact h.once g'

omit [DecidableEq G] in
theorem Vector.place_ne_tested (v : Vector G) (k : Hook) (g : G) (b : Bool) :
    v.place ≠ .hook k g (.tested b) := by
  cases v <;> simp [Vector.place]

/-- **Every step keeps it.** -/
theorem Once.next (h : Once es s) (hs : Step cfg s e s') : Once (e :: es) s' := by
  cases hs.move with
  | handlerCalled c g _ => exact h.frame (by simp) fun _ => rfl
  | rebootCalled c _ => exact h.frame (fun k g => cfg.vector.place_ne_tested k g _) fun _ => rfl
  | tested c k g _ => exact h.test
  | prepareEntered c k g hc _ => exact h.enter hc
  | skipped c k g _ _ _ => exact h.frame (by simp) fun _ => rfl
  | prepareReturned c k g _ => exact h.frame (by simp) fun _ => rfl
  | doneSent c g _ => exact h.frame (by simp) fun _ => rfl
  | oldEntered c g _ =>
    exact h.frame (fun k g' => (cfg.oldColdReboot g).place_ne_tested k g' _) fun _ => rfl

theorem once_of_history (h : History Quiescent (Step cfg) es s) : Once es s :=
  h.invariant _
    (fun _ hq => ⟨fun _ _ => rfl, fun c k g hc => absurd ((hq.2 c).symm.trans hc) (by simp),
      fun c _ _ _ _ hc _ => absurd ((hq.2 c).symm.trans hc) (by simp), fun _ => Nat.zero_le 1⟩)
    fun _ _ _ _ hinv hs => hinv.next hs

/-! ## By the time a hook goes on -/

/-- A point every `prepare()` gets to. -/
inductive Mark where
  | entered
  | returned
  deriving DecidableEq, Repr

/-- Whether a caller that set the flag is still short of the point. -/
def Mark.pending : Mark → Stage → Bool
  | _, .tested already => !already
  | .returned, .preparing => true
  | _, _ => false

/-- The event of getting there. -/
def Mark.event : Mark → C → G → Event C G
  | .entered => .prepareEntered
  | .returned => .prepareReturned

/-- A guard's `prepare()` got to the point. -/
def Mark.marks (m : Mark) (g : G) (e : Event C G) : Prop := ∃ c, e = m.event c g

/-- Somebody set the flag of a guard and is short of the point. -/
def Pending (m : Mark) (s : State C G) (g : G) : Prop :=
  ∃ c k st, s.place c = .hook k g st ∧ m.pending st = true

/-- **Nobody tests the flag of a guard while its setter is short of the point.** -/
def Clear (m : Mark) (s : State C G) (e : Event C G) : Prop :=
  ∀ c g already, e = .tested c g already → ¬ Pending m s g

variable {m : Mark}

/-- The guard whose flag is tested. -/
def Event.flag : Event C G → Option G
  | .tested _ g _ => some g
  | _ => none

/-- A place of a caller that set the flag of a guard and is short of the point. -/
def Place.pending (m : Mark) (g : G) : Place G → Bool
  | .hook _ g' st => g' = g && m.pending st
  | _ => false

omit [DecidableEq C] in
theorem pending_iff {g : G} : Pending m s g ↔ ∃ c, (s.place c).pending m g = true := by
  refine exists_congr fun c => ⟨?_, fun h => ?_⟩
  · rintro ⟨k, st, hplace, hst⟩
    simpa [hplace, Place.pending] using hst
  · cases hplace : s.place c with
    | idle => simp [hplace, Place.pending] at h
    | original => simp [hplace, Place.pending] at h
    | hook k g' st =>
      obtain ⟨rfl, hst⟩ : g' = g ∧ m.pending st = true := by simpa [hplace, Place.pending] using h
      exact ⟨k, st, rfl, hst⟩

omit [DecidableEq C] [DecidableEq G] in
theorem clear_iff : Clear m s e ↔ ∀ g ∈ e.flag, ¬ Pending m s g := by
  refine ⟨fun h g hg => ?_, fun h c g already he => h g (by rw [he]; rfl)⟩
  cases e with
  | tested c g' already =>
    obtain rfl := Option.some.inj hg
    exact h c _ already rfl
  | _ => cases hg

instance [Fintype C] (g : G) : Decidable (Pending m s g) := decidable_of_iff _ pending_iff.symm

instance [Fintype C] : Decidable (Clear m s e) := decidable_of_iff _ clear_iff.symm

/-- **The flag stands for the point**: reached, or its setter on the way there; and whoever is past
it in the code may count on it. -/
structure Marked (m : Mark) (cfg : Guards G) (es : List (Event C G)) (s : State C G) : Prop where
  flag : ∀ g, cfg.prepare g = true → s.prepared g = true →
    (∃ e ∈ es, m.marks g e) ∨ Pending m s g
  past : ∀ c k g st, cfg.prepare g = true → s.place c = .hook k g st → st ≠ .enter →
    m.pending st = false → ∃ e ∈ es, m.marks g e

omit [DecidableEq G] in
theorem pending_move {c : C} {p : Place G} {g : G}
    (hc : ∀ k st, s.place c = .hook k g st → m.pending st = false) (h : Pending m s g) :
    Pending m (s.move c p) g := by
  obtain ⟨c', k, st, hplace, hst⟩ := h
  have hne : c' ≠ c := fun heq => absurd ((hc k st (heq ▸ hplace)).symm.trans hst) (by decide)
  exact ⟨c', k, st, by rw [State.move_place, if_neg hne, hplace], hst⟩

omit [DecidableEq C] [DecidableEq G] in
theorem marks_cons {g : G} (e : Event C G) (h : ∃ e ∈ es, m.marks g e) :
    ∃ e' ∈ e :: es, m.marks g e' := by
  obtain ⟨e', hmem, hmark⟩ := h
  exact ⟨e', List.mem_cons_of_mem e hmem, hmark⟩

omit [DecidableEq G] in
/-- A caller that moves: the guard it was in is accounted for, and so is the one it comes into. -/
theorem Marked.frame {c : C} {p : Place G} (h : Marked m cfg es s)
    (hfrom : ∀ k g st, cfg.prepare g = true → s.place c = .hook k g st → m.pending st = true →
      Pending m (s.move c p) g ∨ ∃ e' ∈ e :: es, m.marks g e')
    (hto : ∀ k g st, cfg.prepare g = true → p = .hook k g st → st ≠ .enter →
      m.pending st = false → ∃ e' ∈ e :: es, m.marks g e') :
    Marked m cfg (e :: es) (s.move c p) where
  flag g hg hprep := by
    rcases h.flag g hg hprep with hdone | hpend
    · exact Or.inl (marks_cons e hdone)
    · by_cases hc : ∀ k st, s.place c = .hook k g st → m.pending st = false
      · exact Or.inr (pending_move hc hpend)
      · push Not at hc
        obtain ⟨k, st, hplace, hst⟩ := hc
        exact (hfrom k g st hg hplace (Bool.eq_true_of_not_eq_false hst)).symm
  past c' k g st hg hplace hne hst := by
    rw [State.move_place] at hplace
    split at hplace
    · exact hto k g st hg hplace hne hst
    · exact marks_cons e (h.past c' k g st hg hplace hne hst)

/-- The test, by somebody the setter is not waiting for. -/
theorem Marked.test {c : C} {k : Hook} {g : G} (h : Marked m cfg es s)
    (hc : s.place c = .hook k g .enter) (hclear : ¬ Pending m s g) :
    Marked m cfg (.tested c g (s.prepared g) :: es) (s.test c k g) := by
  refine ⟨fun g' hg' hprep => ?_, fun c' k' g' st hg' hplace hne hst => ?_⟩
  · cases hflag : s.prepared g' with
    | false =>
      -- only this test can have set it
      have heq : g' = g := by
        by_contra hne
        rw [State.test_prepared, if_neg hne] at hprep
        exact absurd (hprep.symm.trans hflag) (by decide)
      subst heq
      refine Or.inr ⟨c, k, .tested false, ?_, by cases m <;> rfl⟩
      rw [State.test_place, if_pos rfl, hflag]
    | true =>
      rcases h.flag g' hg' hflag with hdone | ⟨c', k', st, hplace, hst⟩
      · exact Or.inl (marks_cons _ hdone)
      · have hne : c' ≠ c := by
          rintro rfl
          obtain ⟨-, -, rfl⟩ := Place.hook.inj (hplace.symm.trans hc)
          cases m <;> exact absurd hst (by decide)
        exact Or.inr ⟨c', k', st, by rw [State.test_place, if_neg hne, hplace], hst⟩
  · rw [State.test_place] at hplace
    split at hplace
    · obtain ⟨-, rfl, rfl⟩ := Place.hook.inj hplace
      have hprep : s.prepared g = true := by
        cases hflag : s.prepared g with
        | true => rfl
        | false =>
          rw [hflag] at hst
          cases m <;> exact absurd hst (by decide)
      exact marks_cons _ ((h.flag g hg' hprep).resolve_right hclear)
    · exact marks_cons _ (h.past c' k' g' st hg' hplace hne hst)

omit [DecidableEq G] in
theorem Vector.place_eq_enter {v : Vector G} {k : Hook} {g : G} {st : Stage}
    (h : v.place = .hook k g st) : st = .enter := by
  cases v with
  | original => cases h
  | trampoline g' => exact (Place.hook.inj h).2.2.symm

/-- **Every step under the condition keeps it.** -/
theorem Marked.next (h : Marked m cfg es s) (hs : Restrict (Clear m) (Step cfg) s e s') :
    Marked m cfg (e :: es) s' := by
  obtain ⟨hclear, hs⟩ := hs
  cases hs.move with
  | handlerCalled c g hc =>
    refine h.frame (fun k g' st _ hplace => ?_) fun k g' st _ hp hne => ?_
    · exact absurd (hc.symm.trans hplace) (by simp)
    · exact absurd (Place.hook.inj hp).2.2.symm hne
  | rebootCalled c hc =>
    refine h.frame (fun k g' st _ hplace => ?_) fun k g' st _ hp hne => ?_
    · exact absurd (hc.symm.trans hplace) (by simp)
    · exact absurd (Vector.place_eq_enter hp) hne
  | tested c k g hc => exact h.test hc (hclear c g _ rfl)
  | prepareEntered c k g hc hp =>
    refine h.frame (fun k' g' st _ hplace _ => ?_) fun k' g' st _ hplace _ hst => ?_
    · obtain ⟨-, rfl, -⟩ := Place.hook.inj (hc.symm.trans hplace)
      cases m with
      | entered => exact Or.inr ⟨_, List.mem_cons_self, c, rfl⟩
      | returned => exact Or.inl ⟨c, k, .preparing, by rw [State.move_place, if_pos rfl], rfl⟩
    · obtain ⟨-, rfl, rfl⟩ := Place.hook.inj hplace
      cases m with
      | entered => exact ⟨_, List.mem_cons_self, c, rfl⟩
      | returned => exact absurd hst (by decide)
  | skipped c k g already hc hskip =>
    -- a set flag is what `past` speaks of; a missing `prepare()` is nobody's business
    have halready : cfg.prepare g = true → already = true := fun hg =>
      hskip.resolve_right fun hno => absurd (hno.symm.trans hg) (by decide)
    refine h.frame (fun k' g' st hg' hplace hst => ?_) fun k' g' st hg' hplace _ _ => ?_
    · obtain ⟨-, rfl, rfl⟩ := Place.hook.inj (hc.symm.trans hplace)
      rw [halready hg'] at hst
      cases m <;> exact absurd hst (by decide)
    · obtain ⟨-, rfl, -⟩ := Place.hook.inj hplace
      refine marks_cons _ (h.past c k g (.tested already) hg' hc (by simp) ?_)
      rw [halready hg']
      cases m <;> rfl
  | prepareReturned c k g hc =>
    refine h.frame (fun k' g' st _ hplace hst => ?_) fun k' g' st hg' hplace _ _ => ?_
    · obtain ⟨-, rfl, rfl⟩ := Place.hook.inj (hc.symm.trans hplace)
      cases m with
      | entered => exact absurd hst (by decide)
      | returned => exact Or.inr ⟨_, List.mem_cons_self, c, rfl⟩
    · obtain ⟨-, rfl, -⟩ := Place.hook.inj hplace
      cases m with
      | entered => exact marks_cons _ (h.past c k g .preparing hg' hc (by simp) rfl)
      | returned => exact ⟨_, List.mem_cons_self, c, rfl⟩
  | doneSent c g hc =>
    refine h.frame (fun k g' st _ hplace hst => ?_) fun k g' st _ hp => by cases hp
    obtain ⟨-, -, rfl⟩ := Place.hook.inj (hc.symm.trans hplace)
    cases m <;> exact absurd hst (by decide)
  | oldEntered c g hc =>
    refine h.frame (fun k g' st _ hplace hst => ?_) fun k g' st _ hp hne => ?_
    · obtain ⟨-, -, rfl⟩ := Place.hook.inj (hc.symm.trans hplace)
      cases m <;> exact absurd hst (by decide)
    · exact absurd (Vector.place_eq_enter hp) hne

theorem marked_of_history (h : History Quiescent (Restrict (Clear m) (Step cfg)) es s) :
    Marked m cfg es s :=
  h.invariant _
    (fun _ hq => ⟨fun g _ hprep => absurd ((hq.1 g).symm.trans hprep) (by decide),
      fun c _ _ _ _ hplace => absurd ((hq.2 c).symm.trans hplace) (by simp)⟩)
    fun _ _ _ _ hinv hs => hinv.next hs

/-! ## The keyboard told, the old vector entered -/

/-- A hook of this guard goes on: the keyboard is told, or the saved vector entered. -/
def GoesOn (g : G) (e : Event C G) : Prop := ∃ c, e = .doneSent c g ∨ e = .oldEntered c g

/-- **Under the condition a hook goes on only past the point.** -/
theorem goesOn_after_mark (h : History Quiescent (Restrict (Clear m) (Step cfg)) es s) {g : G}
    (hg : cfg.prepare g = true) : Precedes (GoesOn g) (m.marks g) es := by
  induction h with
  | start => exact precedes_nil _ _
  | next h hs ih =>
    refine ih.cons ?_
    have hpast := (marked_of_history h).past
    rintro ⟨c, rfl | rfl⟩
    · cases hs.2.move with
      | doneSent _ _ hc => exact hpast c .kbd g .finished hg hc (by simp) (by cases m <;> rfl)
    · cases hs.2.move with
      | oldEntered _ _ hc =>
        exact hpast c .coldreboot g .finished hg hc (by simp) (by cases m <;> rfl)

/-- **The reset proceeds only after the driver is quiet**, in every run in which nobody tests a
guard's flag while the caller that set it has not returned from `prepare()`. -/
theorem goes_on_only_when_quiet
    (h : History Quiescent (Restrict (Clear .returned) (Step cfg)) es s) {g : G}
    (hg : cfg.prepare g = true) : Precedes (GoesOn g) (Mark.returned.marks g) es :=
  goesOn_after_mark h hg

/-- One installed guard. -/
def oneGuard : Guards Unit := ⟨fun _ => true, fun _ => .original, .trampoline ()⟩

/-- Two callers and one guard, nothing called yet. -/
def atRest : State Bool Unit := ⟨fun _ => false, fun _ => .idle⟩

theorem quiescent_atRest : Quiescent atRest := ⟨fun _ => rfl, fun _ => rfl⟩

/-- A guard installed over another one. -/
def twoGuards : Guards Bool :=
  ⟨fun _ => true, fun g => if g then .trampoline false else .original, .trampoline true⟩

/-- `ColdReboot()` passes both; meanwhile the keyboard calls the handler of the lower one, whose
`prepare()` has returned by the time `ColdReboot()` gets there. -/
def bothWays : List (Event Bool Bool) :=
  [.oldEntered false false, .skipped false false, .doneSent true false, .tested false false true,
    .oldEntered false true, .prepareReturned true false, .prepareReturned false true,
    .prepareEntered false true, .prepareEntered true false, .tested true false false,
    .handlerCalled true false, .tested false true false, .rebootCalled false]

theorem history_bothWays (m : Mark) :
    ∃ s, History Quiescent (Restrict (Clear m) (Step twoGuards)) bothWays s
      ∧ s.place false = .original := by
  have hrest : Quiescent (⟨fun _ => false, fun _ => .idle⟩ : State Bool Bool) :=
    ⟨fun _ => rfl, fun _ => rfl⟩
  cases m with
  | _ =>
    exact ⟨_, History.next (.next (.next (.next (.next (.next (.next (.next (.next (.next (.next
      (.next (.next (.start hrest) ⟨by decide, .reboot false, rfl⟩)
      ⟨by decide, .run false, rfl⟩) ⟨by decide, .key true false, rfl⟩)
      ⟨by decide, .run true, rfl⟩) ⟨by decide, .run true, rfl⟩)
      ⟨by decide, .run false, rfl⟩) ⟨by decide, .run false, rfl⟩)
      ⟨by decide, .run true, rfl⟩) ⟨by decide, .run false, rfl⟩)
      ⟨by decide, .run false, rfl⟩) ⟨by decide, .run true, rfl⟩)
      ⟨by decide, .run false, rfl⟩) ⟨by decide, .run false, rfl⟩, rfl⟩

theorem goes_on_only_when_quiet_bothWays :
    Precedes (GoesOn true) (Mark.returned.marks true) bothWays ∧
      Precedes (GoesOn false) (Mark.returned.marks false) bothWays := by
  obtain ⟨s, h, -⟩ := history_bothWays .returned
  exact ⟨goes_on_only_when_quiet h rfl, goes_on_only_when_quiet h rfl⟩

/-- `ColdReboot()` is in `prepare()` when the keyboard interrupt comes: its handler finds the flag
set, and tells the keyboard to go ahead. -/
def overtaken : List (Event Bool Unit) :=
  [.doneSent true (), .skipped true (), .tested true () true, .handlerCalled true (),
    .prepareEntered false (), .tested false () false, .rebootCalled false]

theorem goes_on_before_quiet :
    (∃ s, History Quiescent (Step oneGuard) overtaken s)
      ∧ ¬ Precedes (GoesOn ()) (Mark.returned.marks ()) overtaken := by
  refine ⟨⟨_, history_of_runActions [.run true, .run true, .run true, .key true (),
    .run false, .run false, .reboot false] quiescent_atRest rfl⟩, fun h => ?_⟩
  obtain ⟨e, hmem, c, rfl⟩ := h [] _ _ rfl ⟨true, Or.inl rfl⟩
  simp [Mark.event] at hmem

end Reset
