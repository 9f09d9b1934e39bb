import Emu68Common.Claim.Semaphore

/-!
# Claim/Exclusion — one driver at a time

A claim's name is written before the list is asked and wiped after it said no, so it changes under
the other drivers' eyes; but only while the claim is off the list (`Inv.onList`).  On the list every
name is settled, and the one place that adds to it has just looked.
-/

namespace HwClaim

open Machinery Text

variable {C : Type} {s s' : State C} {e : Event C} {es : List (Event C)} {c d : C} {p : Place}
  {sys : Sys C}

/-- The places between `AddSemaphore` and `RemSemaphore`. -/
def Place.onList : Place → Bool
  | .idle held => held
  | .decided _ unclaimed _ => unclaimed
  | .releasing => true
  | _ => false

/-- **What holds of a claim where its driver is.** -/
def At (s : Sys C) (c : C) : Place → Prop
  | .idle held => held = false → s.string c = []
  | .refused name => HW_CLAIM_NAME_MAX ≤ strlen name
  | .copied name => strlen name < HW_CLAIM_NAME_MAX ∧ name.bytes ≠ [] ∧ s.string c = name.bytes
  | .linked name =>
    strlen name < HW_CLAIM_NAME_MAX ∧ name.bytes ≠ [] ∧ s.string c = name.bytes
      ∧ (s.claims c).lnName = true
  | .decided name unclaimed seen =>
    strlen name < HW_CLAIM_NAME_MAX ∧ s.string c = name.bytes ∧
      (unclaimed = true ↔ name.bytes ∉ seen)
  | _ => True

/-- **The invariant** of the public list. -/
structure Inv (s : State C) : Prop where
  nodup : s.sys.list.Nodup
  onList : ∀ c, c ∈ s.sys.list ↔ (s.place c).onList = true
  named : ∀ c ∈ s.sys.list, (s.sys.claims c).lnName = true ∧ s.sys.string c ≠ []
  unique : ∀ c ∈ s.sys.list, ∀ d ∈ s.sys.list, s.sys.string c = s.sys.string d → c = d
  place : ∀ c, At s.sys c (s.place c)

/-- What holds of a claim depends on that claim. -/
theorem At.congr {s s' : Sys C} (h : At s c p) (hc : s'.claims c = s.claims c) : At s' c p := by
  have hs : s'.string c = s.string c := congrArg Claim.string hc
  cases p with
  | idle held => exact fun hh => hs.trans (h hh)
  | copied name => exact ⟨h.1, h.2.1, hs.trans h.2.2⟩
  | linked name => exact ⟨h.1, h.2.1, hs.trans h.2.2.1, by rw [hc]; exact h.2.2.2⟩
  | decided name unclaimed seen => exact ⟨h.1, hs.trans h.2.1, h.2.2⟩
  | _ => exact h

namespace Inv

theorem of_start (h : Start s) : Inv s := by
  refine ⟨by rw [h.list]; exact List.nodup_nil, fun c => ?_, fun c hc => ?_, fun c hc => ?_,
    fun c => ?_⟩
  · rw [h.list, h.place]
    exact iff_of_false List.not_mem_nil Bool.false_ne_true
  · rw [h.list] at hc
    cases hc
  · rw [h.list] at hc
    cases hc
  · rw [h.place]
    exact fun _ => Sys.string_eq_nil.mpr (by rw [h.claims])

variable [DecidableEq C]

/-- **One driver moves**, and only its own claim and entry change. -/
theorem moved (h : Inv s) (hothers : ∀ d, d ≠ c → sys.claims d = s.sys.claims d)
    (hlist : ∀ d, d ≠ c → (d ∈ sys.list ↔ d ∈ s.sys.list)) (hnodup : sys.list.Nodup)
    (hon : c ∈ sys.list ↔ p.onList = true)
    (hnamed : c ∈ sys.list → (sys.claims c).lnName = true ∧ sys.string c ≠ []
      ∧ ∀ d ∈ s.sys.list, d ≠ c → s.sys.string d ≠ sys.string c)
    (hat : At sys c p) : Inv (s.go c p sys) := by
  have hstring : ∀ d, d ≠ c → sys.string d = s.sys.string d := fun d hd =>
    congrArg Claim.string (hothers d hd)
  have hplace : ∀ d, (s.go c p sys).place d = if d = c then p else s.place d :=
    Function.update_apply s.place c p
  refine ⟨hnodup, fun d => ?_, fun d hd => ?_, fun d hd d' hd' heq => ?_, fun d => ?_⟩
  · rw [hplace]
    split
    · rename_i heq
      rw [heq]
      exact hon
    · rename_i hne
      exact (hlist d hne).trans (h.onList d)
  · by_cases heq : d = c
    · subst heq
      exact ⟨(hnamed hd).1, (hnamed hd).2.1⟩
    · change (sys.claims d).lnName = true ∧ sys.string d ≠ []
      rw [hothers d heq, hstring d heq]
      exact h.named d ((hlist d heq).mp hd)
  · change sys.string d = sys.string d' at heq
    by_cases hc : d = c <;> by_cases hc' : d' = c
    · rw [hc, hc']
    · subst hc
      rw [hstring d' hc'] at heq
      exact absurd heq.symm ((hnamed hd).2.2 d' ((hlist d' hc').mp hd') hc')
    · subst hc'
      rw [hstring d hc] at heq
      exact absurd heq ((hnamed hd').2.2 d ((hlist d hc).mp hd) hc)
    · rw [hstring d hc, hstring d' hc'] at heq
      exact h.unique d ((hlist d hc).mp hd) d' ((hlist d' hc').mp hd') heq
  · rw [hplace]
    split
    · rename_i heq
      rw [heq]
      exact hat
    · rename_i hne
      exact (h.place d).congr (hothers d hne)

/-- A claim off the list may be written. -/
theorem off (h : Inv s) (hc : (s.place c).onList = false) (hp : p.onList = false)
    (hothers : ∀ d, d ≠ c → sys.claims d = s.sys.claims d) (hlist : sys.list = s.sys.list)
    (hat : At sys c p) : Inv (s.go c p sys) := by
  have hoff : c ∉ sys.list := by
    rw [hlist, h.onList, hc]
    exact Bool.false_ne_true
  refine h.moved hothers (fun d _ => by rw [hlist]) (by rw [hlist]; exact h.nodup) ?_
    (fun hmem => absurd hmem hoff) hat
  rw [hp]
  exact iff_of_false hoff Bool.false_ne_true

/-- A claim on the list is left as it is. -/
theorem on (h : Inv s) (hc : (s.place c).onList = true) (hp : p.onList = true)
    (hat : At s.sys c p) : Inv (s.go c p s.sys) := by
  have hmem := (h.onList c).mpr hc
  exact h.moved (fun _ _ => rfl) (fun _ _ => Iff.rfl) h.nodup (iff_of_true hmem hp)
    (fun _ => ⟨(h.named c hmem).1, (h.named c hmem).2,
      fun d hd hne heq => hne (h.unique d hd c hmem heq)⟩) hat

/-- **A name found free is taken.** -/
theorem look {name : CString} (h : Inv s) (hp : s.place c = .linked name) :
    Inv (s.go c (.decided name (s.sys.claimSection c).2 (s.sys.list.map s.sys.string))
      (s.sys.claimSection c).1) := by
  have hat := h.place c
  rw [hp] at hat
  obtain ⟨hlen, hne, hstr, hln⟩ := hat
  have hoff : c ∉ s.sys.list := by
    rw [h.onList, hp]
    exact Bool.false_ne_true
  have hfree : (s.sys.claimSection c).2 = true ↔ ∀ d ∈ s.sys.list, s.sys.string d ≠ name.bytes := by
    rw [← hstr]
    exact Sys.findSemaphore_isNone (fun d hd => (h.named d hd).1) _
  have hseen : (s.sys.claimSection c).2 = true ↔ name.bytes ∉ s.sys.list.map s.sys.string := by
    rw [hfree, List.mem_map]
    exact ⟨fun hd ⟨d, hmem, heq⟩ => hd d hmem heq, fun hn d hmem heq => hn ⟨d, hmem, heq⟩⟩
  cases hu : (s.sys.claimSection c).2 with
  | true =>
    have hsys : (s.sys.claimSection c).1 = s.sys.addSemaphore c := if_pos hu
    rw [hsys]
    have hmem : c ∈ (s.sys.addSemaphore c).list := List.mem_append_right _ List.mem_cons_self
    refine h.moved (fun _ _ => rfl) (fun d hd => ?_) ?_ (iff_of_true hmem rfl) (fun _ => ?_)
      ⟨hlen, hstr, by rwa [hu] at hseen⟩
    · exact List.mem_append.trans (or_iff_left fun hd' => hd (List.mem_singleton.mp hd'))
    · exact h.nodup.append (List.nodup_singleton c)
        fun d hd hd' => hoff (List.mem_singleton.mp hd' ▸ hd)
    · refine ⟨hln, fun heq => hne (hstr.symm.trans heq), fun d hd _ heq => ?_⟩
      exact hfree.mp hu d hd (heq.trans hstr)
  | false =>
    have hsys : (s.sys.claimSection c).1 = s.sys :=
      if_neg (by rw [← Bool.not_eq_true] at hu; exact hu)
    rw [hsys]
    exact h.off (by rw [hp]; rfl) rfl (fun _ _ => rfl) rfl ⟨hlen, hstr, by rwa [hu] at hseen⟩

/-- **Every step keeps the invariant.** -/
theorem next (h : Inv s) (hs : Step s e s') : Inv s' := by
  cases hs with
  | copyTooLong c name hp hn hl =>
    exact h.off (by rw [hp]; rfl) rfl (fun d hd => Sys.set_claims_of_ne hd) rfl
      (by rwa [strlcpy_snd] at hl)
  | copy c name hp hn hl =>
    rw [strlcpy_snd, not_le] at hl
    exact h.off (by rw [hp]; rfl) rfl (fun d hd => Sys.set_claims_of_ne hd) rfl
      ⟨hl, hn, by rw [Sys.string_copyName hl, if_pos rfl]⟩
  | refuse c name hp =>
    exact h.off (by rw [hp]; rfl) rfl (fun d hd => Sys.set_claims_of_ne hd) rfl
      fun _ => by rw [Sys.string_clearName, if_pos rfl]
  | link c name hp =>
    have hat := h.place c
    rw [hp] at hat
    obtain ⟨hlen, hne, hstr⟩ := hat
    exact h.off (by rw [hp]; rfl) rfl (fun d hd => Sys.set_claims_of_ne hd) rfl
      ⟨hlen, hne, by rw [Sys.string_linkName, hstr],
        by rw [Sys.linkName, Sys.set_claims, if_pos rfl]⟩
  | look c name hp => exact h.look hp
  | succeed c name seen hp =>
    exact h.on (by rw [hp]; rfl) rfl fun hf => absurd hf (by decide)
  | fail c name seen hp =>
    exact h.off (by rw [hp]; rfl) rfl (fun d hd => Sys.set_claims_of_ne hd) rfl
      fun _ => by rw [Sys.string_clearName, if_pos rfl]
  | releaseNone c held hp h0 =>
    have hnil := Sys.string_eq_nil.mpr h0
    have hheld : (s.place c).onList = false := Bool.eq_false_iff.mpr fun hon =>
      (h.named c ((h.onList c).mpr hon)).2 hnil
    exact h.off hheld rfl (fun _ _ => rfl) rfl fun _ => hnil
  | release c held hp h0 =>
    have hheld : held = true := by
      refine (Bool.eq_false_or_eq_true held).resolve_right fun hf => h0 ?_
      have hat := h.place c
      rw [hp] at hat
      exact Sys.string_eq_nil.mp (hat hf)
    exact h.on (by rw [hp]; exact hheld) rfl trivial
  | remove c hp =>
    refine h.moved (fun _ _ => rfl) (fun d hd => List.mem_erase_of_ne hd) (h.nodup.erase c)
      (iff_of_false h.nodup.not_mem_erase Bool.false_ne_true)
      (fun hmem => absurd hmem h.nodup.not_mem_erase) trivial
  | clear c hp =>
    exact h.off (by rw [hp]; rfl) rfl (fun d hd => Sys.set_claims_of_ne hd) rfl
      fun _ => by rw [Sys.string_clearName, if_pos rfl]

/-- **Every run keeps it.** -/
theorem of_history (h : History Start Step es s) : Inv s :=
  h.invariant (fun _ s => Inv s) (fun _ h => of_start h) fun _ _ _ _ h hs => h.next hs

/-! ## What a take returns -/

/-- **The answer is what was on the list** at the `Forbid` of that call. -/
theorem took {name : CString} {res : Bool} {seen : Option (List (List UInt8))} (h : Inv s)
    (hs : Step s (.took c name res seen) s') :
    res = true ↔ strlen name < HW_CLAIM_NAME_MAX ∧
      ∃ names, seen = some names ∧ name.bytes ∉ names := by
  cases hs with
  | refuse c name hp =>
    have hat := h.place c
    rw [hp] at hat
    exact iff_of_false Bool.false_ne_true fun hlen => absurd hlen.1 (not_lt.mpr hat)
  | succeed c name names hp =>
    have hat := h.place c
    rw [hp] at hat
    exact iff_of_true rfl ⟨hat.1, names, rfl, hat.2.2.mp rfl⟩
  | fail c name names hp =>
    have hat := h.place c
    rw [hp] at hat
    refine iff_of_false Bool.false_ne_true ?_
    rintro ⟨-, names', heq, hn⟩
    obtain rfl := Option.some.inj heq
    exact absurd (hat.2.2.mpr hn) Bool.false_ne_true

/-- **A claim that was refused is not held**, and the list is as it was. -/
theorem took_false {name : CString} {seen : Option (List (List UInt8))} (h : Inv s)
    (hs : Step s (.took c name false seen) s') :
    s'.sys.list = s.sys.list ∧ c ∉ s'.sys.list ∧ (s'.sys.claims c).hcName 0 = 0
      ∧ s'.place c = .idle false := by
  have hinv := h.next hs
  have hback : s'.sys.list = s.sys.list ∧ s'.place c = .idle false := by
    cases hs <;> exact ⟨rfl, Function.update_self ..⟩
  have hat := hinv.place c
  rw [hback.2] at hat
  refine ⟨hback.1, fun hmem => ?_, Sys.string_eq_nil.mp (hat rfl), hback.2⟩
  have := (hinv.onList c).mp hmem
  rw [hback.2] at this
  cases this

/-- **A claim that was granted is on the list** under the name asked for. -/
theorem took_true {name : CString} {seen : Option (List (List UInt8))} (h : Inv s)
    (hs : Step s (.took c name true seen) s') :
    c ∈ s'.sys.list ∧ s'.sys.string c = name.bytes := by
  cases hs with
  | succeed c name names hp =>
    have hat := h.place c
    rw [hp] at hat
    exact ⟨(h.onList c).mpr (by rw [hp]; rfl), hat.2.1⟩

end Inv

/-- **The list changes** where a take finds its name free, and where a claim is released. -/
theorem Step.list [DecidableEq C] (hs : Step s e s') :
    s'.sys.list = s.sys.list
      ∨ (∃ c name names, s.place c = .linked name ∧ s'.place c = .decided name true names
        ∧ s'.sys.list = s.sys.list ++ [c])
      ∨ ∃ c, s.place c = .releasing ∧ s'.sys.list = s.sys.list.erase c := by
  cases hs with
  | look c name hp =>
    cases hu : (s.sys.claimSection c).2 with
    | true =>
      refine Or.inr (Or.inl ⟨c, name, s.sys.list.map s.sys.string, hp, ?_, ?_⟩)
      · exact Function.update_self ..
      · change (s.sys.claimSection c).1.list = _
        rw [show (s.sys.claimSection c).1 = s.sys.addSemaphore c from if_pos hu]
        rfl
    | false =>
      left
      change (s.sys.claimSection c).1.list = _
      rw [show (s.sys.claimSection c).1 = s.sys from if_neg (ne_true_of_eq_false hu)]
  | remove c hp => exact Or.inr (Or.inr ⟨c, hp, rfl⟩)
  | _ => exact Or.inl rfl

/-- **One driver at a time**: in every run of any number of drivers, no two entries of the list
carry one name; a take is granted exactly when its name fits and none of that name was on the list
at its `Forbid`; and one that is refused has not touched the list and holds nothing. -/
theorem one_driver_at_a_time [DecidableEq C] (h : History Start Step es s) :
    s.sys.list.Nodup
    ∧ (∀ c ∈ s.sys.list, ∀ d ∈ s.sys.list, s.sys.string c = s.sys.string d → c = d)
    ∧ (∀ c name res seen, .took c name res seen ∈ es →
      (res = true ↔ strlen name < HW_CLAIM_NAME_MAX ∧
        ∃ names, seen = some names ∧ name.bytes ∉ names))
    ∧ (∀ c name seen s', Step s (.took c name true seen) s' →
      c ∈ s'.sys.list ∧ s'.sys.string c = name.bytes)
    ∧ (∀ c name seen s', Step s (.took c name false seen) s' →
      s'.sys.list = s.sys.list ∧ c ∉ s'.sys.list ∧ (s'.sys.claims c).hcName 0 = 0
        ∧ s'.place c = .idle false)
    ∧ (∀ e s', Step s e s' → s'.sys.list = s.sys.list
      ∨ (∃ c name names, s.place c = .linked name ∧ s'.place c = .decided name true names
        ∧ s'.sys.list = s.sys.list ++ [c])
      ∨ ∃ c, s.place c = .releasing ∧ s'.sys.list = s.sys.list.erase c) := by
  have hinv := Inv.of_history h
  refine ⟨hinv.nodup, hinv.unique, ?_, fun c name seen s' hs => hinv.took_true hs,
    fun c name seen s' hs => hinv.took_false hs, fun e s' hs => hs.list⟩
  refine (h.invariant (fun es s => Inv s ∧ ∀ c name res seen, .took c name res seen ∈ es →
    (res = true ↔ strlen name < HW_CLAIM_NAME_MAX ∧
      ∃ names, seen = some names ∧ name.bytes ∉ names))
    (fun s h => ⟨Inv.of_start h, fun c name res seen hmem => by cases hmem⟩) ?_).2
  rintro es s e s' ⟨hinv, hold⟩ hs
  refine ⟨hinv.next hs, fun c name res seen hmem => ?_⟩
  rcases List.mem_cons.mp hmem with rfl | hmem
  · exact hinv.took hs
  · exact hold c name res seen hmem

/-- One driver has the claim, and another has just asked for it. -/
theorem one_driver_at_a_time_refused :
    ∃ (es : List (Event Bool)) (s : State Bool) (name : CString) (seen : List (List UInt8)),
      History Start Step es s ∧ .took true name false (some seen) ∈ es ∧ name.bytes ∈ seen := by
  let s₀ : State Bool := ⟨⟨fun _ => ⟨fun _ => 0, false⟩, []⟩, fun _ => .idle false⟩
  let name : CString := ⟨[117, 97, 114, 116], by decide⟩
  have h₀ : History Start Step [] s₀ := .start ⟨fun _ => rfl, rfl, fun _ => rfl⟩
  have h₁ := ((h₀.next (.copy false name rfl (by decide) (by decide))).next
    (.link false name rfl)).next (.look false name rfl)
  have h₂ := h₁.next (.succeed false name _ rfl)
  have h₃ := ((h₂.next (.copy true name rfl (by decide) (by decide))).next
    (.link true name rfl)).next (.look true name rfl)
  have h₄ := h₃.next (.fail true name _ rfl)
  have hno := (one_driver_at_a_time h₄).2.2.1 true name false _ List.mem_cons_self
  refine ⟨_, _, name, _, h₄, List.mem_cons_self, ?_⟩
  by_contra hmem
  exact absurd (hno.mpr ⟨by decide, _, rfl, hmem⟩) (by decide)

end HwClaim
