import Emu68Common.Claim.Semaphore

/-!
# Claim/Release — a released claim is free again, unless its name was empty

Whole calls, in any order, of any number of drivers, under any names.  A name that is empty looks
like a claim that is not held, so `hw_claim_release` leaves such a claim on the list; and a claim
that is left there can never be taken again, since each further take finds itself.

    Loose s d      d is on the list, and its driver has been told it holds nothing
-/

namespace HwClaim

open Machinery Text

variable {C : Type} {c d : C} {name : CString}

/-! ## Calls -/

/-- The claims, the list, and what each driver has been told. -/
structure Session (C : Type) where
  sys : Sys C
  held : C → Bool

/-- A call of a driver. -/
inductive Call (C : Type) where
  | take (c : C) (name : CString)
  | release (c : C)

/-- Whose claim a call is about. -/
def Call.claim : Call C → C
  | .take c _ | .release c => c

/-- Nothing on the list, every claim zero. -/
structure Fresh (s : Session C) : Prop where
  claims : ∀ c, s.sys.claims c = ⟨fun _ => 0, false⟩
  list : s.sys.list = []
  held : ∀ c, s.held c = false

variable [DecidableEq C]

/-- What a call does. -/
def Session.call (s : Session C) : Call C → Session C
  | .take c name => ⟨(s.sys.take c name).1, Function.update s.held c (s.sys.take c name).2⟩
  | .release c => ⟨s.sys.release c, Function.update s.held c false⟩

/-- **One call**: no driver, whichever it is, takes a claim while it holds it.  `hw_claim_take`
would put a semaphore that is on the list there a second time. -/
inductive Called (s : Session C) : Call C → Session C → Prop where
  | take (c : C) (name : CString) (h : s.held c = false) :
    Called s (.take c name) (s.call (.take c name))
  | release (c : C) : Called s (.release c) (s.call (.release c))

/-! ## What a take does -/

variable {s : Sys C}

/-- The claim before the list is asked. -/
def Sys.linked (s : Sys C) (c : C) (name : CString) : Sys C := (s.copyName c name).linkName c

theorem linked_string (h : strlen name < HW_CLAIM_NAME_MAX) (d : C) :
    (s.linked c name).string d = if d = c then name.bytes else s.string d := by
  rw [Sys.linked, Sys.string_linkName, Sys.string_copyName h]

theorem linked_claims (hd : d ≠ c) : (s.linked c name).claims d = s.claims d := by
  rw [Sys.linked, Sys.linkName, Sys.set_claims_of_ne hd, Sys.copyName, Sys.set_claims_of_ne hd]

theorem linked_lnName : ((s.linked c name).claims c).lnName = true := by
  rw [Sys.linked, Sys.linkName, Sys.set_claims, if_pos rfl]

/-- **A take ends in one of three ways**: the name does not fit, it is free, or it is not. -/
theorem take_cases (s : Sys C) (c : C) (name : CString) :
    (HW_CLAIM_NAME_MAX ≤ strlen name ∧ s.take c name = ((s.copyName c name).clearName c, false))
      ∨ (strlen name < HW_CLAIM_NAME_MAX ∧ ((s.linked c name).claimSection c).2 = true
        ∧ s.take c name = ((s.linked c name).addSemaphore c, true))
      ∨ strlen name < HW_CLAIM_NAME_MAX ∧ ((s.linked c name).claimSection c).2 = false
        ∧ s.take c name = ((s.linked c name).clearName c, false) := by
  rw [Sys.take, strlcpy_snd]
  by_cases hlong : strlen name ≥ HW_CLAIM_NAME_MAX
  · rw [if_pos hlong]
    exact Or.inl ⟨hlong, rfl⟩
  · rw [if_neg hlong]
    refine Or.inr ?_
    have hlen := not_le.mp hlong
    cases hu : ((s.linked c name).claimSection c).2 with
    | true =>
      have hsys : ((s.linked c name).claimSection c).1 = (s.linked c name).addSemaphore c :=
        if_pos hu
      exact Or.inl ⟨hlen, rfl, Prod.ext ((if_pos hu).trans hsys) hu⟩
    | false =>
      have hn := ne_true_of_eq_false hu
      have hsys : ((s.linked c name).claimSection c).1 = s.linked c name := if_neg hn
      exact Or.inr ⟨hlen, rfl, Prod.ext ((if_neg hn).trans (congrArg (·.clearName c) hsys)) hu⟩

/-- **The list has no such name**, and not this claim. -/
theorem linked_free (hlen : strlen name < HW_CLAIM_NAME_MAX)
    (hln : ∀ d ∈ s.list, (s.claims d).lnName = true) :
    ((s.linked c name).claimSection c).2 = true
      ↔ c ∉ s.list ∧ ∀ d ∈ s.list, s.string d ≠ name.bytes := by
  have hln' : ∀ d ∈ s.list, ((s.linked c name).claims d).lnName = true := by
    intro d hd
    by_cases hdc : d = c
    · rw [hdc, linked_lnName]
    · rw [linked_claims hdc, hln d hd]
  refine (Sys.findSemaphore_isNone hln' _).trans ?_
  have hown : (s.linked c name).string c = name.bytes := (linked_string hlen c).trans (if_pos rfl)
  have hother : ∀ d, d ≠ c → (s.linked c name).string d = s.string d := fun d hd =>
    (linked_string hlen d).trans (if_neg hd)
  rw [hown]
  refine ⟨fun h => ?_, fun ⟨hc, h⟩ d hd => ?_⟩
  · have hc : c ∉ s.list := fun hc => h c hc hown
    refine ⟨hc, fun d hd heq => h d hd ?_⟩
    rw [hother d (ne_of_mem_of_not_mem hd hc), heq]
  · rw [hother d (ne_of_mem_of_not_mem hd hc)]
    exact h d hd

/-- **A take is granted** when the name fits, the claim is not on the list, and nothing of that name
is. -/
theorem take_snd (hln : ∀ d ∈ s.list, (s.claims d).lnName = true) :
    (s.take c name).2 = true
      ↔ strlen name < HW_CLAIM_NAME_MAX ∧ c ∉ s.list ∧ ∀ d ∈ s.list, s.string d ≠ name.bytes := by
  rcases take_cases s c name with ⟨hlong, ht⟩ | ⟨hlen, hu, ht⟩ | ⟨hlen, hu, ht⟩ <;> rw [ht]
  · exact iff_of_false Bool.false_ne_true fun h => absurd h.1 (not_lt.mpr hlong)
  · exact iff_of_true rfl ⟨hlen, (linked_free hlen hln).mp hu⟩
  · refine iff_of_false Bool.false_ne_true fun h => ?_
    rw [(linked_free hlen hln).mpr h.2] at hu
    cases hu

/-- Another driver's claim is not touched. -/
theorem take_claims (hd : d ≠ c) : (s.take c name).1.claims d = s.claims d := by
  rcases take_cases s c name with ⟨-, ht⟩ | ⟨-, -, ht⟩ | ⟨-, -, ht⟩ <;> rw [ht]
  · exact (Sys.set_claims_of_ne hd).trans (Sys.set_claims_of_ne hd)
  · exact linked_claims hd
  · exact (Sys.set_claims_of_ne hd).trans (linked_claims hd)

/-- **A take that is granted** puts the claim behind the others, under its name. -/
theorem take_granted (h : (s.take c name).2 = true) :
    (s.take c name).1.list = s.list ++ [c] ∧ (s.take c name).1.string c = name.bytes
      ∧ ((s.take c name).1.claims c).lnName = true := by
  rcases take_cases s c name with ⟨-, ht⟩ | ⟨hlen, -, ht⟩ | ⟨-, -, ht⟩ <;> rw [ht] at h ⊢
  · cases h
  · exact ⟨rfl, (linked_string hlen c).trans (if_pos rfl), linked_lnName⟩
  · cases h

/-- **A take that is refused** leaves the list, and the claim without a name. -/
theorem take_refused (h : (s.take c name).2 = false) :
    (s.take c name).1.list = s.list ∧ (s.take c name).1.string c = []
      ∧ ((s.claims c).lnName = true → ((s.take c name).1.claims c).lnName = true) := by
  rcases take_cases s c name with ⟨-, ht⟩ | ⟨-, -, ht⟩ | ⟨-, -, ht⟩ <;> rw [ht] at h ⊢
  · refine ⟨rfl, by rw [Sys.string_clearName, if_pos rfl], fun hln => ?_⟩
    rw [Sys.clearName, Sys.set_claims, if_pos rfl, Sys.copyName, Sys.set_claims, if_pos rfl]
    exact hln
  · cases h
  · refine ⟨rfl, by rw [Sys.string_clearName, if_pos rfl], fun _ => ?_⟩
    rw [Sys.clearName, Sys.set_claims, if_pos rfl]
    exact linked_lnName

/-- A claim without a name is left alone by `hw_claim_release`. -/
theorem release_of_nil (h : s.string c = []) : s.release c = s := if_pos (Sys.string_eq_nil.mp h)

/-- One with a name goes off the list. -/
theorem release_of_ne (h : s.string c ≠ []) : s.release c = (s.remSemaphore c).clearName c :=
  if_neg fun h0 => h (Sys.string_eq_nil.mpr h0)

/-! ## What holds between calls -/

/-- **The invariant**: a claim off the list has no name, one that is held is on the list, and one
that is on the list without being held has no name either. -/
structure Settled (s : Session C) : Prop where
  nodup : s.sys.list.Nodup
  lnName : ∀ d ∈ s.sys.list, (s.sys.claims d).lnName = true
  unique : ∀ c ∈ s.sys.list, ∀ d ∈ s.sys.list, s.sys.string c = s.sys.string d → c = d
  held : ∀ c, s.held c = true → c ∈ s.sys.list
  nameless : ∀ c, s.held c = false → s.sys.string c = []

namespace Settled

variable {s s' : Session C} {call : Call C}

omit [DecidableEq C] in
theorem of_fresh (h : Fresh s) : Settled s := by
  refine ⟨by rw [h.list]; exact List.nodup_nil, fun d hd => ?_, fun d hd => ?_, fun c hc => ?_,
    fun c _ => Sys.string_eq_nil.mpr (by rw [h.claims])⟩
  · rw [h.list] at hd
    cases hd
  · rw [h.list] at hd
    cases hd
  · rw [h.held] at hc
    cases hc

theorem held_take (name : CString) (d : C) : (s.call (.take c name)).held d =
    if d = c then (s.sys.take c name).2 else s.held d := Function.update_apply s.held c _ d

theorem string_take {d : C} (name : CString) (hd : d ≠ c) :
    (s.sys.take c name).1.string d = s.sys.string d := congrArg Claim.string (take_claims hd)

/-- A claim that is granted is on the list under its name, which no other there has. -/
theorem granted (h : Settled s) {name : CString} (hres : (s.sys.take c name).2 = true) :
    Settled (s.call (.take c name)) := by
  obtain ⟨hlist, hstr, hln⟩ := take_granted hres
  obtain ⟨-, hoff, hfree⟩ := (take_snd h.lnName).mp hres
  have hmem : ∀ d, d ∈ (s.sys.take c name).1.list ↔ d ∈ s.sys.list ∨ d = c := fun d => by
    rw [hlist, List.mem_append, List.mem_singleton]
  have hne : ∀ d ∈ s.sys.list, d ≠ c := fun d hd => ne_of_mem_of_not_mem hd hoff
  refine ⟨?_, fun d hd => ?_, fun d hd d' hd' heq => ?_, fun d hd => ?_, fun d hd => ?_⟩
  · change (s.sys.take c name).1.list.Nodup
    rw [hlist]
    exact h.nodup.append (List.nodup_singleton c)
      fun d hd hd' => hoff (List.mem_singleton.mp hd' ▸ hd)
  · change ((s.sys.take c name).1.claims d).lnName = true
    rcases (hmem d).mp hd with hd | rfl
    · rw [take_claims (hne d hd)]
      exact h.lnName d hd
    · exact hln
  · change (s.sys.take c name).1.string d = (s.sys.take c name).1.string d' at heq
    rcases (hmem d).mp hd with hd₁ | hdc <;> rcases (hmem d').mp hd' with hd₂ | hdc'
    · rw [string_take name (hne d hd₁), string_take name (hne d' hd₂)] at heq
      exact h.unique d hd₁ d' hd₂ heq
    · rw [string_take name (hne d hd₁), hdc', hstr] at heq
      exact absurd heq (hfree d hd₁)
    · rw [string_take name (hne d' hd₂), hdc, hstr] at heq
      exact absurd heq.symm (hfree d' hd₂)
    · rw [hdc, hdc']
  · refine (hmem d).mpr ?_
    by_cases hdc : d = c
    · exact Or.inr hdc
    · rw [held_take, if_neg hdc] at hd
      exact Or.inl (h.held d hd)
  · have hdc : d ≠ c := by
      rintro rfl
      rw [held_take, if_pos rfl, hres] at hd
      cases hd
    rw [held_take, if_neg hdc] at hd
    exact (string_take name hdc).trans (h.nameless d hd)

/-- A claim that is refused leaves everything as it was. -/
theorem refused (h : Settled s) {name : CString} (hc : s.held c = false)
    (hres : (s.sys.take c name).2 = false) : Settled (s.call (.take c name)) := by
  have hnil := h.nameless c hc
  obtain ⟨hlist, hstr, hln⟩ := take_refused hres
  have hall : ∀ d, (s.sys.take c name).1.string d = s.sys.string d := by
    intro d
    by_cases hdc : d = c
    · rw [hdc, hstr, hnil]
    · exact string_take name hdc
  refine ⟨?_, fun d hd => ?_, fun d hd d' hd' heq => ?_, fun d hd => ?_, fun d hd => ?_⟩
  · change (s.sys.take c name).1.list.Nodup
    rw [hlist]
    exact h.nodup
  · change ((s.sys.take c name).1.claims d).lnName = true
    change d ∈ (s.sys.take c name).1.list at hd
    rw [hlist] at hd
    by_cases hdc : d = c
    · rw [hdc] at hd ⊢
      exact hln (h.lnName c hd)
    · rw [take_claims hdc]
      exact h.lnName d hd
  · change d ∈ (s.sys.take c name).1.list at hd
    change d' ∈ (s.sys.take c name).1.list at hd'
    rw [hlist] at hd hd'
    exact h.unique d hd d' hd' ((hall d).symm.trans (heq.trans (hall d')))
  · change d ∈ (s.sys.take c name).1.list
    rw [hlist]
    rw [held_take] at hd
    split at hd
    · rw [hres] at hd
      cases hd
    · exact h.held d hd
  · refine (hall d).trans ?_
    rw [held_take] at hd
    split at hd
    · rename_i hdc
      rw [hdc]
      exact hnil
    · exact h.nameless d hd

/-- **A take keeps it.** -/
theorem take (h : Settled s) (hc : s.held c = false) (name : CString) :
    Settled (s.call (.take c name)) := by
  cases hres : (s.sys.take c name).2 with
  | true => exact h.granted hres
  | false => exact h.refused hc hres

/-- **A release keeps it.** -/
theorem release (h : Settled s) (c : C) : Settled (s.call (.release c)) := by
  have hheld : ∀ d, (s.call (.release c)).held d = if d = c then false else s.held d :=
    Function.update_apply s.held c _
  by_cases hnil : s.sys.string c = []
  · have hsys : (s.call (.release c)).sys = s.sys := release_of_nil hnil
    refine ⟨by rw [hsys]; exact h.nodup, by rw [hsys]; exact h.lnName, by rw [hsys]; exact h.unique,
      fun d hd => ?_, fun d hd => ?_⟩
    · rw [hsys]
      rw [hheld] at hd
      split at hd
      · cases hd
      · exact h.held d hd
    · rw [hsys]
      rw [hheld] at hd
      split at hd
      · rename_i hdc
        rw [hdc]
        exact hnil
      · exact h.nameless d hd
  · have hsys : (s.call (.release c)).sys = (s.sys.remSemaphore c).clearName c := release_of_ne hnil
    have hstring : ∀ d, d ≠ c → ((s.sys.remSemaphore c).clearName c).string d = s.sys.string d :=
      fun d hd => by rw [Sys.string_clearName, if_neg hd]; rfl
    have hmem : ∀ d, d ∈ ((s.sys.remSemaphore c).clearName c).list ↔ d ≠ c ∧ d ∈ s.sys.list :=
      fun d => h.nodup.mem_erase_iff
    refine ⟨by rw [hsys]; exact h.nodup.erase c, fun d hd => ?_, fun d hd d' hd' heq => ?_,
      fun d hd => ?_, fun d hd => ?_⟩
    · rw [hsys] at hd ⊢
      obtain ⟨hdc, hd⟩ := (hmem d).mp hd
      rw [Sys.clearName, Sys.set_claims_of_ne hdc]
      exact h.lnName d hd
    · rw [hsys] at hd hd' heq
      obtain ⟨hdc, hd⟩ := (hmem d).mp hd
      obtain ⟨hdc', hd'⟩ := (hmem d').mp hd'
      rw [hstring d hdc, hstring d' hdc'] at heq
      exact h.unique d hd d' hd' heq
    · rw [hheld] at hd
      split at hd
      · cases hd
      · rename_i hdc
        rw [hsys]
        exact (hmem d).mpr ⟨hdc, h.held d hd⟩
    · rw [hsys]
      by_cases hdc : d = c
      · rw [hdc, Sys.string_clearName, if_pos rfl]
      · rw [hheld, if_neg hdc] at hd
        rw [hstring d hdc]
        exact h.nameless d hd

theorem next (h : Settled s) (hs : Called s call s') : Settled s' := by
  cases hs with
  | take c name hc => exact h.take hc name
  | release c => exact h.release c

theorem of_history {es : List (Call C)} (h : History Fresh Called es s) : Settled s :=
  h.invariant (fun _ s => Settled s) (fun _ h => of_fresh h) fun _ _ _ _ h hs => h.next hs

/-- **With no empty name about, whatever is on the list is held.** -/
theorem held_of_named {es : List (Call C)}
    (h : History Fresh (Restrict (fun _ call => ∀ c name, call = .take c name → name.bytes ≠ [])
      Called) es s) : ∀ d ∈ s.sys.list, s.held d = true ∧ s.sys.string d ≠ [] := by
  refine (h.invariant (fun _ s => Settled s ∧ ∀ d ∈ s.sys.list, s.held d = true
    ∧ s.sys.string d ≠ []) (fun s h => ⟨of_fresh h, fun d hd => ?_⟩) ?_).2
  · rw [h.list] at hd
    cases hd
  rintro - s call s' ⟨hset, hheld⟩ ⟨hnamed, hs⟩
  refine ⟨hset.next hs, fun d hd => ?_⟩
  cases hs with
  | take c name hc =>
    change Function.update s.held c _ d = true ∧ (s.sys.take c name).1.string d ≠ []
    rw [Function.update_apply]
    have hoff : c ∉ s.sys.list := fun hmem => by
      cases hc.symm.trans (hheld c hmem).1
    change d ∈ (s.sys.take c name).1.list at hd
    cases hres : (s.sys.take c name).2 with
    | true =>
      obtain ⟨hlist, hstr, -⟩ := take_granted hres
      by_cases hdc : d = c
      · rw [hdc, if_pos rfl, hstr]
        exact ⟨rfl, hnamed c name rfl⟩
      · rw [hlist, List.mem_append, List.mem_singleton, or_iff_left hdc] at hd
        rw [if_neg hdc, Sys.string, take_claims hdc]
        exact hheld d hd
    | false =>
      rw [(take_refused hres).1] at hd
      have hdc := ne_of_mem_of_not_mem hd hoff
      rw [if_neg hdc, Sys.string, take_claims hdc]
      exact hheld d hd
  | release c =>
    change d ∈ (s.sys.release c).list at hd
    change Function.update s.held c false d = true ∧ (s.sys.release c).string d ≠ []
    by_cases hnil : s.sys.string c = []
    · rw [release_of_nil hnil] at hd ⊢
      have hdc : d ≠ c := by
        rintro rfl
        exact (hheld d hd).2 hnil
      rw [Function.update_of_ne hdc]
      exact hheld d hd
    · rw [release_of_ne hnil] at hd ⊢
      obtain ⟨hdc, hd⟩ := hset.nodup.mem_erase_iff.mp hd
      rw [Function.update_of_ne hdc, Sys.string_clearName, if_neg hdc]
      exact hheld d hd

end Settled

/-! ## The lines of a call, with nobody in between -/

omit [DecidableEq C] in
theorem go_place [DecidableEq C] (s : State C) (c : C) (p : Place) (sys : Sys C) :
    (s.go c p sys).place c = p := Function.update_self ..

/-- **A take that nobody interrupts** is the whole call. -/
theorem take_alone {s : State C} (hp : s.place c = .idle false) (hn : name.bytes ≠ []) :
    ∃ es s' seen, History (· = s) Step es s'
      ∧ .took c name (s.sys.take c name).2 seen ∈ es ∧ s'.sys = (s.sys.take c name).1 := by
  have h₀ : History (· = s) Step [] s := .start rfl
  rcases take_cases s.sys c name with ⟨hlong, ht⟩ | ⟨hlen, hu, ht⟩ | ⟨hlen, hu, ht⟩ <;> rw [ht]
  · have h := h₀.next (.copyTooLong c name hp hn (by rwa [strlcpy_snd]))
    exact ⟨_, _, none, h.next (.refuse c name (go_place ..)), List.mem_cons_self, rfl⟩
  all_goals
    have h := ((h₀.next
      (.copy c name hp hn (by rw [strlcpy_snd]; exact not_le.mpr hlen))).next
      (.link c name (go_place ..))).next (.look c name (go_place ..))
  · have hsys : ((s.sys.linked c name).claimSection c).1 = (s.sys.linked c name).addSemaphore c :=
      if_pos hu
    exact ⟨_, _, _, h.next
      (.succeed c name _ (by rw [go_place]; exact congrArg (Place.decided _ · _) hu)),
      List.mem_cons_self, hsys⟩
  · have hsys : ((s.sys.linked c name).claimSection c).1 = s.sys.linked c name :=
      if_neg (ne_true_of_eq_false hu)
    exact ⟨_, _, _, h.next
      (.fail c name _ (by rw [go_place]; exact congrArg (Place.decided _ · _) hu)),
      List.mem_cons_self, congrArg (·.clearName c) hsys⟩

/-- **A release that nobody interrupts** is the whole call. -/
theorem release_alone {s : State C} {held : Bool} (hp : s.place c = .idle held) :
    ∃ es s', History (· = s) Step es s' ∧ .released c ∈ es ∧ s'.sys = s.sys.release c := by
  have h₀ : History (· = s) Step [] s := .start rfl
  by_cases h0 : (s.sys.claims c).hcName 0 = 0
  · refine ⟨_, _, h₀.next (.releaseNone c held hp h0), List.mem_cons_self, ?_⟩
    exact (if_pos h0).symm
  · have h := (h₀.next (.release c held hp h0)).next (.remove c (go_place ..))
    refine ⟨_, _, h.next (.clear c (go_place ..)), List.mem_cons_self, ?_⟩
    exact (if_neg h0).symm

/-! ## Free again -/

/-- Whatever the others do, a claim that is held stays on the list under its name. -/
theorem held_through {s₁ s₂ : Session C} {es : List (Call C)} (hset : Settled s₁)
    (h : History (· = s₁) (Restrict (fun _ call => call.claim ≠ c) Called) es s₂) :
    Settled s₂ ∧ s₂.held c = s₁.held c ∧ s₂.sys.string c = s₁.sys.string c := by
  refine h.invariant (fun _ s => Settled s ∧ s.held c = s₁.held c
    ∧ s.sys.string c = s₁.sys.string c) (fun s hs => by rw [hs]; exact ⟨hset, rfl, rfl⟩) ?_
  rintro - s call s' ⟨hset, hheld, hstr⟩ ⟨hne, hs⟩
  refine ⟨hset.next hs, ?_⟩
  cases hs with
  | take d name hd =>
    refine ⟨(Function.update_of_ne hne.symm _ _).trans hheld, ?_⟩
    exact (congrArg Claim.string (take_claims hne.symm)).trans hstr
  | release d =>
    refine ⟨(Function.update_of_ne hne.symm _ _).trans hheld, ?_⟩
    change (s.sys.release d).string c = _
    have hcd : c ≠ d := hne.symm
    by_cases hnil : s.sys.string d = []
    · rw [release_of_nil hnil, hstr]
    · rw [release_of_ne hnil, Sys.string_clearName, if_neg hcd]
      exact hstr

/-- **A released claim is free again, exactly when its name was not empty** and no claim was left on
the list by such a release before: it is off the list, and the next driver that is told it holds
nothing is granted the name. -/
theorem released_is_free_iff {s s₂ : Session C} {es es' : List (Call C)}
    (h : History Fresh Called es s) (hc : s.held c = false)
    (htake : (s.sys.take c name).2 = true)
    (hbetween : History (· = s.call (.take c name)) (Restrict (fun _ call => call.claim ≠ c) Called)
      es' s₂) :
    (c ∉ (s₂.sys.release c).list
        ∧ ∀ d, d ≠ c → s₂.held d = false → ((s₂.sys.release c).take d name).2 = true)
      ↔ name.bytes ≠ [] ∧ ∀ d ∈ s₂.sys.list, s₂.held d = true := by
  have hset₁ := (Settled.of_history h).take hc name
  obtain ⟨-, hstr₁, -⟩ := take_granted htake
  obtain ⟨hlen, -⟩ := (take_snd (Settled.of_history h).lnName).mp htake
  obtain ⟨hset, hheld, hstr⟩ := held_through hset₁ hbetween
  have hheld : s₂.held c = true := by
    rw [hheld]
    exact (Function.update_self ..).trans htake
  have hstr : s₂.sys.string c = name.bytes := hstr.trans hstr₁
  have hmem := hset.held c hheld
  by_cases hnil : name.bytes = []
  · rw [release_of_nil (hstr.trans hnil)]
    exact iff_of_false (fun hfree => hfree.1 hmem) fun hn => hn.1 hnil
  · have hrel : s₂.sys.release c = (s₂.sys.remSemaphore c).clearName c :=
      release_of_ne (by rwa [hstr])
    have hset' : ∀ d ∈ (s₂.sys.release c).list, ((s₂.sys.release c).claims d).lnName = true :=
      (hset.release c).lnName
    rw [hrel] at hset' ⊢
    have hin : ∀ d, d ∈ ((s₂.sys.remSemaphore c).clearName c).list ↔ d ≠ c ∧ d ∈ s₂.sys.list :=
      fun d => hset.nodup.mem_erase_iff
    have hfree : ∀ d ∈ ((s₂.sys.remSemaphore c).clearName c).list,
        ((s₂.sys.remSemaphore c).clearName c).string d ≠ name.bytes := by
      intro d hd heq
      obtain ⟨hdc, hd⟩ := (hin d).mp hd
      rw [Sys.string_clearName, if_neg hdc] at heq
      exact hdc (hset.unique d hd c hmem (heq.trans hstr.symm))
    refine ⟨fun hgranted => ⟨hnil, fun d hd => ?_⟩, fun hn => ⟨fun hd => ?_, fun d hdc hd => ?_⟩⟩
    · -- a claim left on the list finds itself
      refine (Bool.eq_false_or_eq_true _).resolve_right fun hd' => ?_
      have hdc : d ≠ c := by
        rintro rfl
        cases hheld.symm.trans hd'
      exact ((take_snd hset').mp (hgranted.2 d hdc hd')).2.1 ((hin d).mpr ⟨hdc, hd⟩)
    · exact ((hin c).mp hd).1 rfl
    · refine (take_snd hset').mpr ⟨hlen, fun hmem' => ?_, hfree⟩
      cases hd.symm.trans (hn.2 d ((hin d).mp hmem').2)

/-- Two drivers after one name: the first lets go of it, and the second has it. -/
theorem released_is_free_iff_uart :
    ∃ s : Session Bool, (s.sys.take false ⟨[117], by decide⟩).2 = true
      ∧ (((s.call (.take false ⟨[117], by decide⟩)).sys.release false).take true
        ⟨[117], by decide⟩).2 = true :=
  let s : Session Bool := ⟨⟨fun _ => ⟨fun _ => 0, false⟩, []⟩, fun _ => false⟩
  ⟨s, by decide, ((released_is_free_iff (c := false)
    (.start (⟨fun _ => rfl, rfl, fun _ => rfl⟩ : Fresh s)) rfl
    (by decide : (s.sys.take false ⟨[117], _⟩).2 = true) (.start rfl)).mpr
    ⟨by decide, by decide⟩).2 true (by decide) (by decide)⟩

/-- **The empty name is taken and never let go.** -/
theorem empty_name_stays :
    let s : Session Bool := ⟨⟨fun _ => ⟨fun _ => 0, false⟩, []⟩, fun _ => false⟩
    let name : CString := ⟨[], by decide⟩
    Fresh s ∧ (s.sys.take false name).2 = true
      ∧ false ∈ ((s.sys.take false name).1.release false).list
      ∧ (((s.sys.take false name).1.release false).take true name).2 = false :=
  ⟨⟨fun _ => rfl, rfl, fun _ => rfl⟩, by decide, by decide, by decide⟩

end HwClaim
