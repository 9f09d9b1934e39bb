import Emu68Common.Cache.Protocol

/-!
# Cache/Coherent — behind the protocol the cache cannot be seen

What holds of a line depends on where its buffer is (`LineOk`): while it is the processor's, clean
lines say what memory says; from the upkeep before a transfer to the one after it, nothing of it is
in the cache alone, and memory has what is promised.  Every step keeps this of every line (`step`),
so every byte that is read is right, whatever the cache does and whichever way the steps of the
drivers and devices fall (`transfers_coherent`).
-/

namespace Cache

open Machinery Dma Line

variable {ι : Type*} {buf : ι → Range}

/-! ## One line -/

/-- No upkeep of the line is due. -/
def Quiet (due : List (Upkeep × ℕ)) (l : ℕ) : Prop := ∀ u, (u, l) ∉ due

/-- **What holds of a line**, by where its buffer is. -/
def LineOk (p : Phase) (due : List (Upkeep × ℕ)) (l : ℕ) (m : Line ℕ UInt8)
    (val : ℕ → Option UInt8) : Prop :=
  match p with
  | .cpu => m.Settled ∧ Quiet due l ∧ Says val m.see
  | .asked d =>
    m.Settled ∧ (∀ u, (u, l) ∈ due → u = d.upkeep) ∧ ((d.upkeep, l) ∉ due → m.Flushed) ∧
      Says val m.see ∧ (d = .fromDevice → ∀ o, val o = none)
  | .ready d | .armed d => m.Flushed ∧ Quiet due l ∧ Says val m.ram ∧ (d = .toDevice → m.Settled)
  | .done => m.Flushed ∧ Quiet due l ∧ Says val m.ram
  | .dropping =>
    m.Flushed ∧ (∀ u, (u, l) ∈ due → u = .inv) ∧ ((.inv, l) ∉ due → m.Settled) ∧ Says val m.ram

namespace LineOk

variable {p : Phase} {due due' : List (Upkeep × ℕ)} {l : ℕ} {m : Line ℕ UInt8}
  {val : ℕ → Option UInt8}

/-- Only the upkeep that is due of the line itself matters. -/
theorem of_due (h : LineOk p due l m val) (hdue : ∀ u, (u, l) ∈ due' ↔ (u, l) ∈ due) :
    LineOk p due' l m val := by
  cases p with
  | cpu => exact ⟨h.1, fun u hu => h.2.1 u ((hdue u).mp hu), h.2.2⟩
  | asked d =>
    exact ⟨h.1, fun u hu => h.2.1 u ((hdue u).mp hu), fun hu => h.2.2.1 (mt (hdue _).mpr hu),
      h.2.2.2⟩
  | ready d => exact ⟨h.1, fun u hu => h.2.1 u ((hdue u).mp hu), h.2.2⟩
  | armed d => exact ⟨h.1, fun u hu => h.2.1 u ((hdue u).mp hu), h.2.2⟩
  | done => exact ⟨h.1, fun u hu => h.2.1 u ((hdue u).mp hu), h.2.2⟩
  | dropping =>
    exact ⟨h.1, fun u hu => h.2.1 u ((hdue u).mp hu), fun hu => h.2.2.1 (mt (hdue _).mpr hu),
      h.2.2.2⟩

/-- **What keeps a line settled and flushed, what the processor sees of a settled line and what
memory has of a flushed one, keeps the line in order.** -/
theorem of_keeps (h : LineOk p due l m val) {n : Line ℕ UInt8} (hs : m.Settled → n.Settled)
    (hf : m.Flushed → n.Flushed) (hsee : m.Settled → n.see = m.see)
    (hram : m.Flushed → n.ram = m.ram) : LineOk p due l n val := by
  cases p with
  | cpu => exact ⟨hs h.1, h.2.1, hsee h.1 ▸ h.2.2⟩
  | asked d =>
    exact ⟨hs h.1, h.2.1, fun hu => hf (h.2.2.1 hu), hsee h.1 ▸ h.2.2.2.1, h.2.2.2.2⟩
  | ready d => exact ⟨hf h.1, h.2.1, hram h.1 ▸ h.2.2.1, fun hd => hs (h.2.2.2 hd)⟩
  | armed d => exact ⟨hf h.1, h.2.1, hram h.1 ▸ h.2.2.1, fun hd => hs (h.2.2.2 hd)⟩
  | done => exact ⟨hf h.1, h.2.1, hram h.1 ▸ h.2.2⟩
  | dropping => exact ⟨hf h.1, h.2.1, fun hu => hs (h.2.2.1 hu), hram h.1 ▸ h.2.2.2⟩

theorem fill (h : LineOk p due l m val) : LineOk p due l m.fill val :=
  h.of_keeps Settled.fill Flushed.fill (fun _ => see_fill m) fun _ => ram_fill m

theorem writeBack (h : LineOk p due l m val) : LineOk p due l m.writeBack val :=
  h.of_keeps Settled.writeBack (fun _ => flushed_writeBack m)
    (fun _ => see_writeBack m) ram_writeBack

theorem evict (h : LineOk p due l m val) : LineOk p due l m.evict val :=
  h.of_keeps (fun _ => settled_evict m) (fun _ => flushed_drop _) see_evict ram_evict

/-- **Upkeep that was due has happened.** -/
theorem happens (h : LineOk p due l m val) {u : Upkeep} (hu : (u, l) ∈ due) :
    LineOk p (due.erase (u, l)) l (m.upkeep u) val := by
  have hsub : ∀ w, (w, l) ∈ due.erase (u, l) → (w, l) ∈ due := fun w => List.mem_of_mem_erase
  cases p with
  | cpu => exact absurd hu (h.2.1 u)
  | asked d =>
    obtain ⟨hs, hdue, -, hval, hnone⟩ := h
    obtain rfl := hdue u hu
    refine ⟨hs.upkeep _, fun w hw => hdue w (hsub w hw), fun _ => flushed_upkeep m _, ?_, hnone⟩
    by_cases hd : d = .fromDevice
    · intro o x hx
      exact absurd (hnone hd o ▸ hx) (Option.some_ne_none x).symm
    · have hinv : d.upkeep ≠ .inv := by
        cases d with
        | toDevice => exact Upkeep.noConfusion
        | fromDevice => exact absurd rfl hd
        | bidirectional => exact Upkeep.noConfusion
      exact see_upkeep hs hinv ▸ hval
  | ready d => exact absurd hu (h.2.1 u)
  | armed d => exact absurd hu (h.2.1 u)
  | done => exact absurd hu (h.2.1 u)
  | dropping =>
    obtain ⟨hf, hdue, -, hval⟩ := h
    obtain rfl := hdue u hu
    exact ⟨flushed_drop m, fun w hw => hdue w (hsub w hw), fun _ => settled_drop m, hval⟩

/-- The processor stores a byte. -/
theorem store (h : LineOk .cpu due l m val) (o : ℕ) (v : UInt8) :
    LineOk .cpu due l (m.store o v) (Function.update val o (some v)) :=
  ⟨settled_store m o v, h.2.1, see_store m o v ▸ h.2.2.update o v⟩

/-- A device writes a byte. -/
theorem land {d : Direction} (h : LineOk (.armed d) due l m val) (hd : d ≠ .toDevice) (o : ℕ)
    (v : UInt8) : LineOk (.armed d) due l (m.land o v) (Function.update val o (some v)) :=
  ⟨h.1, h.2.1, h.2.2.1.update o v, fun hto => absurd hto hd⟩

/-- **The upkeep before a transfer is asked for.** -/
theorem pre (h : LineOk .cpu due l m val) (d : Direction)
    (hdue : ∀ u, (u, l) ∈ due' ↔ u = d.upkeep) :
    LineOk (.asked d) due' l m fun o => if d = .fromDevice then none else val o := by
  refine ⟨h.1, fun u hu => (hdue u).mp hu, fun hu => absurd ((hdue _).mpr rfl) hu, fun o x hx => ?_,
    fun hd _ => if_pos hd⟩
  split at hx
  · exact absurd hx.symm (Option.some_ne_none x)
  · exact h.2.2 o x hx

/-- **The upkeep after a transfer is asked for.** -/
theorem post (h : LineOk .done due l m val) (hdue : ∀ u, (u, l) ∈ due' ↔ u = .inv) :
    LineOk .dropping due' l m val :=
  ⟨h.1, fun u hu => (hdue u).mp hu, fun hu => absurd ((hdue _).mpr rfl) hu, h.2.2⟩

/-- **A barrier is through**: upkeep that was asked for has happened. -/
theorem synced (h : LineOk p [] l m val) : LineOk p.synced [] l m val := by
  cases p with
  | asked d =>
    obtain ⟨hs, -, hf, hval, -⟩ := h
    have hf := hf List.not_mem_nil
    exact ⟨hf, fun _ => List.not_mem_nil, see_of_settled hs hf ▸ hval, fun _ => hs⟩
  | dropping =>
    obtain ⟨hf, -, hs, hval⟩ := h
    have hs := hs List.not_mem_nil
    exact ⟨hs, fun _ => List.not_mem_nil, (see_of_settled hs hf).symm ▸ hval⟩
  | _ => exact h

theorem arm (h : LineOk p due l m val) : LineOk p.arm due l m val := by
  cases p with
  | _ => exact h

theorem complete (h : LineOk p due l m val) : LineOk p.complete due l m val := by
  cases p with
  | armed d =>
    obtain ⟨hf, hq, hval, hs⟩ := h
    cases d with
    | toDevice => exact ⟨hs rfl, hq, (see_of_settled (hs rfl) hf).symm ▸ hval⟩
    | fromDevice => exact ⟨hf, hq, hval⟩
    | bidirectional => exact ⟨hf, hq, hval⟩
  | _ => exact h

/-- What the processor may read is what is promised. -/
theorem see (h : LineOk p due l m val) (hp : p.Readable) : Says val m.see := by
  rcases hp with rfl | rfl | rfl | rfl
  · exact h.2.2
  · exact h.2.2.2.1
  · exact (see_of_settled (h.2.2.2 rfl) h.1).symm ▸ h.2.2.1
  · exact (see_of_settled (h.2.2.2 rfl) h.1).symm ▸ h.2.2.1

end LineOk

/-! ## Every line -/

/-- What is promised of a line's bytes. -/
def onLine (val : ℕ → Option UInt8) (l o : ℕ) : Option UInt8 :=
  if o < DMA_ALIGN_MIN then val (DMA_ALIGN_MIN * l + o) else none

theorem onLine_addr (val : ℕ → Option UInt8) (a : ℕ) :
    onLine val (a / DMA_ALIGN_MIN) (a % DMA_ALIGN_MIN) = val a := by
  rw [onLine, if_pos (Nat.mod_lt _ (by decide)), Nat.div_add_mod]

/-- One byte more is promised, in its line and nowhere else. -/
theorem onLine_update (val : ℕ → Option UInt8) (a : ℕ) (v : UInt8) (l : ℕ) :
    onLine (Function.update val a (some v)) l =
      if l = a / DMA_ALIGN_MIN then Function.update (onLine val l) (a % DMA_ALIGN_MIN) (some v)
      else onLine val l := by
  have hmod : a % DMA_ALIGN_MIN < DMA_ALIGN_MIN := Nat.mod_lt _ (by decide)
  have hdiv := Nat.div_add_mod a DMA_ALIGN_MIN
  funext o
  split
  · next hl =>
    rw [Function.update_apply, onLine]
    by_cases ho : o = a % DMA_ALIGN_MIN
    · rw [if_pos (ho ▸ hmod), if_pos ho, hl, ho, hdiv, Function.update_self]
    · have hne : DMA_ALIGN_MIN * l + o ≠ a := fun h => ho (by rw [hl] at h; omega)
      rw [if_neg ho, onLine, Function.update_of_ne hne]
  · next hl =>
    rw [onLine, onLine]
    split
    · next ho =>
      have hne : DMA_ALIGN_MIN * l + o ≠ a := by
        rintro rfl
        rw [Nat.mul_add_div (by decide), Nat.div_eq_of_lt ho, Nat.add_zero] at hl
        exact hl rfl
      rw [Function.update_of_ne hne]
    · rfl

variable (buf) in
/-- **Where a line is**: with its buffer, or the processor's when it is in none. -/
def At (f : Ledger ι) (l : ℕ) (p : Phase) : Prop :=
  (∃ i, l ∈ (buf i).lines ∧ f.phase i = p) ∨ ((∀ i, l ∉ (buf i).lines) ∧ p = .cpu)

variable (buf) in
/-- **All lines are in order.** -/
def InOrder (s : Sys ι) : Prop :=
  ∀ l p, At buf s.ledger l p → LineOk p s.cpu.due l (s.cpu.lines l) (onLine s.ledger.val l)

section Moves

variable {f : Ledger ι} {i : ι} {l : ℕ} {p q : Phase}

/-- Where a line is that may be touched. -/
theorem At.of_forall {P : Phase → Prop} (h : At buf f l p) (hcpu : P .cpu)
    (hall : ∀ i, l ∈ (buf i).lines → P (f.phase i)) : P p := by
  rcases h with ⟨i, hl, rfl⟩ | ⟨-, rfl⟩
  · exact hall i hl
  · exact hcpu

/-- One buffer moved, and its lines with it. -/
theorem At.of_update [DecidableEq ι] (hap : Apart buf) {val : ℕ → Option UInt8}
    (h : At buf ⟨Function.update f.phase i q, val⟩ l p) :
    (l ∈ (buf i).lines ∧ p = q ∧ At buf f l (f.phase i)) ∨ (l ∉ (buf i).lines ∧ At buf f l p) := by
  by_cases hl : l ∈ (buf i).lines
  · refine .inl ⟨hl, ?_, .inl ⟨i, hl, rfl⟩⟩
    rcases h with ⟨j, hj, rfl⟩ | ⟨hno, -⟩
    · obtain rfl := hap i j l hl hj
      exact Function.update_self _ _ _
    · exact absurd hl (hno i)
  · refine .inr ⟨hl, ?_⟩
    rcases h with ⟨j, hj, rfl⟩ | ⟨hno, hp⟩
    · have hne : j ≠ i := fun heq => hl (heq ▸ hj)
      exact .inl ⟨j, hj, (Function.update_of_ne hne _ _).symm⟩
    · exact .inr ⟨hno, hp⟩

/-- All buffers moved. -/
theorem At.of_map {g : Phase → Phase} (hg : g .cpu = .cpu) {val : ℕ → Option UInt8}
    (h : At buf ⟨fun i => g (f.phase i), val⟩ l p) : ∃ q, At buf f l q ∧ p = g q := by
  rcases h with ⟨i, hl, rfl⟩ | ⟨hno, rfl⟩
  · exact ⟨_, .inl ⟨i, hl, rfl⟩, rfl⟩
  · exact ⟨.cpu, .inr ⟨hno, rfl⟩, hg.symm⟩

end Moves

/-! ## Every step -/

/-- What is asked for of a buffer's lines is due of these, and of no others. -/
theorem mem_asked {due : List (Upkeep × ℕ)} {ls : List ℕ} {u w : Upkeep} {l : ℕ} :
    (w, l) ∈ due ++ ls.map (fun l => (u, l)) ↔ (w, l) ∈ due ∨ (w = u ∧ l ∈ ls) := by
  rw [List.mem_append, List.mem_map]
  refine or_congr_right ⟨fun ⟨x, hx, heq⟩ => ?_, fun ⟨hw, hl⟩ => ⟨l, hl, hw ▸ rfl⟩⟩
  obtain ⟨rfl, rfl⟩ := Prod.mk.inj heq
  exact ⟨rfl, hx⟩

theorem mem_asked_of_quiet {due : List (Upkeep × ℕ)} {ls : List ℕ} {u w : Upkeep} {l : ℕ}
    (hq : Quiet due l) (hl : l ∈ ls) : (w, l) ∈ due ++ ls.map (fun l => (u, l)) ↔ w = u :=
  mem_asked.trans ⟨fun h => (h.resolve_left (hq w)).1, fun h => .inr ⟨h, hl⟩⟩

theorem mem_asked_of_not_mem {due : List (Upkeep × ℕ)} {ls : List ℕ} {u w : Upkeep} {l : ℕ}
    (hl : l ∉ ls) : (w, l) ∈ due ++ ls.map (fun l => (u, l)) ↔ (w, l) ∈ due :=
  mem_asked.trans (or_iff_left fun h => hl h.2)

namespace InOrder

variable {s : Sys ι} {c : Cpu ℕ ℕ UInt8}

/-- **The cache did something, or upkeep has happened.** -/
theorem own (h : InOrder buf s) (hs : s.cpu.Step none c) : InOrder buf ⟨c, s.ledger⟩ := by
  intro l p hat
  have hl := h l p hat
  cases hs with
  | fill l' =>
    rw [Cpu.lines_setLine]
    split
    · next heq => exact heq ▸ hl.fill
    · exact hl
  | writeBack l' =>
    rw [Cpu.lines_setLine]
    split
    · next heq => exact heq ▸ hl.writeBack
    · exact hl
  | evict l' =>
    rw [Cpu.lines_setLine]
    split
    · next heq => exact heq ▸ hl.evict
    · exact hl
  | @happens u l' hdue =>
    change LineOk p (s.cpu.due.erase (u, l')) l ((s.cpu.setLine l' _).lines l) _
    rw [Cpu.lines_setLine]
    split
    · next heq =>
      subst heq
      exact hl.happens hdue
    · next hne => exact hl.of_due fun w => Cpu.mem_erase_due hne

/-- A byte is written, in a line that is where it may be. -/
theorem write (h : InOrder buf s) {a : ℕ} {v : UInt8} {m : Line ℕ UInt8}
    (hw : ∀ p, At buf s.ledger (a / DMA_ALIGN_MIN) p →
      LineOk p s.cpu.due (a / DMA_ALIGN_MIN) m
        (Function.update (onLine s.ledger.val (a / DMA_ALIGN_MIN)) (a % DMA_ALIGN_MIN) (some v))) :
    InOrder buf ⟨s.cpu.setLine (a / DMA_ALIGN_MIN) m,
      { s.ledger with val := Function.update s.ledger.val a (some v) }⟩ := by
  intro l p hat
  change At buf s.ledger l p at hat
  rw [Cpu.lines_setLine, onLine_update]
  split
  · next heq =>
    subst heq
    exact hw p hat
  · exact h l p hat

/-- All lines start in order. -/
theorem start (h : Start s) : InOrder buf s := by
  intro l p hat
  obtain rfl : p = .cpu := hat.of_forall (P := (· = .cpu)) rfl fun i _ => h.cpu i
  refine ⟨h.settled l, fun u => h.due ▸ List.not_mem_nil, fun o x hx => ?_⟩
  rw [onLine] at hx
  split at hx
  · next ho =>
    have := h.known _ x hx
    rwa [Nat.mul_add_div (by decide), Nat.div_eq_of_lt ho, Nat.add_zero, Nat.mul_add_mod,
      Nat.mod_eq_of_lt ho] at this
  · exact absurd hx.symm (Option.some_ne_none x)

variable [DecidableEq ι]

/-- **What a driver asks for before a transfer.** -/
theorem pre (hap : Apart buf) (h : InOrder buf s) {i : ι} {flags : ℕ} {wait : Bool}
    (hp : s.ledger.phase i = .cpu) :
    InOrder buf ⟨{ s.cpu with
      due := s.cpu.due ++ (buf i).lines.map fun l => ((direction flags).upkeep, l), waits := wait },
      s.ledger.after buf (.pre i flags)⟩ := by
  intro l p hat
  have hon : onLine (s.ledger.after buf (.pre i flags)).val l = fun o =>
      if direction flags = .fromDevice ∧ l ∈ (buf i).lines then none
      else onLine s.ledger.val l o := by
    funext o
    rw [onLine, onLine]
    by_cases ho : o < DMA_ALIGN_MIN
    · have hdiv : (DMA_ALIGN_MIN * l + o) / DMA_ALIGN_MIN = l := by
        rw [Nat.mul_add_div (by decide), Nat.div_eq_of_lt ho, Nat.add_zero]
      rw [if_pos ho, if_pos ho]
      change (if _ ∧ (DMA_ALIGN_MIN * l + o) / DMA_ALIGN_MIN ∈ _ then _ else _) = _
      rw [hdiv]
    · rw [if_neg ho, if_neg ho, ite_self]
  rw [hon]
  rcases At.of_update hap hat with ⟨hl, rfl, hold⟩ | ⟨hl, hold⟩
  · have hok := h l _ (hp ▸ hold)
    simp only [hl, and_true]
    exact hok.pre _ fun w => mem_asked_of_quiet hok.2.1 hl
  · simp only [hl, and_false, if_false]
    exact (h l p hold).of_due fun w => mem_asked_of_not_mem hl

/-- **What a driver asks for after a transfer.** -/
theorem post (hap : Apart buf) (h : InOrder buf s) {i : ι} {flags : ℕ} {wait : Bool}
    (hp : s.ledger.phase i = .done) :
    InOrder buf ⟨{ s.cpu with
      due := s.cpu.due ++ (buf i).lines.map fun l => (.inv, l), waits := wait },
      s.ledger.after buf (.post i flags)⟩ := by
  intro l p hat
  rcases At.of_update hap hat with ⟨hl, rfl, hold⟩ | ⟨hl, hold⟩
  · have hok := h l _ (hp ▸ hold)
    exact hok.post fun w => mem_asked_of_quiet hok.2.1 hl
  · exact (h l p hold).of_due fun w => mem_asked_of_not_mem hl

/-- **One step keeps all lines in order.** -/
theorem step (hap : Apart buf) (h : InOrder buf s) {e : Option (Event ι)} {s' : Sys ι}
    (hs : Step buf s e s') : InOrder buf s' := by
  cases hs with
  | own hs => exact h.own hs
  | note hok ha =>
    rename_i e
    cases e with
    | arm i =>
      intro l p hat
      rcases At.of_update hap hat with ⟨-, rfl, hold⟩ | ⟨-, hold⟩
      · exact (h l _ hold).arm
      · exact h l p hold
    | complete i =>
      intro l p hat
      rcases At.of_update hap hat with ⟨-, rfl, hold⟩ | ⟨-, hold⟩
      · exact (h l _ hold).complete
      · exact h l p hold
    | pre i flags => exact absurd ((pre_act _ _ _).symm.trans ha) (Option.some_ne_none _)
    | post i flags => exact absurd ((post_act _ _ _).symm.trans ha) (Option.some_ne_none _)
    | _ => exact absurd ha (Option.some_ne_none _)
  | act hok ha hs =>
    rename_i c e a
    cases e with
    | load a v =>
      obtain rfl := Option.some.inj ha
      cases hs with
      | loads => exact h
    | store a v =>
      obtain rfl := Option.some.inj ha
      cases hs with
      | stores =>
        refine h.write fun p hat => ?_
        obtain rfl : p = .cpu := hat.of_forall (P := (· = .cpu)) rfl hok
        exact (h _ _ hat).store _ v
    | pre i flags =>
      obtain rfl := Option.some.inj ((pre_act _ _ _).symm.trans ha)
      cases hs with
      | asks => exact h.pre hap hok
    | post i flags =>
      obtain rfl := Option.some.inj ((post_act _ _ _).symm.trans ha)
      cases hs with
      | asks => exact h.post hap hok
    | barrier =>
      obtain rfl := Option.some.inj ha
      cases hs with
      | waits => exact h
    | synced =>
      obtain rfl := Option.some.inj ha
      cases hs with
      | goesOn _ hdue =>
        intro l p hat
        obtain ⟨q, hold, rfl⟩ := At.of_map rfl hat
        have hok := h l q hold
        rw [hdue] at hok
        change LineOk _ s.cpu.due _ _ _
        rw [hdue]
        exact hok.synced
    | fetch i a v =>
      obtain rfl := Option.some.inj ha
      cases hs with
      | fetches => exact h
    | land i a v =>
      obtain rfl := Option.some.inj ha
      cases hs with
      | lands =>
        obtain ⟨⟨d, hd, hphase⟩, hin⟩ := hok
        refine h.write fun p hat => ?_
        obtain rfl : p = .armed d := by
          rcases hat with ⟨j, hj, rfl⟩ | ⟨hno, -⟩
          · rw [← hap i j _ hin.line hj, hphase]
          · exact absurd hin.line (hno i)
        exact (h _ _ hat).land hd _ v
    | arm i => exact absurd ha.symm (Option.some_ne_none _)
    | complete i => exact absurd ha.symm (Option.some_ne_none _)

/-- **All lines are in order after any run.** -/
theorem run (hap : Apart buf) {es : List (Option (Event ι))} (h : Run buf es s) : InOrder buf s :=
  h.invariant (fun _ s => InOrder buf s) (fun _ hs => start hs) fun _ _ _ _ hs hstep =>
    hs.step hap hstep

/-- **What is read is right**, in a state whose lines are in order. -/
theorem right (h : InOrder buf s) {e : Event ι} {s' : Sys ι}
    (hs : Step buf s (some e) s') : s.ledger.Right e := by
  cases e with
  | load a v =>
    cases hs with
    | act hok ha hs =>
      obtain rfl := Option.some.inj ha
      cases hs with
      | loads =>
        intro x hx
        have hline : ∃ p, At buf s.ledger (a / DMA_ALIGN_MIN) p := by
          by_cases hin : ∃ i, a / DMA_ALIGN_MIN ∈ (buf i).lines
          · obtain ⟨i, hi⟩ := hin
            exact ⟨_, .inl ⟨i, hi, rfl⟩⟩
          · exact ⟨.cpu, .inr ⟨not_exists.mp hin, rfl⟩⟩
        obtain ⟨p, hat⟩ := hline
        have hread : p.Readable := hat.of_forall (.inl rfl) hok
        exact (h _ p hat).see hread _ x ((onLine_addr _ a).trans hx)
    | note _ ha => exact absurd ha (Option.some_ne_none _)
  | fetch i a v =>
    cases hs with
    | act hok ha hs =>
      obtain rfl := Option.some.inj ha
      cases hs with
      | fetches =>
        intro x hx
        obtain ⟨⟨d, -, hphase⟩, hin⟩ := hok
        have hline := h _ _ (.inl ⟨i, hin.line, hphase⟩)
        exact hline.2.2.1 _ x ((onLine_addr _ a).trans hx)
    | note _ ha => exact absurd ha (Option.some_ne_none _)
  | _ => exact trivial

end InOrder

/-- **Behind the protocol the cache cannot be seen**: whichever way stores, transfers, barriers and
what the cache does of itself fall, the processor loads what was stored or what a device wrote last,
and a device fetches what was stored last. -/
theorem transfers_coherent [DecidableEq ι] (hap : Apart buf) {es : List (Option (Event ι))}
    {s s' : Sys ι} {e : Event ι} (hrun : Run buf es s) (hs : Step buf s (some e) s') :
    s.ledger.Right e := (InOrder.run hap hrun).right hs

/-- The processor loads whenever it does not wait. -/
theorem load_of_run [DecidableEq ι] {es : List (Option (Event ι))} {s : Sys ι}
    (_ : Run buf es s) {a : ℕ}
    (hw : s.cpu.waits = false) (hok : s.ledger.Allowed buf (.load a 0)) :
    Step buf s (some (.load a ((s.cpu.lines (a / DMA_ALIGN_MIN)).see (a % DMA_ALIGN_MIN)))) s :=
  .act hok rfl (.loads hw _ _)

section Runs

variable [DecidableEq ι] {es : List (Option (Event ι))} {s : Sys ι} {i : ι} {a : ℕ}

namespace Ledger

variable (f : Ledger ι) (i j : ι) (flags : ℕ)

@[simp] theorem phase_pre : (f.after buf (.pre i flags)).phase j
    = if j = i then .asked (direction flags) else f.phase j := Function.update_apply ..

@[simp] theorem phase_post : (f.after buf (.post i flags)).phase j
    = if j = i then .dropping else f.phase j := Function.update_apply ..

@[simp] theorem phase_arm : (f.after buf (.arm i)).phase j
    = if j = i then (f.phase i).arm else f.phase j := Function.update_apply ..

@[simp] theorem phase_complete : (f.after buf (.complete i)).phase j
    = if j = i then (f.phase i).complete else f.phase j := Function.update_apply ..

@[simp] theorem phase_synced : (f.after buf .synced).phase j = (f.phase j).synced := rfl

@[simp] theorem phase_land (a : ℕ) (v : UInt8) :
    (f.after buf (.land i a v)).phase j = f.phase j := rfl

end Ledger

/-- All the upkeep that is due may happen. -/
theorem settle_runs (hrun : Run buf es s) : ∃ es' s', Run buf (es' ++ es) s' ∧
    s'.ledger = s.ledger ∧ s'.cpu.due = [] ∧ s'.cpu.waits = s.cpu.waits := by
  induction hdue : s.cpu.due generalizing s es with
  | nil => exact ⟨[], s, hrun, rfl, hdue, rfl⟩
  | cons u us ih =>
    have hmem : (u.1, u.2) ∈ s.cpu.due := by
      rw [hdue]
      exact List.mem_cons_self
    have hnext : s.cpu.due.erase (u.1, u.2) = us := by
      rw [hdue]
      exact List.erase_cons_head ..
    obtain ⟨es', s', hrun', hledger, hdue', hwaits⟩ := ih (hrun.next (.own (.happens _ hmem))) hnext
    refine ⟨es' ++ [none], s', ?_, hledger, hdue', hwaits⟩
    rw [List.append_assoc]
    exact hrun'

omit [DecidableEq ι] in
/-- What the upkeep before and after a transfer from a device asks for: the processor waits. -/
theorem exists_asks (ha : (buf i).Has a) :
    ∃ us, (Event.pre i DMA_WriteToRAM).act buf = some (.asks us true) ∧
      (Event.post i 0).act buf = some (.asks us true) := by
  have hlen : ((buf i).len != 0) = true := by
    obtain ⟨hlow, hhigh⟩ := ha
    exact bne_iff_ne.mpr (by omega)
  refine ⟨(lines (buf i).addr (buf i).len).map fun l => (.inv, l), ?_, ?_⟩
  · change some (Act.asks _ (true && (buf i).len != 0)) = _
    rw [hlen, Bool.and_true]
    rfl
  · change some (Act.asks _ (true && (buf i).len != 0)) = _
    rw [hlen, Bool.and_true]
    rfl

/-- **A transfer from a device goes through**: all buffers are the processor's again, and the byte
is the one that the device wrote. -/
theorem receive_runs (hrun : Run buf es s) (hwaits : s.cpu.waits = false)
    (hcpu : ∀ j, s.ledger.phase j = .cpu) (ha : (buf i).Has a) (v : UInt8) :
    ∃ es' s', Run buf (es' ++ es) s' ∧
      (∀ e ∈ [.pre i DMA_WriteToRAM, .arm i, .land i a v, .complete i, .post i 0],
        some e ∈ es') ∧
      s'.cpu.waits = false ∧ (∀ j, s'.ledger.phase j = .cpu) ∧ s'.ledger.val a = some v := by
  obtain ⟨us, hpre, hpost⟩ := exists_asks ha
  have hasked := hrun.next (.act (e := .pre i DMA_WriteToRAM) (hcpu i) hpre (.asks hwaits us true))
  obtain ⟨es₁, s₁, h₁, hledger₁, hdue₁, hwaits₁⟩ := settle_runs hasked
  have hready := h₁.next (.act (e := .synced) trivial rfl (.goesOn hwaits₁ hdue₁))
  rw [hledger₁] at hready
  -- the device has it
  have hd : direction DMA_WriteToRAM = .fromDevice := rfl
  have harmed := hready.next (.note (e := .arm i) ⟨.fromDevice, by simp [hd, Phase.synced]⟩ rfl)
  have hlanded := harmed.next (.act (e := .land i a v)
    ⟨⟨.fromDevice, Direction.noConfusion, by simp [hd, Phase.synced, Phase.arm]⟩, ha⟩ rfl
    (.lands _ _ _ v))
  have hcompleted := hlanded.next (.note (e := .complete i)
    ⟨.fromDevice, by simp [hd, Phase.synced, Phase.arm]⟩ rfl)
  -- and the processor again
  have hgiven := hcompleted.next (.act (e := .post i 0)
    (by simp [Ledger.Allowed, hd, Phase.synced, Phase.arm, Phase.complete]) hpost
    (.asks rfl us true))
  obtain ⟨es₂, s₂, h₂, hledger₂, hdue₂, hwaits₂⟩ := settle_runs hgiven
  have hback := h₂.next (.act (e := .synced) trivial rfl (.goesOn hwaits₂ hdue₂))
  rw [hledger₂] at hback
  refine ⟨some .synced :: (es₂ ++ some (.post i 0) :: some (.complete i) :: some (.land i a v) ::
    some (.arm i) :: some .synced :: (es₁ ++ [some (.pre i DMA_WriteToRAM)])), _,
    by simpa using hback, ?_, rfl, fun j => ?_, Function.update_self ..⟩
  · simp
  · by_cases hj : j = i <;> simp [hj, hcpu, Phase.synced]

end Runs

/-- One buffer of a line. -/
def lineBuf (_ : Unit) : Range := ⟨0x1000, 64, by decide⟩

theorem apart_lineBuf : Apart lineBuf := fun _ _ _ _ _ => rfl

/-- Memory of zeros, and an empty cache. -/
def zeros (ι : Type*) : Sys ι :=
  ⟨⟨fun _ => ⟨fun _ => 0, fun _ => 0, .out⟩, [], false⟩, ⟨fun _ => .cpu, fun _ => some 0⟩⟩

theorem start_zeros : Start (zeros ι) where
  cpu := fun _ => rfl
  due := rfl
  settled := fun _ => settled_of_ne Hold.noConfusion
  known := fun _ _ h => Option.some.inj h

/-- A store, a transfer over it, and a line that the cache takes too early. -/
theorem transfers_coherent_line : ∃ es s s' v, Run lineBuf es s ∧
    Step lineBuf s (some (.load 0x1000 v)) s' ∧ v = 0x5A := by
  have hrun : Run lineBuf [] (zeros Unit) := .start start_zeros
  have hrun := hrun.next (.own (.fill _ 64))
  have hrun := hrun.next (.act (e := .store 0x1000 0x11) (fun _ _ => rfl) rfl (.stores rfl _ _ _))
  have hrun := hrun.next (.act (e := .pre () DMA_WriteToRAM) rfl rfl (.asks rfl _ _))
  have hrun := hrun.next (.own (.happens (u := .inv) (l := 64) _ (by decide)))
  have hrun := hrun.next (.act (e := .synced) trivial rfl (.goesOn rfl rfl))
  have hrun := hrun.next (.note (e := .arm ()) ⟨_, rfl⟩ rfl)
  have hrun := hrun.next (.own (.fill _ 64))
  have hrun := hrun.next (.act (e := .land () 0x1000 0x5A)
    ⟨⟨_, by decide, rfl⟩, by decide, by decide⟩ rfl (.lands _ _ _ _))
  have hrun := hrun.next (.note (e := .complete ()) ⟨_, rfl⟩ rfl)
  have hrun := hrun.next (.act (e := .post () 0) rfl rfl (.asks rfl _ _))
  have hrun := hrun.next (.own (.happens (u := .inv) (l := 64) _ (by decide)))
  have hrun := hrun.next (.act (e := .synced) trivial rfl (.goesOn rfl rfl))
  have hload := load_of_run hrun (a := 0x1000) rfl fun _ _ => .inl rfl
  exact ⟨_, _, _, _, hrun, hload, transfers_coherent apart_lineBuf hrun hload 0x5A rfl⟩

end Cache
