import Mathlib.Logic.Function.Basic

/-!
# Machinery/Cached — a memory behind a write-back cache that others do not look into

A processor sees a line through its cache, everybody else sees what lies in memory (`Line`).  The
cache fills, writes back and evicts lines when it likes; what a program can do is to ask for their
upkeep (`Upkeep`), which happens at some later time, and to wait until what it asked for has
happened (`Step`).

    Line O B     one line: what memory has, what the cache has, and how the cache holds it
    Settled      a clean line says what memory says
    Flushed      nothing of the line is in the cache alone
-/

namespace Machinery

/-- How a cache has a line. -/
inductive Hold where
  | out
  | clean
  | dirty
  deriving DecidableEq, Repr

/-- **What can be asked of a line**: to write it back, to write it back and forget it, or to forget
it. -/
inductive Upkeep where
  | clean
  | cleanInv
  | inv
  deriving DecidableEq, Repr

/-- **A line**, byte by byte: what memory has of it, and what the cache has. -/
structure Line (O B : Type*) where
  ram : O → B
  copy : O → B
  hold : Hold

variable {O B L : Type*}

namespace Line

variable {m : Line O B} {o : O} {v : B}

/-! ## What happens to a line -/

/-- What the processor sees. -/
def see (m : Line O B) (o : O) : B := if m.hold = .out then m.ram o else m.copy o

/-- The cache takes the line. -/
def fill (m : Line O B) : Line O B :=
  if m.hold = .out then { m with copy := m.ram, hold := .clean } else m

/-- The cache writes the line back, and keeps it. -/
def writeBack (m : Line O B) : Line O B :=
  if m.hold = .dirty then { m with ram := m.copy, hold := .clean } else m

/-- The cache forgets the line as it is. -/
def drop (m : Line O B) : Line O B := { m with hold := .out }

/-- The cache makes room: it writes the line back, and forgets it. -/
def evict (m : Line O B) : Line O B := m.writeBack.drop

/-- The processor stores a byte: in the cache where that has the line. -/
def store [DecidableEq O] (m : Line O B) (o : O) (v : B) : Line O B :=
  if m.hold = .out then { m with ram := Function.update m.ram o v }
  else { m with copy := Function.update m.copy o v, hold := .dirty }

/-- Somebody else writes a byte: in memory. -/
def land [DecidableEq O] (m : Line O B) (o : O) (v : B) : Line O B :=
  { m with ram := Function.update m.ram o v }

/-- Upkeep, when it happens. -/
def upkeep (m : Line O B) : Upkeep → Line O B
  | .clean => m.writeBack
  | .cleanInv => m.evict
  | .inv => m.drop

/-! ## Lines in order -/

/-- **A clean line says what memory says.** -/
def Settled (m : Line O B) : Prop := m.hold = .clean → m.copy = m.ram

/-- **Nothing of the line is in the cache alone.** -/
def Flushed (m : Line O B) : Prop := m.hold ≠ .dirty

/-- What is known of the bytes is so. -/
def Says (val : O → Option B) (now : O → B) : Prop := ∀ o x, val o = some x → now o = x

theorem settled_of_ne (h : m.hold ≠ .clean) : m.Settled := fun hc => absurd hc h

theorem see_of_settled (hs : m.Settled) (hf : m.Flushed) : m.see = m.ram := by
  funext o
  rw [see]
  split
  · rfl
  · next hout =>
    cases hm : m.hold with
    | out => exact absurd hm hout
    | clean => rw [hs hm]
    | dirty => exact absurd hm hf

theorem Settled.fill (h : m.Settled) : m.fill.Settled := by
  rw [Line.fill]
  split
  · exact fun _ => rfl
  · exact h

theorem Settled.writeBack (h : m.Settled) : m.writeBack.Settled := by
  rw [Line.writeBack]
  split
  · exact fun _ => rfl
  · exact h

theorem settled_drop (m : Line O B) : m.drop.Settled := settled_of_ne Hold.noConfusion

theorem settled_evict (m : Line O B) : m.evict.Settled := settled_drop _

theorem Settled.upkeep (h : m.Settled) (u : Upkeep) : (m.upkeep u).Settled := by
  cases u with
  | clean => exact h.writeBack
  | cleanInv => exact settled_evict m
  | inv => exact settled_drop m

theorem Flushed.fill (h : m.Flushed) : m.fill.Flushed := by
  rw [Line.fill]
  split
  · exact Hold.noConfusion
  · exact h

theorem flushed_writeBack (m : Line O B) : m.writeBack.Flushed := by
  rw [writeBack]
  split
  · exact Hold.noConfusion
  · assumption

theorem flushed_drop (m : Line O B) : m.drop.Flushed := Hold.noConfusion

/-- **Whatever upkeep has happened, nothing is left in the cache alone.** -/
theorem flushed_upkeep (m : Line O B) (u : Upkeep) : (m.upkeep u).Flushed := by
  cases u with
  | clean => exact flushed_writeBack m
  | cleanInv => exact flushed_drop _
  | inv => exact flushed_drop m

/-! ## What stays of the bytes -/

@[simp] theorem see_fill (m : Line O B) : m.fill.see = m.see := by
  funext o
  rw [fill]
  split
  · next h => rw [see, see, if_pos h, if_neg Hold.noConfusion]
  · rfl

@[simp] theorem see_writeBack (m : Line O B) : m.writeBack.see = m.see := by
  funext o
  rw [writeBack]
  split
  · next h => rw [see, see, h, if_neg Hold.noConfusion, if_neg Hold.noConfusion]
  · rfl

@[simp] theorem see_drop (m : Line O B) : m.drop.see = m.ram := funext fun _ => if_pos rfl

theorem see_evict (h : m.Settled) : m.evict.see = m.see := by
  rw [evict, see_drop, ← see_writeBack m]
  exact (see_of_settled h.writeBack (flushed_writeBack m)).symm

@[simp] theorem ram_fill (m : Line O B) : m.fill.ram = m.ram := by
  rw [fill]
  split <;> rfl

@[simp] theorem ram_drop (m : Line O B) : m.drop.ram = m.ram := rfl

theorem ram_writeBack (h : m.Flushed) : m.writeBack.ram = m.ram := by rw [writeBack, if_neg h]

theorem ram_evict (h : m.Flushed) : m.evict.ram = m.ram := by rw [evict, ram_drop, ram_writeBack h]

/-- Upkeep that writes back keeps what the processor sees. -/
theorem see_upkeep {u : Upkeep} (h : m.Settled) (hu : u ≠ .inv) : (m.upkeep u).see = m.see := by
  cases u with
  | clean => exact see_writeBack m
  | cleanInv => exact see_evict h
  | inv => exact absurd rfl hu

section Writes

variable [DecidableEq O] {val : O → Option B}

theorem settled_store (m : Line O B) (o : O) (v : B) : (m.store o v).Settled := by
  rw [Line.store]
  split
  · next hout => exact settled_of_ne (by rw [hout]; exact Hold.noConfusion)
  · exact settled_of_ne Hold.noConfusion

@[simp] theorem see_store (m : Line O B) (o : O) (v : B) :
    (m.store o v).see = Function.update m.see o v := by
  by_cases hout : m.hold = .out
  · have hsee : m.see = m.ram := funext fun _ => if_pos hout
    rw [store, if_pos hout, hsee]
    exact funext fun _ => if_pos hout
  · have hsee : m.see = m.copy := funext fun _ => if_neg hout
    rw [store, if_neg hout, hsee]
    exact funext fun _ => if_neg Hold.noConfusion

theorem Flushed.land (h : m.Flushed) (o : O) (v : B) : (m.land o v).Flushed := h

@[simp] theorem ram_land (m : Line O B) (o : O) (v : B) :
    (m.land o v).ram = Function.update m.ram o v := rfl

/-- A byte that is written is known. -/
theorem Says.update {now : O → B} (h : Says val now) (o : O) (v : B) :
    Says (Function.update val o (some v)) (Function.update now o v) := by
  intro o' x hx
  by_cases ho : o' = o
  · subst ho
    rw [Function.update_self] at hx ⊢
    exact Option.some.inj hx
  · rw [Function.update_of_ne ho] at hx ⊢
    exact h o' x hx

end Writes

end Line

/-! ## A processor with such a cache -/

/-- **The machine**: the lines, the upkeep that was asked for and has not happened, and whether the
processor waits for it. -/
structure Cpu (L O B : Type*) where
  lines : L → Line O B
  due : List (Upkeep × L)
  waits : Bool

/-- **What is done**: by the processor, or by somebody who shares the memory with it (`lands`,
`fetches`). -/
inductive Act (L O B : Type*) where
  | loads (l : L) (o : O) (v : B)
  | stores (l : L) (o : O) (v : B)
  | asks (us : List (Upkeep × L)) (wait : Bool)
  | waits
  | goesOn
  | lands (l : L) (o : O) (v : B)
  | fetches (l : L) (o : O) (v : B)

namespace Cpu

variable [DecidableEq L]

/-- One line changed. -/
def setLine (c : Cpu L O B) (l : L) (m : Line O B) : Cpu L O B :=
  { c with lines := Function.update c.lines l m }

/-- **One step of the machine**.  The cache does what it likes at any time, and so does upkeep that
is due happen, in any order; the processor does nothing while it waits. -/
inductive Step [DecidableEq O] : Cpu L O B → Option (Act L O B) → Cpu L O B → Prop where
  | fill (c : Cpu L O B) (l : L) : Step c none (c.setLine l (c.lines l).fill)
  | writeBack (c : Cpu L O B) (l : L) : Step c none (c.setLine l (c.lines l).writeBack)
  | evict (c : Cpu L O B) (l : L) : Step c none (c.setLine l (c.lines l).evict)
  | happens (c : Cpu L O B) {u : Upkeep} {l : L} (h : (u, l) ∈ c.due) :
    Step c none { c.setLine l ((c.lines l).upkeep u) with due := c.due.erase (u, l) }
  | loads {c : Cpu L O B} (h : c.waits = false) (l : L) (o : O) :
    Step c (some (.loads l o ((c.lines l).see o))) c
  | stores {c : Cpu L O B} (h : c.waits = false) (l : L) (o : O) (v : B) :
    Step c (some (.stores l o v)) (c.setLine l ((c.lines l).store o v))
  | asks {c : Cpu L O B} (h : c.waits = false) (us : List (Upkeep × L)) (wait : Bool) :
    Step c (some (.asks us wait)) { c with due := c.due ++ us, waits := wait }
  | waits {c : Cpu L O B} (h : c.waits = false) : Step c (some .waits) { c with waits := true }
  | goesOn {c : Cpu L O B} (h : c.waits = true) (hdue : c.due = []) :
    Step c (some .goesOn) { c with waits := false }
  | lands (c : Cpu L O B) (l : L) (o : O) (v : B) :
    Step c (some (.lands l o v)) (c.setLine l ((c.lines l).land o v))
  | fetches (c : Cpu L O B) (l : L) (o : O) : Step c (some (.fetches l o ((c.lines l).ram o))) c

theorem lines_setLine (c : Cpu L O B) (l l' : L) (m : Line O B) :
    (c.setLine l m).lines l' = if l' = l then m else c.lines l' := Function.update_apply _ _ _ _

/-- Upkeep that happens is not due any more, upkeep of other lines still is. -/
theorem mem_erase_due {c : Cpu L O B} {u w : Upkeep} {l l' : L} (h : l' ≠ l) :
    (w, l') ∈ c.due.erase (u, l) ↔ (w, l') ∈ c.due :=
  List.mem_erase_of_ne fun heq => h (congrArg Prod.snd heq)

end Cpu

end Machinery
