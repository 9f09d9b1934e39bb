import Emu68Common.Machinery.Text

/-!
# Machinery/Guarded — memory of which only a stretch may be touched

An access outside the stretch is no access at all (`peek`, `poke`), so what comes to a result has
touched nothing else.  A walk that stops by a NUL inside the stretch stays in it (`scans`), and what
it finds is what the same walk finds in memory without a guard.

    fetch R m i               the cell at `i`, where those of `R` may be read
    within p n                the addresses of a stretch
    peek lo hi b i            the byte at `i`
    poke lo hi b i c          the block with `c` at `i`
    scanIn lo hi stop b n p   where a walk from `p` stops, within `n` bytes
-/

namespace Machinery

/-- A cell read, where those of `R` may be read. -/
def fetch {ι β : Type*} (R : ι → Bool) (m : ι → β) (i : ι) : Option β :=
  if R i then some (m i) else none

theorem fetch_eq {ι β : Type*} {R : ι → Bool} {m : ι → β} {i : ι} (h : R i = true) :
    fetch R m i = some (m i) := if_pos h

theorem fetch_none {ι β : Type*} {R : ι → Bool} {m : ι → β} {i : ι} (h : R i = false) :
    fetch R m i = none := if_neg (h ▸ Bool.false_ne_true)

/-- The addresses of a stretch: where it starts, and how long it is. -/
def within (p n i : ℕ) : Bool := decide (p ≤ i ∧ i < p + n)

theorem within_add (p : ℕ) {n i : ℕ} (h : i < n) : within p n (p + i) = true :=
  decide_eq_true ⟨Nat.le_add_right p i, Nat.add_lt_add_left h p⟩

theorem within_end (p n : ℕ) : within p n (p + n) = false :=
  decide_eq_false fun h => Nat.lt_irrefl _ h.2

namespace Block

variable {b b' : Block} {lo hi n p q r : ℕ} {c : UInt8} {stop : UInt8 → Bool}

/-- A byte read. -/
def peek (lo hi : ℕ) (b : Block) (i : ℕ) : Option UInt8 :=
  if lo ≤ i ∧ i ≤ hi then some (b i) else none

/-- A byte written. -/
def poke (lo hi : ℕ) (b : Block) (i : ℕ) (c : UInt8) : Option Block :=
  if lo ≤ i ∧ i ≤ hi then some (Function.update b i c) else none

/-- `while (!stop(*p)) p++`, over so many bytes at most. -/
def scanIn (lo hi : ℕ) (stop : UInt8 → Bool) (b : Block) : ℕ → ℕ → Option ℕ
  | 0, _ => none
  | n + 1, p => do
    let c ← b.peek lo hi p
    if stop c then some p else scanIn lo hi stop b n (p + 1)

theorem peek_eq (hlo : lo ≤ p) (hhi : p ≤ hi) : b.peek lo hi p = some (b p) := if_pos ⟨hlo, hhi⟩

theorem poke_eq (hlo : lo ≤ p) (hhi : p ≤ hi) :
    b.poke lo hi p c = some (Function.update b p c) := if_pos ⟨hlo, hhi⟩

/-- **A walk stops by the first byte of its kind**, guarded or not, and touches nothing behind
it. -/
theorem scans (b : Block) (stop : UInt8 → Bool) (hq : stop (b q) = true) (hlo : lo ≤ p)
    (hpq : p ≤ q) (hhi : q ≤ hi) (hn : q - p < n) :
    ∃ r, b.scan stop n p = some r ∧ b.scanIn lo hi stop n p = some r ∧
      p ≤ r ∧ r ≤ q ∧ stop (b r) = true := by
  induction n generalizing p with
  | zero => exact absurd hn (Nat.not_lt_zero _)
  | succ n ih =>
    rw [scan, scanIn, peek_eq hlo (hpq.trans hhi)]
    by_cases hp : stop (b p) = true
    · exact ⟨p, if_pos hp, if_pos hp, le_rfl, hpq, hp⟩
    · have hlt : p < q := lt_of_le_of_ne hpq fun h => hp (h ▸ hq)
      obtain ⟨r, hr, hrIn, hle, hrest⟩ := ih (hlo.trans (Nat.le_succ p)) hlt (by omega)
      exact ⟨r, (if_neg hp).trans hr, (if_neg hp).trans hrIn, (Nat.le_succ p).trans hle, hrest⟩

/-- The same block, but for bytes of the stretch. -/
def Outside (lo hi : ℕ) (b b' : Block) : Prop := ∀ i, i < lo ∨ hi < i → b' i = b i

theorem Outside.refl (lo hi : ℕ) (b : Block) : Outside lo hi b b := fun _ _ => rfl

theorem Outside.trans {b'' : Block} (h : Outside lo hi b b') (h' : Outside lo hi b' b'') :
    Outside lo hi b b'' := fun i hi => (h' i hi).trans (h i hi)

theorem outside_update (hlo : lo ≤ p) (hhi : p ≤ hi) :
    Outside lo hi b (Function.update b p c) :=
  fun _ hi => Function.update_of_ne (by omega) _ _

end Block

end Machinery
