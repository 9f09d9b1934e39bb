import Emu68Common.Devtree.Cells
import Emu68Common.Dma.Regions
import Mathlib.Logic.Relation

/-!
# Dma/Scan — when the record loop ends, and stays inside the property

A turn of the loop goes on by `#address-cells + #size-cells`, two numbers from the tree, and tests
for the end with a 32-bit sum.  So it goes nowhere when both are 0, and believes a record of
`2 ^ 32` cells or more to be a short one; otherwise it ends, and reads inside the property
(`scan_good_iff`).
-/

namespace Dma

open Devtree (U32 getNumber getNumber_congr)

section Scan

variable (reg : ℕ → U32) (cells addrCells sizeCells : U32)

/-- **A place the record loop gets to.** -/
def Reached : Scan → Prop :=
  Relation.ReflTransGen (fun s s' => turn reg cells addrCells sizeCells s = some s') ⟨0, []⟩

/-- The loop ends. -/
def Ends : Prop := ∃ fuel, (windowLoop reg cells addrCells sizeCells fuel ⟨0, []⟩).isSome = true

/-- The cells a turn reads: those of the record's two numbers. -/
def Reads (s : Scan) (i : ℕ) : Prop :=
  (s.pos.toNat ≤ i ∧ i < s.pos.toNat + addrCells.toNat)
    ∨ ((s.pos + addrCells).toNat ≤ i ∧ i < (s.pos + addrCells).toNat + sizeCells.toNat)

/-- **Every cell that is read lies inside the property.** -/
def InBounds : Prop :=
  ∀ s, Reached reg cells addrCells sizeCells s →
    (turn reg cells addrCells sizeCells s).isSome = true →
      ∀ i, Reads addrCells sizeCells s i → i < cells.toNat

end Scan

variable {reg : ℕ → U32} {cells addrCells sizeCells : U32} {s s' : Scan}

/-- What a turn does depends on the cells it reads. -/
theorem turn_congr {reg' : ℕ → U32} (h : ∀ i, Reads addrCells sizeCells s i → reg i = reg' i) :
    turn reg cells addrCells sizeCells s = turn reg' cells addrCells sizeCells s := by
  have hbase : getNumber (fun i => reg (s.pos.toNat + i)) addrCells
      = getNumber (fun i => reg' (s.pos.toNat + i)) addrCells :=
    getNumber_congr fun i hi => h _ (Or.inl ⟨Nat.le_add_right _ _, Nat.add_lt_add_left hi _⟩)
  have hsize : getNumber (fun i => reg ((s.pos + addrCells).toNat + i)) sizeCells
      = getNumber (fun i => reg' ((s.pos + addrCells).toNat + i)) sizeCells :=
    getNumber_congr fun i hi => h _ (Or.inr ⟨Nat.le_add_right _ _, Nat.add_lt_add_left hi _⟩)
  rw [turn, turn]
  dsimp only
  rw [hbase, hsize]

/-! ## Records that fit 32 bits -/

/-- The place is inside the property, and past its start only if a record fits it. -/
structure Placed (cells addrCells sizeCells : U32) (s : Scan) : Prop where
  pos : s.pos.toNat ≤ cells.toNat
  fits : s.pos = 0 ∨ addrCells.toNat + sizeCells.toNat ≤ cells.toNat

/-- A test that succeeds has not wrapped. -/
theorem Placed.test (h : Placed cells addrCells sizeCells s) (hcells : cells.toNat < 2 ^ 30)
    (hrecord : addrCells.toNat + sizeCells.toNat < 2 ^ 32)
    (hgo : s.pos + addrCells + sizeCells ≤ cells) :
    (s.pos + addrCells).toNat = s.pos.toNat + addrCells.toNat
      ∧ (s.pos + addrCells + sizeCells).toNat
        = s.pos.toNat + (addrCells.toNat + sizeCells.toNat)
      ∧ s.pos.toNat + (addrCells.toNat + sizeCells.toNat) ≤ cells.toNat := by
  have hpos := h.pos
  rcases h.fits with h0 | hfits
  · rw [h0] at hgo hpos ⊢
    bv_omega
  · bv_omega

/-- **Such a turn goes on by a record**, and stays inside. -/
theorem Placed.turn (h : Placed cells addrCells sizeCells s) (hcells : cells.toNat < 2 ^ 30)
    (hrecord : addrCells.toNat + sizeCells.toNat < 2 ^ 32)
    (hturn : turn reg cells addrCells sizeCells s = some s') :
    Placed cells addrCells sizeCells s'
      ∧ s'.pos.toNat = s.pos.toNat + (addrCells.toNat + sizeCells.toNat) := by
  obtain ⟨hgo, -, hpos, -⟩ := turn_eq_some hturn
  obtain ⟨-, hsum, hle⟩ := h.test hcells hrecord hgo
  rw [← hpos] at hsum
  exact ⟨⟨hsum.trans_le hle, Or.inr ((Nat.le_add_left _ _).trans hle)⟩, hsum⟩

theorem Placed.start : Placed cells addrCells sizeCells ⟨0, []⟩ := ⟨Nat.zero_le _, Or.inl rfl⟩

theorem placed_of_reached (hcells : cells.toNat < 2 ^ 30)
    (hrecord : addrCells.toNat + sizeCells.toNat < 2 ^ 32)
    (h : Reached reg cells addrCells sizeCells s) : Placed cells addrCells sizeCells s := by
  induction h with
  | refl => exact Placed.start
  | tail _ hturn ih => exact (ih.turn hcells hrecord hturn).1

/-- **A run inside the property** reads only there. -/
theorem inBounds_of_lt (hcells : cells.toNat < 2 ^ 30)
    (hrecord : addrCells.toNat + sizeCells.toNat < 2 ^ 32) :
    InBounds reg cells addrCells sizeCells := by
  intro s hs hsome i hi
  obtain ⟨s', hturn⟩ := Option.isSome_iff_exists.mp hsome
  obtain ⟨hmid, -, hle⟩ :=
    (placed_of_reached hcells hrecord hs).test hcells hrecord (turn_eq_some hturn).1
  rw [Reads, hmid] at hi
  omega

/-- **The loop ends** once it has gone through the property: each turn takes a record of the
rest. -/
theorem windowLoop_isSome (hcells : cells.toNat < 2 ^ 30)
    (hrecord : addrCells.toNat + sizeCells.toNat < 2 ^ 32)
    (hne : addrCells.toNat + sizeCells.toNat ≠ 0) {fuel : ℕ}
    (h : Placed cells addrCells sizeCells s) (hfuel : cells.toNat - s.pos.toNat < fuel) :
    (windowLoop reg cells addrCells sizeCells fuel s).isSome = true := by
  induction fuel generalizing s with
  | zero => exact absurd hfuel (Nat.not_lt_zero _)
  | succ fuel ih =>
    rw [windowLoop]
    split
    · rfl
    · rename_i s' hturn
      obtain ⟨h', hpos⟩ := h.turn hcells hrecord hturn
      have hle := h'.pos
      exact ih h' (by omega)

/-! ## Records that do not -/

theorem start_add : (⟨0, []⟩ : Scan).pos + addrCells = addrCells := BitVec.zero_add addrCells

/-- **Without cells the loop does not move.** -/
theorem turn_of_zero (haddr : addrCells = 0) (hsize : sizeCells = 0) :
    turn reg cells addrCells sizeCells ⟨0, []⟩ = some ⟨0, []⟩ := by
  rw [haddr, hsize]
  exact if_pos ⟨Nat.zero_le _, by decide⟩

theorem windowLoop_of_fixed (h : turn reg cells addrCells sizeCells s = some s) (fuel : ℕ) :
    windowLoop reg cells addrCells sizeCells fuel s = none := by
  induction fuel with
  | zero => rfl
  | succ fuel ih =>
    rw [windowLoop, h]
    exact ih

/-- A record whose 32-bit size fits the property is read from its start. -/
theorem turn_start (h : addrCells + sizeCells ≤ cells) :
    (turn reg cells addrCells sizeCells ⟨0, []⟩).isSome = true := by
  rw [turn, if_pos ⟨by rwa [start_add], by decide⟩]
  rfl

/-- **When the record loop ends, having read inside the property only**: the cell counts are not
both 0, and their sum has not wrapped, or to more than there are cells. -/
theorem scan_good_iff (p : Devtree.Property) (addrCells sizeCells : U32) :
    Ends p.value (p.len / 4) addrCells sizeCells
        ∧ InBounds p.value (p.len / 4) addrCells sizeCells
      ↔ addrCells.toNat + sizeCells.toNat ≠ 0
        ∧ (addrCells.toNat + sizeCells.toNat < 2 ^ 32
          ∨ p.len.toNat / 4 < addrCells.toNat + sizeCells.toNat - 2 ^ 32) := by
  have hlen : (p.len / 4).toNat = p.len.toNat / 4 := rfl
  have hcells : (p.len / 4).toNat < 2 ^ 30 := by
    have := p.len.isLt
    omega
  rw [← hlen]
  generalize p.len / 4 = cells at hcells
  constructor
  · rintro ⟨⟨fuel, hends⟩, hin⟩
    constructor
    · intro h0
      have hturn : turn p.value cells addrCells sizeCells ⟨0, []⟩ = some ⟨0, []⟩ :=
        turn_of_zero (by bv_omega) (by bv_omega)
      rw [windowLoop_of_fixed hturn] at hends
      cases hends
    · by_contra hwrap
      -- the last cell of the record is read, and is not there
      refine absurd (hin ⟨0, []⟩ .refl (turn_start (by bv_omega))
        (addrCells.toNat + sizeCells.toNat - 1) (Or.inr ?_)) (by omega)
      rw [start_add]
      bv_omega
  · rintro ⟨hne, hlt | hwrap⟩
    · exact ⟨⟨_, windowLoop_isSome hcells hlt hne Placed.start (Nat.lt_succ_self _)⟩,
        inBounds_of_lt hcells hlt⟩
    · have hend : turn p.value cells addrCells sizeCells ⟨0, []⟩ = none := by
        refine if_neg fun hgo => absurd hgo.1 ?_
        rw [start_add]
        bv_omega
      refine ⟨⟨1, by rw [windowLoop, hend]; rfl⟩, fun s hs hsome => ?_⟩
      rcases Relation.ReflTransGen.cases_head hs with rfl | ⟨s', hturn, -⟩
      · rw [hend] at hsome
        cases hsome
      · rw [hend] at hturn
        cases hturn

/-- **A root whose cell counts are 0**: the loop reads the same record for ever. -/
theorem scan_stuck : ¬(Ends (fun _ => 0) 2 0 0 ∧ InBounds (fun _ => 0) 2 0 0) := by
  rintro ⟨⟨fuel, hends⟩, -⟩
  rw [windowLoop_of_fixed (turn_of_zero rfl rfl)] at hends
  cases hends

end Dma
