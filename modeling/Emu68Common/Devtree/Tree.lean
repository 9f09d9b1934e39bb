import Mathlib.Data.BitVec

/-!
# Devtree/Tree — the device tree, and the bus translation over it

The walk itself is `devicetree.resource`'s, so it is a parameter (`DeviceTree`): which node is
whose parent, and which property a node has.  `devtree.c` reads cells out of a property
(`getNumber`) and maps an address span across one bus through its `ranges` or `dma-ranges`
(`dtMap`).

    property ──getNumber──▸ records ──dtMapLoop──▸ the first that covers the span ──▸ the other side
-/

namespace Devtree

abbrev U32 : Type := BitVec 32
abbrev U64 : Type := BitVec 64

/-- A property: its length in bytes, and the cells from its value on.  Past the length the cells are
whatever memory holds. -/
structure Property where
  len : U32
  value : ℕ → U32

/-- **`devicetree.resource`**, as far as it is called.  No key at all (`NULL`) is an argument both
calls take. -/
structure DeviceTree (Key : Type) where
  getParent : Option Key → Option Key
  findProperty : Option Key → String → Option Property

/-- `DT_GetPropLen`: nothing there has no length. -/
def getPropLen : Option Property → U32
  | none => 0
  | some p => p.len

/-! ## Cells -/

/-- The loop of `getNumber`: `value` so far, and the cells still to come. -/
def getNumberLoop (value : U64) (ptr : ℕ → U32) : ℕ → U64
  | 0 => value
  | cells + 1 =>
    getNumberLoop ((value <<< 32) ||| (ptr 0).setWidth 64) (fun i => ptr (i + 1)) cells

/-- `DT_GetNumber`: so many cells as one number, the most significant first. -/
def getNumber (ptr : ℕ → U32) (cells : U32) : U64 := getNumberLoop 0 ptr cells.toNat

/-- `DT_GetPropertyValueULONG`: the first cell of a property, or a default. -/
def getPropertyValueULONG {Key : Type} (tree : DeviceTree Key) (key : Option Key)
    (propname : String) (defVal : U32) : U32 :=
  match tree.findProperty key propname with
  | none => defVal
  | some p => if 4 ≤ p.len then p.value 0 else defVal

/-! ## Records -/

/-- How many cells each part of a `ranges` record has. -/
structure RecordCells where
  child : U32
  parent : U32
  size : U32
  deriving DecidableEq, Repr

/-- Cells in a whole record, counted in 32 bits. -/
def RecordCells.record (n : RecordCells) : U32 := n.child + n.parent + n.size

/-- One record of `ranges` or `dma-ranges`. -/
structure Record where
  child : U64
  parent : U64
  size : U64
  deriving DecidableEq, Repr

/-- The record at a place in the property. -/
def readRecord (n : RecordCells) (rec : ℕ → U32) : Record where
  child := getNumber rec n.child
  parent := getNumber (fun i => rec (n.child.toNat + i)) n.parent
  size := getNumber (fun i => rec (n.child.toNat + n.parent.toNat + i)) n.size

/-- The side of a record an address is looked up on. -/
def Record.source (toParent : Bool) (r : Record) : U64 := if toParent then r.child else r.parent

/-- The side it is mapped to. -/
def Record.dest (toParent : Bool) (r : Record) : U64 := if toParent then r.parent else r.child

/-- **Whether a record covers `[addr, addr + len)`**, tested as offsets into it. -/
def Record.covers (toParent : Bool) (addr len : U64) (r : Record) : Bool :=
  r.source toParent ≤ addr && addr - r.source toParent < r.size
    && len ≤ r.size - (addr - r.source toParent)

/-- What the loop leaves behind once the span is covered. -/
structure Mapped where
  mapped : U64
  rangeStart : U64
  rangeEnd : U64
  deriving DecidableEq, Repr

/-- What a covering record maps the address to, and its own extent. -/
def Record.mapped (toParent : Bool) (addr : U64) (r : Record) : Mapped where
  mapped := r.dest toParent + (addr - r.source toParent)
  rangeStart := r.source toParent
  rangeEnd := r.source toParent + r.size

/-- The loop of `dt_map` over the records, from `rec` on with `cellsLeft` cells to go. -/
def dtMapLoop (n : RecordCells) (toParent : Bool) (addr len : U64) (rec : ℕ → U32)
    (cellsLeft : U32) : Option Mapped :=
  if _h : n.record ≠ 0 ∧ n.record ≤ cellsLeft then
    if (readRecord n rec).covers toParent addr len then
      some ((readRecord n rec).mapped toParent addr)
    else
      dtMapLoop n toParent addr len (fun i => rec (n.record.toNat + i)) (cellsLeft - n.record)
  else none
termination_by cellsLeft.toNat
decreasing_by bv_omega

/-! ## Mapping -/

section Map

variable {Key : Type} (tree : DeviceTree Key) (bus : Option Key)

/-- The cell counts of a bus's records, with their defaults. -/
def recordCells : RecordCells where
  child := getPropertyValueULONG tree bus "#address-cells" 2
  parent := getPropertyValueULONG tree (tree.getParent bus) "#address-cells" 2
  size := getPropertyValueULONG tree bus "#size-cells" 1

/-- The result of `dt_map`: `*out`, and the two words of `from_range`. -/
structure MapResult where
  out : U32
  rangeStart : U32
  rangeEnd : U32
  deriving DecidableEq, Repr

/-- The end of `dt_map`: the result must fit 32 bits, and the covering extent is clipped to them. -/
def dtMapFinish (len : U64) (m : Mapped) : Option MapResult :=
  if m.mapped > 0xFFFFFFFF ∨ len - 1 > 0xFFFFFFFF - m.mapped then none
  else some {
    out := m.mapped.setWidth 32
    rangeStart := if m.rangeStart > 0xFFFFFFFF then 0xFFFFFFFF else m.rangeStart.setWidth 32
    rangeEnd := if m.rangeEnd > 0xFFFFFFFF ∨ m.rangeEnd = 0 then 0xFFFFFFFF
      else m.rangeEnd.setWidth 32 }

/-- **`dt_map`**: a span across one bus.  A property without cells maps every address to itself. -/
def dtMap (propname : String) (toParent : Bool) (addr len : U64) : Option MapResult :=
  match tree.findProperty bus propname with
  | none => none
  | some prop =>
    let cellsLeft := prop.len / 4
    let covered :=
      if cellsLeft = 0 then some ⟨addr, 0, 0⟩
      else dtMapLoop (recordCells tree bus) toParent addr len prop.value cellsLeft
    covered.bind (dtMapFinish len)

/-- `DT_GetDmaAddress`: what the device reads CPU memory at. -/
def getDmaAddress (key : Option Key) (phys len : U32) : Option U32 :=
  if len = 0 then none
  else (dtMap tree (tree.getParent key) "dma-ranges" false (phys.setWidth 64)
    (len.setWidth 64)).map (·.out)

/-- The outputs of `DT_GetDmaWindow`. -/
structure DmaWindow where
  dma : U32
  cpuStart : U32
  cpuEnd : U32
  deriving DecidableEq, Repr

/-- `DT_GetDmaWindow`: the same, and the window the translation came from. -/
def getDmaWindow (key : Option Key) (phys len : U32) : Option DmaWindow :=
  if len = 0 then none
  else (dtMap tree (tree.getParent key) "dma-ranges" false (phys.setWidth 64)
    (len.setWidth 64)).map fun r => ⟨r.out, r.rangeStart, r.rangeEnd⟩

end Map

/-! ## The loop is a search -/

/-- The records the loop looks at. -/
def records (n : RecordCells) (rec : ℕ → U32) (cellsLeft : U32) : List Record :=
  (List.range (cellsLeft.toNat / n.record.toNat)).map fun k =>
    readRecord n fun i => rec (k * n.record.toNat + i)

theorem records_of_lt {n : RecordCells} {rec : ℕ → U32} {cellsLeft : U32}
    (h : ¬ (n.record ≠ 0 ∧ n.record ≤ cellsLeft)) : records n rec cellsLeft = [] := by
  have hzero : cellsLeft.toNat / n.record.toNat = 0 := by
    rw [Nat.div_eq_zero_iff]
    by_cases h0 : n.record = 0
    · exact Or.inl (by rw [h0]; rfl)
    · exact Or.inr (not_le.mp fun hle => h ⟨h0, hle⟩)
  rw [records, hzero, List.range_zero, List.map_nil]

theorem records_of_le {n : RecordCells} {rec : ℕ → U32} {cellsLeft : U32}
    (h : n.record ≠ 0 ∧ n.record ≤ cellsLeft) :
    records n rec cellsLeft = readRecord n rec
      :: records n (fun i => rec (n.record.toNat + i)) (cellsLeft - n.record) := by
  have hpos : 0 < n.record.toNat := Nat.pos_of_ne_zero fun h0 => h.1 (BitVec.eq_of_toNat_eq h0)
  have hsub : (cellsLeft - n.record).toNat = cellsLeft.toNat - n.record.toNat :=
    BitVec.toNat_sub_of_le h.2
  have hdiv : cellsLeft.toNat / n.record.toNat
      = (cellsLeft - n.record).toNat / n.record.toNat + 1 := by
    rw [hsub, Nat.div_eq_sub_div hpos h.2]
  rw [records, hdiv, List.range_succ_eq_map, List.map_cons, List.map_map, records]
  congr 1
  · simp only [Nat.zero_mul, Nat.zero_add]
  · refine List.map_congr_left fun k _ => ?_
    simp only [Function.comp_apply, Nat.succ_mul, Nat.add_assoc, Nat.add_left_comm]

/-- **The loop finds the first record that covers the span.** -/
theorem dtMapLoop_eq (n : RecordCells) (toParent : Bool) (addr len : U64) (rec : ℕ → U32)
    (cellsLeft : U32) :
    dtMapLoop n toParent addr len rec cellsLeft
      = ((records n rec cellsLeft).find? (·.covers toParent addr len)).map
          (·.mapped toParent addr) := by
  fun_induction dtMapLoop n toParent addr len rec cellsLeft with
  | case1 rec cellsLeft h hcov =>
    rw [records_of_le h, List.find?_cons_of_pos hcov, Option.map_some]
  | case2 rec cellsLeft h hcov ih => rw [ih, records_of_le h, List.find?_cons_of_neg hcov]
  | case3 rec cellsLeft h => rw [records_of_lt h, List.find?_nil, Option.map_none]

end Devtree
