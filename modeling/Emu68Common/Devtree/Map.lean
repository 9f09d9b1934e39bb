import Emu68Common.Devtree.Cells
import Emu68Common.Devtree.Window

/-!
# Devtree/Map — what `dtMap` maps, in unbounded numbers

A property lists ranges; a span is mapped by the first range it lies in, if there is one and the
result is below 4 GiB (`firstCovering`, `dtMap_exact`).  Neither the offsets the cover test works
with nor the 64-bit sums show in that: a property of records of at most two cells, none past the end
of the 64-bit space (`WellSized`), is read as it stands.

    records ──Reads──▸ ranges ──firstCovering──▸ dest + (addr - source), and the range's extent
-/

namespace Devtree

/-! ## Outputs -/

/-- What the caller of `dt_map` passes for its results: `*out`, and the two words of `from_range`
unless it is `NULL`. -/
structure Outputs where
  out : U32
  fromRange : Option (U32 × U32)
  deriving DecidableEq, Repr

/-- The stores at the end of `dt_map`. -/
def Outputs.store (o : Outputs) (r : MapResult) : Outputs where
  out := r.out
  fromRange := o.fromRange.map fun _ => (r.rangeStart, r.rangeEnd)

/-- `dt_map`'s return value, and its outputs afterwards. -/
def dtMapTo {Key : Type} (tree : DeviceTree Key) (bus : Option Key) (propname : String)
    (toParent : Bool) (addr len : U64) (o : Outputs) : Bool × Outputs :=
  match dtMap tree bus propname toParent addr len with
  | none => (false, o)
  | some r => (true, o.store r)

/-! ## Ranges -/

/-- A record, in unbounded numbers. -/
structure Range where
  child : ℕ
  parent : ℕ
  size : ℕ
  deriving DecidableEq, Repr

namespace Range

/-- Where the range starts on the side an address is looked up on. -/
def source (toParent : Bool) (r : Range) : ℕ := if toParent then r.child else r.parent

/-- Where it starts on the other side. -/
def dest (toParent : Bool) (r : Range) : ℕ := if toParent then r.parent else r.child

/-- `[addr, addr + len)` lies in the range. -/
def Covers (toParent : Bool) (addr len : ℕ) (r : Range) : Prop :=
  r.source toParent ≤ addr ∧ addr + len ≤ r.source toParent + r.size

instance (toParent : Bool) (addr len : ℕ) : DecidablePred (Covers toParent addr len) :=
  fun _ => instDecidableAnd

end Range

/-- Cells in a whole record, without bound. -/
def RecordCells.total (n : RecordCells) : ℕ := n.child.toNat + n.parent.toNat + n.size.toNat

/-- The range at a place in the property. -/
def readRange (n : RecordCells) (rec : ℕ → U32) : Range where
  child := number rec n.child.toNat
  parent := number (fun i => rec (n.child.toNat + i)) n.parent.toNat
  size := number (fun i => rec (n.child.toNat + n.parent.toNat + i)) n.size.toNat

/-- **The ranges of a property**: one for each whole record. -/
def ranges (n : RecordCells) (p : Property) : List Range :=
  (List.range (p.len.toNat / 4 / n.total)).map fun k =>
    readRange n fun i => p.value (k * n.total + i)

/-- The first range a span lies in. -/
def firstCovering (n : RecordCells) (p : Property) (toParent : Bool) (addr len : ℕ) :
    Option Range :=
  (ranges n p).find? fun r => decide (r.Covers toParent addr len)

/-- **A property as the specification has it**: at most two cells a number, some in a record, and no
record past the end of the 64-bit space. -/
structure WellSized (n : RecordCells) (p : Property) : Prop where
  child : n.child.toNat ≤ 2
  parent : n.parent.toNat ≤ 2
  size : n.size.toNat ≤ 2
  some_cell : n.total ≠ 0
  inside : ∀ r ∈ ranges n p, r.child + r.size ≤ 2 ^ 64 ∧ r.parent + r.size ≤ 2 ^ 64

/-! ## The records are the ranges -/

section Records

variable {n : RecordCells} {p : Property} {toParent : Bool} {addr len : U64} {r : Record}

/-- The range of a record. -/
def Record.range (r : Record) : Range := ⟨r.child.toNat, r.parent.toNat, r.size.toNat⟩

@[simp] theorem Record.source_range : r.range.source toParent = (r.source toParent).toNat := by
  cases toParent <;> rfl

@[simp] theorem Record.dest_range : r.range.dest toParent = (r.dest toParent).toNat := by
  cases toParent <;> rfl

namespace WellSized

variable (h : WellSized n p)

include h

theorem record_toNat : n.record.toNat = n.total := by
  have hchild := h.child
  have hparent := h.parent
  have hsize := h.size
  rw [RecordCells.record, RecordCells.total]
  bv_omega

theorem readRecord_range (rec : ℕ → U32) : (readRecord n rec).range = readRange n rec := by
  rw [Record.range, readRecord, readRange, getNumber_toNat h.child, getNumber_toNat h.parent,
    getNumber_toNat h.size]

/-- **Reading the records** is reading the ranges. -/
theorem ranges_eq : ranges n p = (records n p.value (p.len / 4)).map Record.range := by
  have hcells : (p.len / 4).toNat = p.len.toNat / 4 := rfl
  rw [ranges, records, List.map_map, h.record_toNat, hcells]
  exact List.map_congr_left fun k _ => (h.readRecord_range _).symm

end WellSized

/-- **The cover test is the range's**: the offsets it works with do not wrap. -/
theorem Record.covers_eq (hlen : 1 ≤ len.toNat) :
    r.covers toParent addr len = decide (r.range.Covers toParent addr.toNat len.toNat) := by
  rw [Bool.eq_iff_iff, decide_eq_true_iff, Range.Covers, source_range, Record.covers,
    Bool.and_eq_true, Bool.and_eq_true, decide_eq_true_iff, decide_eq_true_iff, decide_eq_true_iff]
  have hsize : r.range.size = r.size.toNat := rfl
  rw [hsize]
  generalize r.source toParent = source
  constructor
  · rintro ⟨⟨hle, hlt⟩, hfit⟩
    bv_omega
  · rintro ⟨hle, hfit⟩
    refine ⟨⟨?_, ?_⟩, ?_⟩ <;> bv_omega

/-- The search of the loop finds the first range the span lies in. -/
theorem firstCovering_eq (h : WellSized n p) (hlen : 1 ≤ len.toNat) :
    firstCovering n p toParent addr.toNat len.toNat
      = ((records n p.value (p.len / 4)).find? (·.covers toParent addr len)).map Record.range := by
  rw [firstCovering, h.ranges_eq, List.find?_map]
  congr 2
  funext r
  exact (Record.covers_eq hlen).symm

/-- **A covering record's result**, without the 64-bit sums. -/
theorem Record.mapped_exact (hcov : r.range.Covers toParent addr.toNat len.toNat)
    (hlen : 1 ≤ len.toNat) (hin : r.range.child + r.range.size ≤ 2 ^ 64 ∧
      r.range.parent + r.range.size ≤ 2 ^ 64) :
    (r.mapped toParent addr).mapped.toNat
        = r.range.dest toParent + (addr.toNat - r.range.source toParent)
      ∧ (r.mapped toParent addr).rangeStart.toNat = r.range.source toParent
      ∧ (if (r.mapped toParent addr).rangeEnd = 0 then top
          else min (r.mapped toParent addr).rangeEnd.toNat top)
        = min (r.range.source toParent + r.range.size) top := by
  have hsource : r.range.source toParent + r.range.size ≤ 2 ^ 64 := by
    cases toParent
    · exact hin.2
    · exact hin.1
  have hdest : r.range.dest toParent + r.range.size ≤ 2 ^ 64 := by
    cases toParent
    · exact hin.1
    · exact hin.2
  obtain ⟨hle, hfit⟩ := hcov
  have hsize : r.range.size = r.size.toNat := rfl
  rw [source_range] at hle
  rw [source_range, hsize] at hfit hsource
  rw [dest_range, hsize] at hdest
  rw [source_range, dest_range, hsize, Record.mapped, top]
  dsimp only
  generalize r.source toParent = source at *
  generalize r.dest toParent = dest at *
  clear hin hsize
  refine ⟨?_, rfl, ?_⟩
  · bv_omega
  · split <;> bv_omega

end Records

/-! ## The map -/

section Map

variable {Key : Type} {tree : DeviceTree Key} {bus : Option Key} {propname : String} {p : Property}
  {toParent : Bool} {addr len : U64} {r : Range}

/-- A bound of the extent, as `from_range` gets it. -/
def clip (bound : ℕ) : U32 := BitVec.ofNat 32 (min bound top)

theorem eq_clip {w : U32} {bound : ℕ} (h : w.toNat = min bound top) : w = clip bound := by
  have hlt : min bound top < 2 ^ 32 := (Nat.min_le_right _ _).trans_lt (by decide)
  exact BitVec.eq_of_toNat_eq (by rw [h, clip, BitVec.toNat_ofNat, Nat.mod_eq_of_lt hlt])

theorem cells_eq_zero : p.len / 4 = 0 ↔ p.len.toNat < 4 := by
  have hcells : (p.len / 4).toNat = p.len.toNat / 4 := rfl
  have hzero : (0 : U32).toNat = 0 := rfl
  rw [← BitVec.toNat_inj, hcells, hzero]
  omega

theorem firstCovering_spec {n : RecordCells} {addr len : ℕ}
    (h : firstCovering n p toParent addr len = some r) :
    r ∈ ranges n p ∧ r.Covers toParent addr len := by
  rw [firstCovering] at h
  have hcov := List.find?_some h
  exact ⟨List.mem_of_find?_eq_some h, of_decide_eq_true hcov⟩

/-- A property shorter than one cell maps what is below 4 GiB to itself. -/
theorem dtMap_of_short (hp : tree.findProperty bus propname = some p) (hlen : len ≠ 0)
    (hshort : p.len.toNat < 4) :
    dtMap tree bus propname toParent addr len
      = if addr.toNat + len.toNat ≤ 2 ^ 32 then some ⟨addr.setWidth 32, 0, 0xFFFFFFFF⟩
        else none := by
  rw [dtMap_of_empty hp (cells_eq_zero.mpr hshort)]
  split
  · rename_i hfit
    exact if_neg ((finish_test hlen).mpr hfit)
  · rename_i hfit
    exact dtMapFinish_of_lt hlen (not_le.mp hfit)

/-- **The first range the span lies in decides.** -/
theorem dtMap_of_firstCovering (hp : tree.findProperty bus propname = some p)
    (h : WellSized (recordCells tree bus) p) (hlen : 1 ≤ len.toNat)
    (hfirst : firstCovering (recordCells tree bus) p toParent addr.toNat len.toNat = some r) :
    dtMap tree bus propname toParent addr len
      = if r.dest toParent + (addr.toNat - r.source toParent) + len.toNat ≤ 2 ^ 32 then
          some ⟨BitVec.ofNat 32 (r.dest toParent + (addr.toNat - r.source toParent)),
            clip (r.source toParent), clip (r.source toParent + r.size)⟩
        else none := by
  have hne : len ≠ 0 := by bv_omega
  obtain ⟨hmem, hcov⟩ := firstCovering_spec hfirst
  have hin := h.inside r hmem
  have hcells : p.len / 4 ≠ 0 := by
    intro h0
    rw [firstCovering, h.ranges_eq, h0, records_of_lt] at hfirst
    · cases hfirst
    · rintro ⟨hrec, hle⟩
      exact hrec (BitVec.eq_of_toNat_eq (Nat.le_zero.mp hle))
  rw [firstCovering_eq h hlen, Option.map_eq_some_iff] at hfirst
  obtain ⟨rec, hrec, rfl⟩ := hfirst
  obtain ⟨hmapped, hstart, hstop⟩ := Record.mapped_exact hcov hlen hin
  rw [dtMap_of_records hp hcells, hrec, Option.bind_some, ← hmapped]
  split
  · rename_i hfit
    obtain ⟨s, e, hres⟩ := dtMapFinish_of_le hne hfit
    obtain ⟨-, -, hs, he⟩ := dtMapFinish_eq_some hne hres
    rw [hstart] at hs
    rw [hres, ← eq_clip hs, ← eq_clip (he.trans hstop)]
    rfl
  · rename_i hfit
    exact dtMapFinish_of_lt hne (not_le.mp hfit)

/-- A span that no range holds is not mapped. -/
theorem dtMap_of_none (hp : tree.findProperty bus propname = some p)
    (h : WellSized (recordCells tree bus) p) (hlen : 1 ≤ len.toNat) (hlong : 4 ≤ p.len.toNat)
    (hfirst : firstCovering (recordCells tree bus) p toParent addr.toNat len.toNat = none) :
    dtMap tree bus propname toParent addr len = none := by
  rw [firstCovering_eq h hlen, Option.map_eq_none_iff] at hfirst
  have hcells : p.len / 4 ≠ 0 := fun h0 => absurd (cells_eq_zero.mp h0) (not_lt.mpr hlong)
  rw [dtMap_of_records hp hcells, hfirst, Option.bind_none]

/-- **The cells past the whole records are not read**, whatever they hold. -/
theorem records_congr {n : RecordCells} (h : WellSized n p) {value : ℕ → U32}
    (hvalue : ∀ i < p.len.toNat / 4 / n.total * n.total, value i = p.value i) :
    records n value (p.len / 4) = records n p.value (p.len / 4) := by
  refine List.map_congr_left fun k hk => ?_
  have hcells : (p.len / 4).toNat = p.len.toNat / 4 := rfl
  rw [List.mem_range, h.record_toNat, hcells] at hk
  have hrecord : k * n.total + n.total ≤ p.len.toNat / 4 / n.total * n.total := by
    rw [← Nat.succ_mul]
    exact Nat.mul_le_mul_right _ hk
  rw [h.record_toNat]
  rw [RecordCells.total] at hrecord hvalue ⊢
  rw [readRecord, readRecord]
  congr 1 <;> refine getNumber_congr fun i hi => hvalue _ ?_ <;> omega

theorem dtMap_congr {tree' : DeviceTree Key} {value : ℕ → U32}
    (hp : tree.findProperty bus propname = some p)
    (hp' : tree'.findProperty bus propname = some ⟨p.len, value⟩)
    (hcells : recordCells tree' bus = recordCells tree bus)
    (h : WellSized (recordCells tree bus) p)
    (hvalue : ∀ i < p.len.toNat / 4 / (recordCells tree bus).total * (recordCells tree bus).total,
      value i = p.value i) :
    dtMap tree' bus propname toParent addr len = dtMap tree bus propname toParent addr len := by
  by_cases h0 : p.len / 4 = 0
  · rw [dtMap_of_empty hp' h0, dtMap_of_empty hp h0]
  · rw [dtMap_of_records hp' h0, dtMap_of_records hp h0, hcells, records_congr h hvalue]

/-- A property shorter than one cell has no ranges. -/
theorem firstCovering_of_short {n : RecordCells} {addr len : ℕ} (hshort : p.len.toNat < 4) :
    firstCovering n p toParent addr len = none := by
  rw [firstCovering, ranges, Nat.div_eq_of_lt hshort, Nat.zero_div]
  rfl

/-- The outputs are those of a result that is or is not there. -/
theorem dtMapTo_of_ite {fits : Prop} [Decidable fits] {res : MapResult} {o : Outputs}
    (h : dtMap tree bus propname toParent addr len = if fits then some res else none) :
    ((dtMapTo tree bus propname toParent addr len o).1 = true ↔ fits)
      ∧ ((dtMapTo tree bus propname toParent addr len o).1 = true →
        (dtMapTo tree bus propname toParent addr len o).2 = o.store res)
      ∧ ((dtMapTo tree bus propname toParent addr len o).1 = false →
        (dtMapTo tree bus propname toParent addr len o).2 = o) := by
  rw [dtMapTo, h]
  split
  · rename_i hfits hnone
    rw [ite_eq_right_iff] at hnone
    refine ⟨iff_of_false Bool.false_ne_true fun hfits => ?_, fun hf => absurd hf ?_, fun _ => rfl⟩
    · exact absurd (hnone hfits) (Option.some_ne_none _)
    · exact Bool.false_ne_true
  · rename_i r hsome
    obtain ⟨hfits, hres⟩ := Option.ite_none_right_eq_some.mp hsome
    obtain rfl := Option.some.inj hres
    exact ⟨iff_of_true rfl hfits, fun _ => rfl, fun hf => absurd hf.symm Bool.false_ne_true⟩

variable (toParent addr) in
/-- **Bus translation is exact.**  A span is mapped when the property is shorter than one cell, or
the first range it lies in maps it, to an end of at most 4 GiB; the outputs are then the address on
the other side and that range's extent, clipped.  A span that is not mapped leaves the outputs
alone, and no cell past the whole records counts. -/
theorem dtMap_exact (hp : tree.findProperty bus propname = some p)
    (h : WellSized (recordCells tree bus) p) (hlen : 1 ≤ len.toNat) (o : Outputs) :
    ((dtMapTo tree bus propname toParent addr len o).1 = true ↔
        (p.len.toNat < 4 ∧ addr.toNat + len.toNat ≤ 2 ^ 32)
          ∨ ∃ r, firstCovering (recordCells tree bus) p toParent addr.toNat len.toNat = some r
            ∧ r.dest toParent + (addr.toNat - r.source toParent) + len.toNat ≤ 2 ^ 32)
      ∧ ((dtMapTo tree bus propname toParent addr len o).1 = true → p.len.toNat < 4 →
          (dtMapTo tree bus propname toParent addr len o).2
            = o.store ⟨BitVec.ofNat 32 addr.toNat, 0, 0xFFFFFFFF⟩)
      ∧ (∀ r, (dtMapTo tree bus propname toParent addr len o).1 = true →
          firstCovering (recordCells tree bus) p toParent addr.toNat len.toNat = some r →
          (dtMapTo tree bus propname toParent addr len o).2
            = o.store ⟨BitVec.ofNat 32 (r.dest toParent + (addr.toNat - r.source toParent)),
                clip (r.source toParent), clip (r.source toParent + r.size)⟩)
      ∧ ((dtMapTo tree bus propname toParent addr len o).1 = false →
          (dtMapTo tree bus propname toParent addr len o).2 = o)
      ∧ ∀ (tree' : DeviceTree Key) (value : ℕ → U32),
          tree'.findProperty bus propname = some ⟨p.len, value⟩ →
          recordCells tree' bus = recordCells tree bus →
          (∀ i < p.len.toNat / 4 / (recordCells tree bus).total * (recordCells tree bus).total,
            value i = p.value i) →
          dtMapTo tree' bus propname toParent addr len o
            = dtMapTo tree bus propname toParent addr len o := by
  have hrest : ∀ (tree' : DeviceTree Key) (value : ℕ → U32),
      tree'.findProperty bus propname = some ⟨p.len, value⟩ →
      recordCells tree' bus = recordCells tree bus →
      (∀ i < p.len.toNat / 4 / (recordCells tree bus).total * (recordCells tree bus).total,
        value i = p.value i) →
      dtMapTo tree' bus propname toParent addr len o
        = dtMapTo tree bus propname toParent addr len o := by
    intro tree' value hp' hcells hvalue
    rw [dtMapTo, dtMapTo, dtMap_congr hp hp' hcells h hvalue]
  have hne : len ≠ 0 := by
    rintro rfl
    exact absurd hlen (by decide)
  by_cases hshort : p.len.toNat < 4
  · have hnone : firstCovering (recordCells tree bus) p toParent addr.toNat len.toNat = none :=
      firstCovering_of_short hshort
    obtain ⟨hiff, hstore, hsame⟩ := dtMapTo_of_ite (o := o)
      (dtMap_of_short hp hne hshort)
    refine ⟨?_, fun hok _ => hstore hok, fun r _ hr => ?_, hsame, hrest⟩
    · rw [hiff, hnone]
      exact ⟨fun hfit => Or.inl ⟨hshort, hfit⟩, fun hcase => hcase.elim And.right
        fun ⟨_, hr, _⟩ => absurd hr.symm (Option.some_ne_none _)⟩
    · rw [hnone] at hr
      cases hr
  · cases hfirst : firstCovering (recordCells tree bus) p toParent addr.toNat len.toNat with
    | none =>
      have hmap := dtMap_of_none hp h hlen (not_lt.mp hshort) hfirst
      have hto : dtMapTo tree bus propname toParent addr len o = (false, o) := by
        rw [dtMapTo, hmap]
      rw [hto]
      refine ⟨iff_of_false Bool.false_ne_true ?_, fun hok => absurd hok Bool.false_ne_true,
        fun _ hok => absurd hok Bool.false_ne_true, fun _ => rfl, hto ▸ hrest⟩
      rintro (⟨hlt, -⟩ | ⟨r, hr, -⟩)
      · exact hshort hlt
      · cases hr
    | some r =>
      obtain ⟨hiff, hstore, hsame⟩ :=
        dtMapTo_of_ite (o := o) (dtMap_of_firstCovering hp h hlen hfirst)
      refine ⟨?_, fun _ hlt => absurd hlt hshort, ?_, hsame, hrest⟩
      · rw [hiff]
        refine ⟨fun hfit => Or.inr ⟨r, rfl, hfit⟩, ?_⟩
        rintro (⟨hlt, -⟩ | ⟨r', hr, hfit⟩)
        · exact absurd hlt hshort
        · obtain rfl := Option.some.inj hr
          exact hfit
      · intro r' hok hr
        obtain rfl := Option.some.inj hr
        exact hstore hok

end Map

/-! ## Two GiB at bus address `0xC0000000` -/

/-- The property of `twoGiBAtC0000000`. -/
def dmaRangesTwoGiB : Property where
  len := 20
  value i := [0, 0xC0000000, 0, 0, 0x80000000].getD i 0

theorem wellSized_twoGiB : WellSized (recordCells twoGiBAtC0000000 (some 1)) dmaRangesTwoGiB where
  child := by decide
  parent := by decide
  size := by decide
  some_cell := by decide
  inside := by decide

theorem firstCovering_twoGiB :
    firstCovering (recordCells twoGiBAtC0000000 (some 1)) dmaRangesTwoGiB false 0x1000 16
      = some ⟨0xC0000000, 0, 0x80000000⟩ := by
  decide

/-- **A span of CPU memory** is found at its bus address, in the record's window. -/
theorem dtMap_exact_twoGiB :
    dtMapTo twoGiBAtC0000000 (some 1) "dma-ranges" false 0x1000 16 ⟨0, some (0, 0)⟩
      = (true, ⟨0xC0001000, some (0, 0x80000000)⟩) := by
  obtain ⟨hiff, -, hstore, -⟩ := dtMap_exact false 0x1000
    (rfl : twoGiBAtC0000000.findProperty (some 1) "dma-ranges" = some dmaRangesTwoGiB)
    wellSized_twoGiB (by decide : 1 ≤ (16 : U64).toNat) ⟨0, some (0, 0)⟩
  have hok := hiff.mpr (Or.inr ⟨_, firstCovering_twoGiB, by decide⟩)
  exact Prod.ext hok ((hstore _ hok firstCovering_twoGiB).trans (by decide))

end Devtree
