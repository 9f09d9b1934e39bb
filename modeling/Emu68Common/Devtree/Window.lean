import Emu68Common.Devtree.Tree
import Mathlib.Data.List.Pairwise
import Mathlib.Data.Set.BooleanAlgebra
import Mathlib.Order.CompletePartialOrder
import Mathlib.Order.Interval.Set.Basic
import Mathlib.Tactic.Ring

/-!
# Devtree/Window — the DMA window against the lookup it stands for

`getDmaWindow` hands out the covering record's extent on the CPU side, so that a driver can test a
buffer against two bounds instead of looking it up (`Agrees`).  The extent is clipped to 32 bits on
the CPU side only; the lookup also refuses what does not fit 32 bits on the bus side.  So the two
agree exactly when the record's part below 4 GiB lands below 4 GiB too (`FitsBus`,
`window_agrees_iff`).
-/

namespace Devtree

variable {Key : Type} {tree : DeviceTree Key} {key : Option Key}

/-- The top of a 32-bit window, which is never past `0xFFFFFFFF`. -/
def top : ℕ := 2 ^ 32 - 1

/-! ## Records as sets of addresses -/

/-- The CPU addresses of a `dma-ranges` record. -/
def Record.cpuBlock (r : Record) : Set ℕ := Set.Ico r.parent.toNat (r.parent.toNat + r.size.toNat)

/-- A record that does not wrap past the end of the 64-bit space. -/
def Record.NoWrap (r : Record) : Prop := r.parent.toNat + r.size.toNat ≤ 2 ^ 64

/-- **The part of a record below 4 GiB is below 4 GiB on the bus side too.** -/
def Record.FitsBus (r : Record) : Prop :=
  r.child.toNat + (min (r.parent.toNat + r.size.toNat) top - r.parent.toNat) ≤ 2 ^ 32

/-- The records of the `dma-ranges` a device's bus has. -/
def dmaRanges (tree : DeviceTree Key) (key : Option Key) : List Record :=
  match tree.findProperty (tree.getParent key) "dma-ranges" with
  | none => []
  | some p => records (recordCells tree (tree.getParent key)) p.value (p.len / 4)

/-- Records with no CPU address in common. -/
def NoOverlap (l : List Record) : Prop := l.Pairwise fun r s => Disjoint r.cpuBlock s.cpuBlock

/-- **Covering, without offsets.** -/
theorem covers_iff {r : Record} {addr len : U64} :
    r.covers false addr len = true ↔ r.parent.toNat ≤ addr.toNat
      ∧ addr.toNat < r.parent.toNat + r.size.toNat
      ∧ addr.toNat + len.toNat ≤ r.parent.toNat + r.size.toNat := by
  have hsource : r.source false = r.parent := rfl
  rw [Record.covers, hsource, Bool.and_eq_true, Bool.and_eq_true, decide_eq_true_iff,
    decide_eq_true_iff, decide_eq_true_iff]
  constructor
  · rintro ⟨⟨hle, hlt⟩, hlen⟩
    bv_omega
  · rintro ⟨hle, hlt, hlen⟩
    refine ⟨⟨?_, ?_⟩, ?_⟩ <;> bv_omega

/-- Records without overlap: whichever covers a span is the one the search finds. -/
theorem find_covers {l : List Record} (hl : NoOverlap l) {r : Record} (hr : r ∈ l)
    {addr len : U64} (hcov : r.covers false addr len = true) :
    l.find? (·.covers false addr len) = some r := by
  cases hfind : l.find? (·.covers false addr len) with
  | none => exact absurd hcov (List.find?_eq_none.mp hfind r hr)
  | some s =>
    have hs := List.mem_of_find?_eq_some hfind
    have hcov' := covers_iff.mp (List.find?_some hfind)
    have hcov := covers_iff.mp hcov
    by_contra hne
    have : Std.Symm fun r s : Record => Disjoint r.cpuBlock s.cpuBlock := ⟨fun _ _ h => h.symm⟩
    have hdis := List.Pairwise.forall hl hs hr fun h => hne (by rw [h])
    exact Set.disjoint_left.mp hdis ⟨hcov'.1, hcov'.2.1⟩ ⟨hcov.1, hcov.2.1⟩

/-! ## What the map returns -/

/-- The test at the end, as one bound. -/
theorem finish_test {len mapped : U64} (hlen : len ≠ 0) :
    ¬ (mapped > 0xFFFFFFFF ∨ len - 1 > 0xFFFFFFFF - mapped)
      ↔ mapped.toNat + len.toNat ≤ 2 ^ 32 := by
  bv_omega

theorem dtMapFinish_of_le {len : U64} {m : Mapped} (hlen : len ≠ 0)
    (h : m.mapped.toNat + len.toNat ≤ 2 ^ 32) :
    ∃ s e, dtMapFinish len m = some ⟨m.mapped.setWidth 32, s, e⟩ :=
  ⟨_, _, if_neg ((finish_test hlen).mpr h)⟩

theorem dtMapFinish_eq_some {len : U64} {m : Mapped} {res : MapResult} (hlen : len ≠ 0)
    (h : dtMapFinish len m = some res) :
    m.mapped.toNat + len.toNat ≤ 2 ^ 32 ∧ res.out = m.mapped.setWidth 32
      ∧ (res.rangeStart.toNat = min m.rangeStart.toNat top)
      ∧ res.rangeEnd.toNat = if m.rangeEnd = 0 then top else min m.rangeEnd.toNat top := by
  rw [dtMapFinish] at h
  split at h
  · cases h
  · rename_i hfit
    obtain rfl := Option.some.inj h
    refine ⟨(finish_test hlen).mp hfit, rfl, ?_, ?_⟩
    · simp only [top]
      split <;> bv_omega
    · simp only [top]
      split <;> split <;> bv_omega

theorem dtMapFinish_of_lt {len : U64} {m : Mapped} (hlen : len ≠ 0)
    (h : 2 ^ 32 < m.mapped.toNat + len.toNat) : dtMapFinish len m = none :=
  if_pos (not_not.mp fun hn => absurd ((finish_test hlen).mp hn) (by omega))

/-- **The search and the end together**, for a bus that has records. -/
theorem dtMap_of_records {bus : Option Key} {propname : String} {p : Property} {toParent : Bool}
    {addr len : U64} (hp : tree.findProperty bus propname = some p) (hne : p.len / 4 ≠ 0) :
    dtMap tree bus propname toParent addr len
      = ((records (recordCells tree bus) p.value (p.len / 4)).find?
          (·.covers toParent addr len)).bind fun r => dtMapFinish len (r.mapped toParent addr) := by
  rw [dtMap, hp]
  simp only [if_neg hne, dtMapLoop_eq, Option.bind_map]
  rfl

theorem dtMap_of_empty {bus : Option Key} {propname : String} {p : Property} {toParent : Bool}
    {addr len : U64} (hp : tree.findProperty bus propname = some p) (he : p.len / 4 = 0) :
    dtMap tree bus propname toParent addr len = dtMapFinish len ⟨addr, 0, 0⟩ := by
  rw [dtMap, hp]
  simp only [he, if_true, Option.bind_some]

theorem dmaRanges_of_some {p : Property}
    (hp : tree.findProperty (tree.getParent key) "dma-ranges" = some p) :
    dmaRanges tree key = records (recordCells tree (tree.getParent key)) p.value (p.len / 4) := by
  rw [dmaRanges, hp]

theorem setWidth_ne_zero {a : U32} (h : a ≠ 0) : a.setWidth 64 ≠ 0 := by
  bv_omega

/-- A covering record's address on the bus side. -/
theorem mapped_toNat {r : Record} {addr : U64} (hle : r.parent.toNat ≤ addr.toNat)
    (h : r.child.toNat + (addr.toNat - r.parent.toNat) < 2 ^ 64) :
    (r.mapped false addr).mapped.toNat = r.child.toNat + (addr.toNat - r.parent.toNat) := by
  have hm : (r.mapped false addr).mapped = r.child + (addr - r.parent) := rfl
  rw [hm]
  bv_omega

/-! ## The window -/

/-- **What the window promises**: every buffer inside it is reachable, at one constant offset. -/
def Agrees (tree : DeviceTree Key) (key : Option Key) (phys : U32) (w : DmaWindow) : Prop :=
  ∀ addr size : U32, size ≠ 0 → w.cpuStart ≤ addr → addr < w.cpuEnd → size ≤ w.cpuEnd - addr →
    getDmaAddress tree key addr size = some (addr + (w.dma - phys))

/-- Where a successful window comes from. -/
inductive WindowFrom (tree : DeviceTree Key) (key : Option Key) (phys len : U32) (w : DmaWindow) :
    Prop where
  /-- a property without cells: everything, one to one -/
  | everything (p : Property) (hp : tree.findProperty (tree.getParent key) "dma-ranges" = some p)
      (he : p.len / 4 = 0) (hdma : w.dma = phys) (hend : w.cpuEnd.toNat = top)
  /-- a record that covers the span -/
  | record (p : Property) (hp : tree.findProperty (tree.getParent key) "dma-ranges" = some p)
      (hne : p.len / 4 ≠ 0) (r : Record)
      (hfind : (dmaRanges tree key).find?
        (·.covers false (phys.setWidth 64) (len.setWidth 64)) = some r)
      (hfit : (r.mapped false (phys.setWidth 64)).mapped.toNat + len.toNat ≤ 2 ^ 32)
      (hdma : w.dma = (r.mapped false (phys.setWidth 64)).mapped.setWidth 32)
      (hstart : w.cpuStart.toNat = min r.parent.toNat top)
      (hend : w.cpuEnd.toNat
        = if r.parent + r.size = 0 then top else min (r.parent + r.size).toNat top)

theorem windowFrom {phys len : U32} {w : DmaWindow} (hlen : len ≠ 0)
    (h : getDmaWindow tree key phys len = some w) : WindowFrom tree key phys len w := by
  rw [getDmaWindow, if_neg hlen, Option.map_eq_some_iff] at h
  obtain ⟨res, hres, rfl⟩ := h
  cases hp : tree.findProperty (tree.getParent key) "dma-ranges" with
  | none =>
    rw [dtMap, hp] at hres
    cases hres
  | some p =>
    by_cases he : p.len / 4 = 0
    · rw [dtMap_of_empty hp he] at hres
      obtain ⟨-, hout, -, hend⟩ := dtMapFinish_eq_some (setWidth_ne_zero hlen) hres
      refine .everything p hp he (hout.trans ?_) hend
      exact BitVec.setWidth_setWidth_of_le phys (by decide)
    · rw [dtMap_of_records hp he, Option.bind_eq_some_iff] at hres
      obtain ⟨r, hfind, hfinish⟩ := hres
      obtain ⟨hfit, hout, hstart, hend⟩ := dtMapFinish_eq_some (setWidth_ne_zero hlen) hfinish
      rw [← dmaRanges_of_some hp] at hfind
      refine .record p hp he r hfind ?_ hout hstart hend
      rwa [BitVec.toNat_setWidth_of_le (by decide)] at hfit

/-- The lookup of a buffer its record covers. -/
theorem getDmaAddress_of_find {p : Property} {r : Record} {addr size : U32} (hsize : size ≠ 0)
    (hp : tree.findProperty (tree.getParent key) "dma-ranges" = some p) (hne : p.len / 4 ≠ 0)
    (hfind : (dmaRanges tree key).find?
      (·.covers false (addr.setWidth 64) (size.setWidth 64)) = some r) :
    getDmaAddress tree key addr size
      = (dtMapFinish (size.setWidth 64) (r.mapped false (addr.setWidth 64))).map (·.out) := by
  rw [dmaRanges_of_some hp] at hfind
  rw [getDmaAddress, if_neg hsize, dtMap_of_records hp hne, hfind, Option.bind_some]

/-- A bus that maps everything one to one agrees with its window. -/
theorem agrees_of_everything {phys : U32} {w : DmaWindow} {p : Property}
    (hp : tree.findProperty (tree.getParent key) "dma-ranges" = some p) (he : p.len / 4 = 0)
    (hdma : w.dma = phys) (hend : w.cpuEnd.toNat = top) : Agrees tree key phys w := by
  intro addr size hsize _ hlt hle
  have hfit : (addr.setWidth 64).toNat + (size.setWidth 64).toNat ≤ 2 ^ 32 := by
    rw [top] at hend
    bv_omega
  obtain ⟨s, e, hfinish⟩ :=
    dtMapFinish_of_le (m := ⟨addr.setWidth 64, 0, 0⟩) (setWidth_ne_zero hsize) hfit
  rw [getDmaAddress, if_neg hsize, dtMap_of_empty hp he, hfinish, Option.map_some, hdma, sub_self,
    add_zero, BitVec.setWidth_setWidth_of_le addr (by decide), BitVec.setWidth_eq]

/-- One record maps every address by the same offset. -/
theorem mapped_offset (r : Record) (addr phys : U32) :
    (r.mapped false (addr.setWidth 64)).mapped.setWidth 32
      = addr + ((r.mapped false (phys.setWidth 64)).mapped.setWidth 32 - phys) := by
  have hm : ∀ a : U32, (r.mapped false (a.setWidth 64)).mapped.setWidth 32
      = r.child.setWidth 32 + (a - r.parent.setWidth 32) := by
    intro a
    have hdef : (r.mapped false (a.setWidth 64)).mapped =
      r.child + (a.setWidth 64 - r.parent) := rfl
    rw [hdef, BitVec.setWidth_add _ _ (by decide)]
    congr 1
    bv_omega
  rw [hm, hm]
  ring

/-- **A record agrees with its window exactly when it fits the bus side.** -/
theorem agrees_iff_fitsBus {phys len : U32} {w : DmaWindow} {p : Property} {r : Record}
    (hdis : NoOverlap (dmaRanges tree key)) (hwrap : r.NoWrap) (hlen : len ≠ 0)
    (hp : tree.findProperty (tree.getParent key) "dma-ranges" = some p) (hne : p.len / 4 ≠ 0)
    (hfind : (dmaRanges tree key).find?
      (·.covers false (phys.setWidth 64) (len.setWidth 64)) = some r)
    (hfit : (r.mapped false (phys.setWidth 64)).mapped.toNat + len.toNat ≤ 2 ^ 32)
    (hdma : w.dma = (r.mapped false (phys.setWidth 64)).mapped.setWidth 32)
    (hstart : w.cpuStart.toNat = min r.parent.toNat top)
    (hend : w.cpuEnd.toNat =
      if r.parent + r.size = 0 then top else min (r.parent + r.size).toNat top) :
    Agrees tree key phys w ↔ r.FitsBus := by
  have hcov := covers_iff.mp (List.find?_some hfind)
  have hr := List.mem_of_find?_eq_some hfind
  rw [BitVec.toNat_setWidth_of_le (by decide), BitVec.toNat_setWidth_of_le (by decide)] at hcov
  rw [Record.NoWrap] at hwrap
  have hphys := phys.isLt
  have hs : w.cpuStart.toNat = r.parent.toNat := by
    rw [hstart, top]
    omega
  have he : w.cpuEnd.toNat = min (r.parent.toNat + r.size.toNat) top := by
    rw [hend, top]
    split <;> bv_omega
  -- whatever lies in the window, the search finds this record for it
  have hlookup : ∀ addr size : U32, size ≠ 0 → r.parent.toNat ≤ addr.toNat →
      addr.toNat + size.toNat ≤ w.cpuEnd.toNat → getDmaAddress tree key addr size
        = (dtMapFinish (size.setWidth 64) (r.mapped false (addr.setWidth 64))).map (·.out) := by
    intro addr size hsize hle hend'
    refine getDmaAddress_of_find hsize hp hne (find_covers hdis hr (covers_iff.mpr ?_))
    rw [BitVec.toNat_setWidth_of_le (by decide), BitVec.toNat_setWidth_of_le (by decide)]
    bv_omega
  constructor
  · intro hagree
    rw [Record.FitsBus, ← he]
    by_cases hempty : w.cpuEnd.toNat ≤ r.parent.toNat
    · have hphys' : phys.toNat = r.parent.toNat := by
        rw [top] at he
        omega
      have hmapped := mapped_toNat (r := r)
        (by rw [BitVec.toNat_setWidth_of_le (by decide)]; omega : _ ≤ (phys.setWidth 64).toNat)
        (by rw [BitVec.toNat_setWidth_of_le (by decide)]; have := r.child.isLt; omega)
      rw [BitVec.toNat_setWidth_of_le (by decide)] at hmapped
      omega
    · have hsize : w.cpuEnd - w.cpuStart ≠ 0 := by bv_omega
      have hsz : (w.cpuEnd - w.cpuStart).toNat = w.cpuEnd.toNat - r.parent.toNat := by bv_omega
      have hsome := hagree w.cpuStart (w.cpuEnd - w.cpuStart) hsize (BitVec.le_refl _) (by bv_omega)
        (BitVec.le_refl _)
      rw [hlookup _ _ hsize hs.ge (by omega), Option.map_eq_some_iff] at hsome
      obtain ⟨res, hres, -⟩ := hsome
      have hle := (dtMapFinish_eq_some (setWidth_ne_zero hsize) hres).1
      have hmapped := mapped_toNat (r := r)
        (by rw [BitVec.toNat_setWidth_of_le (by decide)]; omega :
          _ ≤ (w.cpuStart.setWidth 64).toNat)
        (by rw [BitVec.toNat_setWidth_of_le (by decide)]; have := r.child.isLt; omega)
      rw [hmapped, BitVec.toNat_setWidth_of_le (by decide),
        BitVec.toNat_setWidth_of_le (by decide), hsz] at hle
      omega
  · intro hbus addr size hsize hle hlt hsz
    rw [Record.FitsBus, ← he] at hbus
    have hge : r.parent.toNat ≤ addr.toNat := hs ▸ hle
    have hupto : addr.toNat + size.toNat ≤ w.cpuEnd.toNat := by bv_omega
    have hmapped := mapped_toNat (r := r)
      (by rw [BitVec.toNat_setWidth_of_le (by decide)]; omega : _ ≤ (addr.setWidth 64).toNat)
      (by rw [BitVec.toNat_setWidth_of_le (by decide)]; omega)
    obtain ⟨s, e, hfinish⟩ := dtMapFinish_of_le (m := r.mapped false (addr.setWidth 64))
      (setWidth_ne_zero hsize) (by
        rw [hmapped, BitVec.toNat_setWidth_of_le (by decide),
          BitVec.toNat_setWidth_of_le (by decide)]
        omega)
    rw [hlookup addr size hsize hge hupto, hfinish, Option.map_some, hdma, ← mapped_offset]

/-- **The window agrees with the lookup exactly when the covering record, if there is one, fits the
bus side.** -/
theorem window_agrees_iff {phys len : U32} {w : DmaWindow}
    (hdis : NoOverlap (dmaRanges tree key)) (hwrap : ∀ r ∈ dmaRanges tree key, r.NoWrap)
    (hlen : len ≠ 0) (h : getDmaWindow tree key phys len = some w) :
    Agrees tree key phys w ↔ ∀ r, (dmaRanges tree key).find?
      (·.covers false (phys.setWidth 64) (len.setWidth 64)) = some r → r.FitsBus := by
  cases windowFrom hlen h with
  | everything p hp he hdma hend =>
    have hnone : dmaRanges tree key = [] := by
      rw [dmaRanges_of_some hp, he]
      exact records_of_lt fun hrec => hrec.1 (BitVec.eq_of_toNat_eq (Nat.le_zero.mp hrec.2))
    refine iff_of_true (agrees_of_everything hp he hdma hend) fun r hr => ?_
    rw [hnone] at hr
    cases hr
  | record p hp hne r hfind hfit hdma hstart hend =>
    rw [agrees_iff_fitsBus hdis (hwrap r (List.mem_of_find?_eq_some hfind)) hlen hp hne hfind hfit
      hdma hstart hend]
    refine ⟨fun hbus r' hr' => ?_, fun hall => hall r hfind⟩
    rw [hfind] at hr'
    rwa [← Option.some.inj hr']

/-! ## A record that ends past 4 GiB on the bus side -/

/-- A bus whose one record takes the lowest 2 GiB to bus address `0xC0000000` on: a root, the bus,
and a device on it. -/
def twoGiBAtC0000000 : DeviceTree (Fin 3) where
  getParent
    | some 2 => some 1
    | _ => some 0
  findProperty key propname :=
    if key = some 1 ∧ propname = "dma-ranges" then
      some ⟨20, fun i => [0, 0xC0000000, 0, 0, 0x80000000].getD i 0⟩
    else none

theorem dmaRanges_twoGiBAtC0000000 :
    dmaRanges twoGiBAtC0000000 (some 2) = [⟨0xC0000000, 0, 0x80000000⟩] := by
  decide

theorem noOverlap_twoGiBAtC0000000 : NoOverlap (dmaRanges twoGiBAtC0000000 (some 2)) := by
  rw [dmaRanges_twoGiBAtC0000000]
  exact List.pairwise_singleton _ _

theorem noWrap_twoGiBAtC0000000 : ∀ r ∈ dmaRanges twoGiBAtC0000000 (some 2), r.NoWrap := by
  rw [dmaRanges_twoGiBAtC0000000]
  intro r hr
  rw [List.mem_singleton.mp hr, Record.NoWrap]
  decide

theorem findProperty_twoGiBAtC0000000 :
    twoGiBAtC0000000.findProperty (twoGiBAtC0000000.getParent (some 2)) "dma-ranges"
      = some ⟨20, fun i => [0, 0xC0000000, 0, 0, 0x80000000].getD i 0⟩ := rfl

theorem getDmaWindow_twoGiBAtC0000000 :
    getDmaWindow twoGiBAtC0000000 (some 2) 0 1 = some ⟨0xC0000000, 0, 0x80000000⟩ := by
  rw [getDmaWindow, if_neg (by decide),
    dtMap_of_records findProperty_twoGiBAtC0000000 (by decide),
    ← dmaRanges_of_some findProperty_twoGiBAtC0000000, dmaRanges_twoGiBAtC0000000]
  decide

/-- **The window reaches past what the lookup grants**: `0x40000000` is in it, and would be bus
address `0x100000000`. -/
theorem window_disagrees :
    NoOverlap (dmaRanges twoGiBAtC0000000 (some 2))
      ∧ (∀ r ∈ dmaRanges twoGiBAtC0000000 (some 2), r.NoWrap)
      ∧ getDmaWindow twoGiBAtC0000000 (some 2) 0 1 = some ⟨0xC0000000, 0, 0x80000000⟩
      ∧ getDmaAddress twoGiBAtC0000000 (some 2) 0x40000000 1 = none
      ∧ ¬ Agrees twoGiBAtC0000000 (some 2) 0 ⟨0xC0000000, 0, 0x80000000⟩ := by
  have hnone : getDmaAddress twoGiBAtC0000000 (some 2) 0x40000000 1 = none := by
    rw [getDmaAddress, if_neg (by decide),
      dtMap_of_records findProperty_twoGiBAtC0000000 (by decide),
      ← dmaRanges_of_some findProperty_twoGiBAtC0000000, dmaRanges_twoGiBAtC0000000]
    decide
  refine ⟨noOverlap_twoGiBAtC0000000, noWrap_twoGiBAtC0000000, getDmaWindow_twoGiBAtC0000000,
    hnone, fun hagree => ?_⟩
  have hsome := hagree 0x40000000 1 (by decide) (by decide) (by decide) (by decide)
  rw [hnone] at hsome
  cases hsome

theorem window_agrees_iff_twoGiBAtC0000000 :
    Agrees twoGiBAtC0000000 (some 2) 0 ⟨0xC0000000, 0, 0x80000000⟩
      ↔ ∀ r, (dmaRanges twoGiBAtC0000000 (some 2)).find?
        (·.covers false ((0 : U32).setWidth 64) ((1 : U32).setWidth 64)) = some r → r.FitsBus :=
  window_agrees_iff noOverlap_twoGiBAtC0000000 noWrap_twoGiBAtC0000000 (by decide)
    getDmaWindow_twoGiBAtC0000000

end Devtree
