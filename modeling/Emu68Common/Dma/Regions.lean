import Emu68Common.Devtree.Tree
import Emu68Common.Dma.Exec

/-!
# Dma/Regions — the memory the DMA engines reach

`dma_mem_init` reads the windows of the Pi's memory from the device tree's `/memory` node
(`windowLoop`) and keeps, of Exec's memory headers, those of fast memory inside a window
(`headerLoop`); what a pool hands out is from them, and `dma_addr_reachable` looks an address up in
them.  A kept region has its header's bounds and ends below 2 GB (`init_spec`).

    reg ──turn──▸ window, window, …     MemList ──region──▸ region, region, …    8 of each at most
-/

namespace Dma

open Devtree (U32 DeviceTree getNumber getPropertyValueULONG)

/-- A region: its bounds, and where its memory header is. -/
structure DmaMemRegion where
  start : ℕ
  end_ : ℕ
  header : ℕ
  deriving DecidableEq, Repr

/-- **The context**: at most `DMA_MEM_MAX_REGIONS` regions. -/
structure DmaMemCtx where
  regions : List DmaMemRegion
  deriving DecidableEq, Repr

def DMA_MEM_2GB : ℕ := 0x80000000

def DMA_MEM_MAX_REGIONS : ℕ := 8

def MEMF_FAST : ℕ := 4

/-! ## Windows -/

/-- A record of the `reg` property: below 2 GB, its end clipped there; no window otherwise. -/
def window (base size : ℕ) : Option (ℕ × ℕ) :=
  if DMA_MEM_2GB ≤ base ∨ size = 0 then none
  else
    let stop := (base + size) % 2 ^ 64
    some (base, if stop < base ∨ DMA_MEM_2GB < stop then DMA_MEM_2GB else stop)

/-- Where the record loop is in the property, and the windows it has kept. -/
structure Scan where
  pos : U32
  windows : List (ℕ × ℕ)
  deriving DecidableEq, Repr

section Loop

variable (reg : ℕ → U32) (cells addrCells sizeCells : U32)

/-- **A turn of the record loop**: a record is read, and kept if it is a window.  Nothing when no
whole record is left, or no room for a window. -/
def turn (s : Scan) : Option Scan :=
  if s.pos + addrCells + sizeCells ≤ cells ∧ s.windows.length < DMA_MEM_MAX_REGIONS then
    let base := getNumber (fun i => reg (s.pos.toNat + i)) addrCells
    let pos := s.pos + addrCells
    let size := getNumber (fun i => reg (pos.toNat + i)) sizeCells
    some ⟨pos + sizeCells, s.windows ++ (window base.toNat size.toNat).toList⟩
  else none

/-- The record loop, if it ends within so many tests. -/
def windowLoop : ℕ → Scan → Option (List (ℕ × ℕ))
  | 0, _ => none
  | fuel + 1, s =>
    match turn reg cells addrCells sizeCells s with
    | none => some s.windows
    | some s => windowLoop fuel s

end Loop

/-! ## Headers -/

/-- The region of a header of fast memory inside a window. -/
def region (windows : List (ℕ × ℕ)) (headers : ℕ → MemHeader) (mh attributes : ℕ) :
    Option DmaMemRegion :=
  if attributes &&& MEMF_FAST = 0 then none
  else if windows.any fun w => w.1 ≤ (headers mh).mhLower ∧ (headers mh).mhUpper ≤ w.2 then
    some ⟨(headers mh).mhLower, (headers mh).mhUpper, mh⟩
  else none

/-- The loop over Exec's memory list: each header, and its attributes. -/
def headerLoop (windows : List (ℕ × ℕ)) (headers : ℕ → MemHeader) :
    List (ℕ × ℕ) → List DmaMemRegion → List DmaMemRegion
  | [], regions => regions
  | (mh, attributes) :: rest, regions =>
    if regions.length < DMA_MEM_MAX_REGIONS then
      headerLoop windows headers rest (regions ++ (region windows headers mh attributes).toList)
    else regions

/-! ## Discovery -/

/-- `devicetree.resource`: the tree, and the keys it opens. -/
structure Resource (Key : Type) extends DeviceTree Key where
  openKey : String → Option Key

namespace Resource

variable {Key : Type} (DeviceTreeBase : Resource Key)

/-- `addr_cells`: the root's `#address-cells`. -/
def addrCells : U32 :=
  getPropertyValueULONG DeviceTreeBase.toDeviceTree (DeviceTreeBase.openKey "/") "#address-cells" 2

/-- `size_cells`: the root's `#size-cells`. -/
def sizeCells : U32 :=
  getPropertyValueULONG DeviceTreeBase.toDeviceTree (DeviceTreeBase.openKey "/") "#size-cells" 1

end Resource

/-- **`dma_mem_init`**, if its record loop ends within so many tests: no regions without the
resource, the `/memory` node or its `reg` property. -/
def dmaMemInit {Key : Type} (DeviceTreeBase : Option (Resource Key)) (MemList : List (ℕ × ℕ))
    (headers : ℕ → MemHeader) (fuel : ℕ) : Option DmaMemCtx :=
  match DeviceTreeBase with
  | none => some ⟨[]⟩
  | some tree =>
    match tree.openKey "/memory" with
    | none => some ⟨[]⟩
    | some memory =>
      match tree.findProperty (some memory) "reg" with
      | none => some ⟨[]⟩
      | some reg =>
        (windowLoop reg.value (reg.len / 4) tree.addrCells tree.sizeCells fuel ⟨0, []⟩).map
          fun windows => ⟨headerLoop windows headers MemList []⟩

/-- **`dma_addr_reachable`**, with a context. -/
def dmaAddrReachable (ctx : DmaMemCtx) (addr len : ℕ) : Bool :=
  let stop := u32 (addr + if len = 0 then 1 else len)
  if stop < addr then false
  else if ctx.regions = [] then 0x00200000 ≤ addr
  else ctx.regions.any fun r => r.start ≤ addr ∧ stop ≤ r.end_

/-! ## What is kept -/

/-- **A context of these headers**: each region is one of them, and below 2 GB. -/
def DmaMemCtx.Filled (ctx : DmaMemCtx) (headers : ℕ → MemHeader) : Prop :=
  ∀ r ∈ ctx.regions, r.start = (headers r.header).mhLower ∧ r.end_ = (headers r.header).mhUpper ∧
    r.end_ ≤ DMA_MEM_2GB

theorem window_le {base size : ℕ} {w : ℕ × ℕ} (h : window base size = some w) :
    w.2 ≤ DMA_MEM_2GB := by
  rw [window] at h
  split at h
  · exact absurd h.symm (Option.some_ne_none w)
  · obtain rfl := Option.some.inj h
    dsimp only
    split <;> omega

section Turn

variable {reg : ℕ → U32} {cells addrCells sizeCells : U32} {s s' : Scan}

/-- **What a turn does**: it goes a record on, and what it keeps is that record's window. -/
theorem turn_eq_some (h : turn reg cells addrCells sizeCells s = some s') :
    s.pos + addrCells + sizeCells ≤ cells ∧ s.windows.length < DMA_MEM_MAX_REGIONS ∧
      s'.pos = s.pos + addrCells + sizeCells ∧
      s'.windows = s.windows ++ (window
        (getNumber (fun i => reg (s.pos.toNat + i)) addrCells).toNat
        (getNumber (fun i => reg ((s.pos + addrCells).toNat + i)) sizeCells).toNat).toList := by
  rw [turn] at h
  split at h
  · rename_i hgo
    obtain rfl := Option.some.inj h
    exact ⟨hgo.1, hgo.2, rfl, rfl⟩
  · cases h

/-- **A property of windows** that every record's window has is one of all that the loop keeps. -/
theorem windowLoop_forall {P : ℕ × ℕ → Prop}
    (hwindow : ∀ pos : U32, ∀ w ∈ window (getNumber (fun i => reg (pos.toNat + i)) addrCells).toNat
      (getNumber (fun i => reg ((pos + addrCells).toNat + i)) sizeCells).toNat, P w)
    {fuel : ℕ} {windows : List (ℕ × ℕ)} (hs : ∀ w ∈ s.windows, P w)
    (h : windowLoop reg cells addrCells sizeCells fuel s = some windows) :
    ∀ w ∈ windows, P w := by
  induction fuel generalizing s with
  | zero => cases h
  | succ fuel ih =>
    rw [windowLoop] at h
    split at h
    · obtain rfl := Option.some.inj h
      exact hs
    · rename_i s' hturn
      obtain ⟨-, -, -, hkept⟩ := turn_eq_some hturn
      refine ih (s := s') ?_ h
      rw [hkept]
      intro w hw
      rcases List.mem_append.mp hw with hw | hw
      · exact hs w hw
      · exact hwindow s.pos w (Option.mem_toList.mp hw)

end Turn

section Headers

variable {windows : List (ℕ × ℕ)} {headers : ℕ → MemHeader} {mh attributes : ℕ} {r : DmaMemRegion}

/-- **What a region is of**: a header of fast memory, inside a window. -/
theorem region_eq_some : region windows headers mh attributes = some r ↔
    attributes &&& MEMF_FAST ≠ 0 ∧
      (∃ w ∈ windows, w.1 ≤ (headers mh).mhLower ∧ (headers mh).mhUpper ≤ w.2) ∧
      r = ⟨(headers mh).mhLower, (headers mh).mhUpper, mh⟩ := by
  have hany : (windows.any fun w => w.1 ≤ (headers mh).mhLower ∧
    (headers mh).mhUpper ≤ w.2) = true
      ↔ ∃ w ∈ windows, w.1 ≤ (headers mh).mhLower ∧ (headers mh).mhUpper ≤ w.2 := by
    simp only [List.any_eq_true, decide_eq_true_iff]
  rw [region]
  split
  · rename_i hslow
    exact ⟨fun h => absurd h.symm (Option.some_ne_none r), fun h => absurd hslow h.1⟩
  rename_i hfast
  split
  · rename_i hin
    exact ⟨fun h => ⟨hfast, hany.mp hin, (Option.some.inj h).symm⟩, fun h => by rw [h.2.2]⟩
  · rename_i hout
    exact ⟨fun h => absurd h.symm (Option.some_ne_none r), fun h => absurd (hany.mpr h.2.1) hout⟩

/-- **The loop over the headers** keeps the first regions. -/
theorem headerLoop_eq (MemList : List (ℕ × ℕ)) {regions : List DmaMemRegion}
    (h : regions.length ≤ DMA_MEM_MAX_REGIONS) :
    headerLoop windows headers MemList regions
      = (regions ++ MemList.filterMap fun mh => region windows headers mh.1 mh.2).take
          DMA_MEM_MAX_REGIONS := by
  induction MemList generalizing regions with
  | nil => rw [headerLoop, List.filterMap_nil, List.append_nil, List.take_of_length_le h]
  | cons mh rest ih =>
    obtain ⟨mh, attributes⟩ := mh
    have hcons : ((mh, attributes) :: rest).filterMap (fun mh => region windows headers mh.1 mh.2)
        = (region windows headers mh attributes).toList
          ++ rest.filterMap fun mh => region windows headers mh.1 mh.2 := by
      rw [List.filterMap_cons]
      cases region windows headers mh attributes <;> rfl
    rw [headerLoop, hcons]
    split
    · rename_i hroom
      have hlen : (regions ++ (region windows headers mh attributes).toList).length
          ≤ DMA_MEM_MAX_REGIONS := by
        rw [List.length_append]
        exact (Nat.add_le_add_left (Option.length_toList_le) _).trans hroom
      rw [ih hlen, List.append_assoc]
    · rename_i hfull
      rw [List.take_append_of_le_length (not_lt.mp hfull),
        List.take_of_length_le h]

end Headers

/-- **Where a region is from**: a header of the memory list, inside a window the record loop
kept. -/
theorem init_from {Key : Type} {DeviceTreeBase : Option (Resource Key)} {MemList : List (ℕ × ℕ)}
    {headers : ℕ → MemHeader} {fuel : ℕ} {ctx : DmaMemCtx}
    (h : dmaMemInit DeviceTreeBase MemList headers fuel = some ctx) {r : DmaMemRegion}
    (hr : r ∈ ctx.regions) :
    ∃ tree memory reg, DeviceTreeBase = some tree ∧ tree.openKey "/memory" = some memory ∧
      tree.findProperty (some memory) "reg" = some reg ∧
      ∃ windows, windowLoop reg.value (reg.len / 4) tree.addrCells tree.sizeCells fuel ⟨0, []⟩
          = some windows ∧
        ∃ mh ∈ MemList, region windows headers mh.1 mh.2 = some r := by
  unfold dmaMemInit at h
  split at h
  · obtain rfl := Option.some.inj h
    exact absurd hr List.not_mem_nil
  rename_i tree
  split at h
  · obtain rfl := Option.some.inj h
    exact absurd hr List.not_mem_nil
  rename_i memory hmemory
  split at h
  · obtain rfl := Option.some.inj h
    exact absurd hr List.not_mem_nil
  rename_i reg hreg
  obtain ⟨windows, hwindows, rfl⟩ := Option.map_eq_some_iff.mp h
  refine ⟨tree, memory, reg, rfl, hmemory, hreg, windows, hwindows, ?_⟩
  dsimp only at hr
  rw [headerLoop_eq MemList (Nat.zero_le _), List.nil_append] at hr
  exact List.mem_filterMap.mp (List.mem_of_mem_take hr)

/-- **What `dma_mem_init` keeps** has its header's bounds, below 2 GB. -/
theorem init_spec {Key : Type} {DeviceTreeBase : Option (Resource Key)} {MemList : List (ℕ × ℕ)}
    {headers : ℕ → MemHeader} {fuel : ℕ} {ctx : DmaMemCtx}
    (h : dmaMemInit DeviceTreeBase MemList headers fuel = some ctx) : ctx.Filled headers := by
  intro r hr
  obtain ⟨tree, memory, reg, -, -, -, windows, hwindows, mh, -, hregion⟩ := init_from h hr
  obtain ⟨-, ⟨w, hw, -, hupper⟩, rfl⟩ := region_eq_some.mp hregion
  have hend : ∀ w ∈ windows, w.2 ≤ DMA_MEM_2GB :=
    windowLoop_forall (fun _ _ => window_le) (fun w hw => absurd hw List.not_mem_nil) hwindows
  exact ⟨rfl, rfl, hupper.trans (hend w hw)⟩

/-- A buffer in a region is reachable. -/
theorem reachable_of_within {ctx : DmaMemCtx} {headers : ℕ → MemHeader} (h : ctx.Filled headers)
    {r : DmaMemRegion} (hr : r ∈ ctx.regions) {addr len : ℕ} (hpos : 0 < len)
    (hlow : r.start ≤ addr) (hhigh : addr + len ≤ r.end_) :
    dmaAddrReachable ctx addr len = true := by
  have hend := (h r hr).2.2
  rw [DMA_MEM_2GB] at hend
  have hstop : u32 (addr + if len = 0 then 1 else len) = addr + len := by
    rw [if_neg hpos.ne', u32_of_lt (by omega)]
  rw [dmaAddrReachable, hstop, if_neg (by omega), if_neg (List.ne_nil_of_mem hr)]
  exact List.any_eq_true.mpr ⟨r, hr, decide_eq_true ⟨hlow, hhigh⟩⟩

end Dma
