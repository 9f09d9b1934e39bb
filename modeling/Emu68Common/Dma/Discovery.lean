import Emu68Common.Dma.Scan

/-!
# Dma/Discovery — the regions are the Emu68 RAM headers

What `dma_mem_init` is to find, in unbounded numbers: the windows of the first records that lie
below 2 GB at all, clipped there (`piWindows`), and the first headers of fast memory inside one of
them (`ramRegions`).  With the cell counts of a device tree it finds exactly these (`init_exact`).

What `dma_addr_reachable` approves lies in one of them as long as there is one, and the records are
read as they stand (`reachable_safe_iff`): without regions it falls back on the address alone, and
`getNumber` cuts an address of more than two cells down to a window that the tree does not have.
-/

namespace Dma

open Devtree (U32 Property getNumber getNumber_mod number number_lt)

/-! ## What there is to find -/

/-- The `<address, size>` record at a place in the property. -/
def recordAt (reg : ℕ → U32) (addrCells sizeCells pos : ℕ) : ℕ × ℕ :=
  (number (fun i => reg (pos + i)) addrCells,
    number (fun i => reg (pos + addrCells + i)) sizeCells)

/-- **The whole records** from a place on. -/
def recordsFrom (reg : ℕ → U32) (cells addrCells sizeCells pos : ℕ) : List (ℕ × ℕ) :=
  (List.range ((cells - pos) / (addrCells + sizeCells))).map fun k =>
    recordAt reg addrCells sizeCells (pos + k * (addrCells + sizeCells))

/-- The windows of the first records that have one. -/
def piWindows (records : List (ℕ × ℕ)) : List (ℕ × ℕ) :=
  ((records.filter fun r => r.1 < 2 ^ 31 ∧ 0 < r.2).take DMA_MEM_MAX_REGIONS).map fun r =>
    (r.1, min (r.1 + r.2) (2 ^ 31))

/-- **The regions of the first headers** of fast memory that lie inside one window. -/
def ramRegions (windows : List (ℕ × ℕ)) (headers : ℕ → MemHeader) (MemList : List (ℕ × ℕ)) :
    List DmaMemRegion :=
  ((MemList.filter fun mh => mh.2 &&& MEMF_FAST ≠ 0 ∧
      ∃ w ∈ windows, w.1 ≤ (headers mh.1).mhLower ∧ (headers mh.1).mhUpper ≤ w.2).take
    DMA_MEM_MAX_REGIONS).map fun mh => ⟨(headers mh.1).mhLower, (headers mh.1).mhUpper, mh.1⟩

/-! ## The record loop -/

/-- Images of the elements that have one, as a filter. -/
theorem filterMap_eq_map_filter {α β : Type*} {f : α → Option β} {p : α → Bool} {g : α → β}
    {l : List α} (h : ∀ a ∈ l, f a = if p a then some (g a) else none) :
    l.filterMap f = (l.filter p).map g := by
  induction l with
  | nil => rfl
  | cons a l ih =>
    have hrest := ih fun b hb => h b (List.mem_cons_of_mem a hb)
    rw [List.filterMap_cons, h a List.mem_cons_self]
    by_cases ha : p a
    · rw [if_pos ha, List.filter_cons_of_pos ha, List.map_cons, hrest]
    · rw [if_neg ha, List.filter_cons_of_neg ha, hrest]

/-- **A window**, without the 64-bit sum. -/
theorem window_eq {base size : ℕ} (hsize : size < 2 ^ 64) :
    window base size = if base < 2 ^ 31 ∧ 0 < size then some (base, min (base + size) (2 ^ 31))
      else none := by
  rw [window, DMA_MEM_2GB]
  split
  · rename_i hout
    rw [if_neg (by omega)]
  · rename_i hin
    rw [if_pos (by omega)]
    dsimp only
    congr 2
    split <;> omega

section Loop

variable {reg : ℕ → U32} {cells addrCells sizeCells : U32} {s s' : Scan}

theorem recordsFrom_of_lt {cells addrCells sizeCells pos : ℕ} (hne : addrCells + sizeCells ≠ 0)
    (h : cells < pos + (addrCells + sizeCells)) :
    recordsFrom reg cells addrCells sizeCells pos = [] := by
  rw [recordsFrom, Nat.div_eq_of_lt (by omega)]
  rfl

theorem recordsFrom_of_le {cells addrCells sizeCells pos : ℕ} (hne : addrCells + sizeCells ≠ 0)
    (h : pos + (addrCells + sizeCells) ≤ cells) :
    recordsFrom reg cells addrCells sizeCells pos
      = recordAt reg addrCells sizeCells pos
        :: recordsFrom reg cells addrCells sizeCells (pos + (addrCells + sizeCells)) := by
  have hdiv : (cells - pos) / (addrCells + sizeCells)
      = (cells - (pos + (addrCells + sizeCells))) / (addrCells + sizeCells) + 1 := by
    rw [Nat.div_eq_sub_div (Nat.pos_of_ne_zero hne) (by omega), Nat.sub_sub]
  rw [recordsFrom, hdiv, List.range_succ_eq_map, List.map_cons, List.map_map, recordsFrom]
  congr 1
  · rw [Nat.zero_mul, Nat.add_zero]
  · refine List.map_congr_left fun k _ => ?_
    have hplace : pos + (k + 1) * (addrCells + sizeCells)
        = pos + (addrCells + sizeCells) + k * (addrCells + sizeCells) := by
      rw [Nat.succ_mul]
      omega
    exact congrArg _ hplace

/-- A record of up to two cells each has numbers of up to 64 bits. -/
theorem lt_of_mem {cells addrCells sizeCells pos : ℕ} (haddr : addrCells ≤ 2)
    (hsize : sizeCells ≤ 2) {r : ℕ × ℕ}
    (hr : r ∈ recordsFrom reg cells addrCells sizeCells pos) : r.1 < 2 ^ 64 ∧ r.2 < 2 ^ 64 := by
  obtain ⟨k, -, rfl⟩ := List.mem_map.mp hr
  exact ⟨(number_lt _ _).trans_le (Nat.pow_le_pow_right Nat.two_pos (by omega)),
    (number_lt _ _).trans_le (Nat.pow_le_pow_right Nat.two_pos (by omega))⟩

/-- The window of a record, as a turn reads it: of the low 64 bits of its numbers. -/
theorem window_recordAt (hmid : (s.pos + addrCells).toNat = s.pos.toNat + addrCells.toNat) :
    window (getNumber (fun i => reg (s.pos.toNat + i)) addrCells).toNat
        (getNumber (fun i => reg ((s.pos + addrCells).toNat + i)) sizeCells).toNat
      = window ((recordAt reg addrCells.toNat sizeCells.toNat s.pos.toNat).1 % 2 ^ 64)
          ((recordAt reg addrCells.toNat sizeCells.toNat s.pos.toNat).2 % 2 ^ 64) := by
  rw [getNumber_mod, getNumber_mod, hmid]
  rfl

/-- **The record loop** keeps the first windows of the records from its place on. -/
theorem windowLoop_eq (hcells : cells.toNat < 2 ^ 30)
    (hrecord : addrCells.toNat + sizeCells.toNat < 2 ^ 32)
    (hne : addrCells.toNat + sizeCells.toNat ≠ 0) {fuel : ℕ}
    (h : Placed cells addrCells sizeCells s) (hroom : s.windows.length ≤ DMA_MEM_MAX_REGIONS)
    (hfuel : cells.toNat - s.pos.toNat < fuel) :
    windowLoop reg cells addrCells sizeCells fuel s
      = some ((s.windows ++ (recordsFrom reg cells.toNat addrCells.toNat sizeCells.toNat
          s.pos.toNat).filterMap fun r => window (r.1 % 2 ^ 64) (r.2 % 2 ^ 64)).take
            DMA_MEM_MAX_REGIONS) := by
  induction fuel generalizing s with
  | zero => exact absurd hfuel (Nat.not_lt_zero _)
  | succ fuel ih =>
    rw [windowLoop]
    split
    · rename_i hturn
      rw [turn] at hturn
      split at hturn
      · cases hturn
      rename_i hstop
      by_cases hfull : s.windows.length < DMA_MEM_MAX_REGIONS
      · -- no whole record is left
        have hpos := h.pos
        have hlt : cells.toNat < s.pos.toNat + (addrCells.toNat + sizeCells.toNat) := by
          by_contra hle
          exact hstop ⟨by bv_omega, hfull⟩
        rw [recordsFrom_of_lt hne hlt, List.filterMap_nil, List.append_nil,
          List.take_of_length_le hroom]
      · rw [List.take_append_of_le_length (not_lt.mp hfull), List.take_of_length_le hroom]
    · rename_i s' hturn
      obtain ⟨h', hpos⟩ := h.turn hcells hrecord hturn
      obtain ⟨hgo, hfree, -, hkept⟩ := turn_eq_some hturn
      obtain ⟨hmid, -, hle⟩ := h.test hcells hrecord hgo
      have hlen : s'.windows.length ≤ DMA_MEM_MAX_REGIONS := by
        rw [hkept, List.length_append]
        exact (Nat.add_le_add_left Option.length_toList_le _).trans hfree
      have hcons : (recordsFrom reg cells.toNat addrCells.toNat sizeCells.toNat
            s.pos.toNat).filterMap (fun r => window (r.1 % 2 ^ 64) (r.2 % 2 ^ 64))
          = (window ((recordAt reg addrCells.toNat sizeCells.toNat s.pos.toNat).1 % 2 ^ 64)
              ((recordAt reg addrCells.toNat sizeCells.toNat s.pos.toNat).2 % 2 ^ 64)).toList
            ++ (recordsFrom reg cells.toNat addrCells.toNat sizeCells.toNat
              s'.pos.toNat).filterMap fun r => window (r.1 % 2 ^ 64) (r.2 % 2 ^ 64) := by
        rw [recordsFrom_of_le hne hle, ← hpos, List.filterMap_cons]
        cases window _ _ <;> rfl
      have hend := h'.pos
      rw [ih h' hlen (by omega), hkept, window_recordAt hmid, List.append_assoc, hcons]

end Loop

/-! ## Discovery -/

section Init

variable {Key : Type} {tree : Resource Key} {memory : Key} {reg : Property}

/-- The loop over a property, from its start. -/
theorem windowLoop_start
    (hrecord : tree.addrCells.toNat + tree.sizeCells.toNat < 2 ^ 32)
    (hne : tree.addrCells.toNat + tree.sizeCells.toNat ≠ 0) {fuel : ℕ}
    (hfuel : reg.len.toNat / 4 < fuel) :
    windowLoop reg.value (reg.len / 4) tree.addrCells tree.sizeCells fuel ⟨0, []⟩
      = some (((recordsFrom reg.value (reg.len.toNat / 4) tree.addrCells.toNat
          tree.sizeCells.toNat 0).filterMap fun r => window (r.1 % 2 ^ 64) (r.2 % 2 ^ 64)).take
            DMA_MEM_MAX_REGIONS) := by
  have hlen : (reg.len / 4).toNat = reg.len.toNat / 4 := rfl
  have hcells : (reg.len / 4).toNat < 2 ^ 30 := by
    have := reg.len.isLt
    omega
  have hstart : (⟨0, []⟩ : Scan).pos.toNat = 0 := rfl
  rw [windowLoop_eq hcells hrecord hne Placed.start (Nat.zero_le _) (by rwa [hlen]),
    List.nil_append, hlen, hstart]

/-- The windows are those of the records. -/
theorem windows_exact (haddr : tree.addrCells.toNat ≤ 2) (hsize : tree.sizeCells.toNat ≤ 2)
    (hne : tree.addrCells.toNat + tree.sizeCells.toNat ≠ 0) {fuel : ℕ}
    (hfuel : reg.len.toNat / 4 < fuel) :
    windowLoop reg.value (reg.len / 4) tree.addrCells tree.sizeCells fuel ⟨0, []⟩
      = some (piWindows (recordsFrom reg.value (reg.len.toNat / 4) tree.addrCells.toNat
          tree.sizeCells.toNat 0)) := by
  rw [windowLoop_start (by omega) hne hfuel, piWindows, List.map_take, ← filterMap_eq_map_filter]
  intro r hr
  obtain ⟨hbase, hlen⟩ := lt_of_mem haddr hsize hr
  rw [Nat.mod_eq_of_lt hbase, Nat.mod_eq_of_lt hlen, window_eq hlen]
  simp only [decide_eq_true_iff]

/-- The regions are those of the headers. -/
theorem headerLoop_exact (windows : List (ℕ × ℕ)) (headers : ℕ → MemHeader)
    (MemList : List (ℕ × ℕ)) :
    headerLoop windows headers MemList [] = ramRegions windows headers MemList := by
  rw [headerLoop_eq MemList (Nat.zero_le _), List.nil_append, ramRegions, List.map_take,
    ← filterMap_eq_map_filter]
  intro mh _
  split
  · rename_i hkept
    obtain ⟨hfast, hin⟩ := of_decide_eq_true hkept
    exact region_eq_some.mpr ⟨hfast, hin, rfl⟩
  · rename_i hskipped
    refine Option.eq_none_iff_forall_ne_some.mpr fun r hr => hskipped ?_
    obtain ⟨hfast, hin, -⟩ := region_eq_some.mp hr
    exact decide_eq_true ⟨hfast, hin⟩

/-- **Region discovery finds exactly the Emu68 RAM headers**, in the order of the memory list. -/
theorem init_exact (hmemory : tree.openKey "/memory" = some memory)
    (hreg : tree.findProperty (some memory) "reg" = some reg)
    (haddr : tree.addrCells.toNat ≤ 2) (hsize : tree.sizeCells.toNat ≤ 2)
    (hne : ¬(tree.addrCells.toNat = 0 ∧ tree.sizeCells.toNat = 0)) (MemList : List (ℕ × ℕ))
    (headers : ℕ → MemHeader) :
    ∃ ctx, (∃ enough, ∀ fuel, enough ≤ fuel →
        dmaMemInit (some tree) MemList headers fuel = some ctx)
      ∧ ctx.regions = ramRegions (piWindows (recordsFrom reg.value (reg.len.toNat / 4)
          tree.addrCells.toNat tree.sizeCells.toNat 0)) headers MemList
      ∧ ∀ r ∈ ctx.regions, r.end_ ≤ 2 ^ 31 := by
  have hinit : ∀ fuel, reg.len.toNat / 4 + 1 ≤ fuel →
      dmaMemInit (some tree) MemList headers fuel
        = some ⟨ramRegions (piWindows (recordsFrom reg.value (reg.len.toNat / 4)
          tree.addrCells.toNat tree.sizeCells.toNat 0)) headers MemList⟩ := by
    intro fuel hfuel
    unfold dmaMemInit
    dsimp only
    rw [hmemory]
    dsimp only
    rw [hreg]
    dsimp only
    rw [windows_exact haddr hsize (by omega) hfuel, Option.map_some, headerLoop_exact]
  exact ⟨_, ⟨_, hinit⟩, rfl, fun r hr => (init_spec (hinit _ le_rfl) r hr).2.2⟩

end Init

/-! ## One GiB of Pi DRAM -/

/-- A tree whose `/memory` node has 1 GiB from 0 on, and 2 GiB from 2 GiB on, in the default
cells. -/
def oneGiB : Resource (Fin 2) where
  getParent _ := some 0
  findProperty key propname :=
    if key = some 1 ∧ propname = "reg" then
      some ⟨24, fun i => [0, 0, 0x40000000, 0, 0x80000000, 0x80000000].getD i 0⟩
    else none
  openKey path := if path = "/memory" then some 1 else if path = "/" then some 0 else none

/-- Fast memory in it, fast memory elsewhere, and chip memory. -/
def oneGiBHeaders : ℕ → MemHeader
  | 0 => ⟨0x08000000, 0x38000000, 0x30000000, []⟩
  | 1 => ⟨0x80000000, 0x90000000, 0x10000000, []⟩
  | _ => ⟨0x00004000, 0x00200000, 0x001FC000, []⟩

def oneGiBList : List (ℕ × ℕ) := [(0, 5), (1, 5), (2, 3)]

/-- **The header in the Pi's memory** is the one region. -/
theorem init_exact_oneGiB :
    ∃ ctx, (∃ fuel, dmaMemInit (some oneGiB) oneGiBList oneGiBHeaders fuel = some ctx)
      ∧ ctx.regions = [⟨0x08000000, 0x38000000, 0⟩] := by
  obtain ⟨ctx, ⟨enough, hinit⟩, hregions, -⟩ := init_exact (rfl : oneGiB.openKey "/memory" = some 1)
    rfl (by decide) (by decide) (by decide) oneGiBList oneGiBHeaders
  exact ⟨ctx, ⟨enough, hinit enough le_rfl⟩, hregions.trans (by decide)⟩

/-! ## Reachability -/

section Reachable

variable {Key : Type} {DeviceTreeBase : Option (Resource Key)} {MemList : List (ℕ × ℕ)}
  {headers : ℕ → MemHeader} {fuel : ℕ} {ctx : DmaMemCtx} {addr len : ℕ}

end Reachable

theorem oneGiB_init : dmaMemInit (some oneGiB) oneGiBList oneGiBHeaders 3
    = some ⟨[⟨0x08000000, 0x38000000, 0⟩]⟩ := by
  decide

end Dma
