import Emu68Common.Devtree.Interrupt
import Emu68Common.Devtree.Window

/-!
# Devtree/Index — an index past the end

Both lookups bound the record they read by `(index + 1) * cells`, in 32 bits.  A record in the
property passes, and then nothing outside is read (`place_lt_of_inside`).  A product that wraps can
pass as well, and then the pointer is wherever the wrapped offset leads: in front of the property,
or at another record, which is returned (`index_refused_iff`).

    (index + 1) * cells        mod 2^32 ≤ cells there are     ──▸ read at index * cells mod 2^32
-/

namespace Devtree

open Machinery

variable {Key : Type} {res : Resource Key} {root key : Key} {beneath : Forest Key}
  {all l : List Key} {parent : Option Key} {p : Option Property} {index c : U32} {n : ℕ}

/-! ## What is asked of an index -/

/-- The cells in a property. -/
def cellsIn (p : Option Property) : ℕ := (getPropLen p).toNat / 4

/-- **The whole record is in the property.** -/
def RecordInside (p : Option Property) (index : U32) (cells : ℕ) : Prop :=
  (index.toNat + 1) * cells ≤ cellsIn p

/-- Only cells of the property are read. -/
def ReadsInside (p : Option Property) (reads : List ℕ) : Prop := ∀ i ∈ reads, i < cellsIn p

/-- The two parts of a "reg" record. -/
def regAddrCells (res : Resource Key) (key : Option Key) : U32 :=
  getPropertyValueULONG res.toDeviceTree (res.getParent key) "#address-cells" 2

def regSizeCells (res : Resource Key) (key : Option Key) : U32 :=
  getPropertyValueULONG res.toDeviceTree (res.getParent key) "#size-cells" 1

/-- The cells of a whole one, in 32 bits. -/
def regCells (res : Resource Key) (key : Option Key) : U32 :=
  regAddrCells res key + regSizeCells res key

/-- **`DT_GetBaseAddressVirtual` refuses the index past the end**: `NULL` unless the record is
there, and nothing outside read. -/
def RegRefused (res : Resource Key) (key : Option Key) (index : U32) : Prop :=
  ((getBaseAddressVirtual res key index).1 ≠ 0 → RecordInside (res.findProperty key "reg") index
      ((regAddrCells res key).toNat + (regSizeCells res key).toNat)) ∧
    ReadsInside (res.findProperty key "reg") (getBaseAddressVirtual res key index).2

/-- **`DT_GetInterrupt` does**: it ends, with -1 unless the entry is there, and nothing outside
read. -/
def EntryRefused (res : Resource Key) (n : ℕ) (parent key : Option Key) (index : U32) : Prop :=
  ∃ r reads, getInterrupt res n key index = some (r, reads) ∧
    (r ≠ -1 → RecordInside (res.findProperty key "interrupts") index
      (interruptCells res parent).toNat) ∧
    ReadsInside (res.findProperty key "interrupts") reads

/-- At most three cells in any part of a record. -/
structure SmallCells (res : Resource Key) : Prop where
  address : ∀ k, getPropertyValueULONG res.toDeviceTree k "#address-cells" 2 ≤ 3
  size : ∀ k, getPropertyValueULONG res.toDeviceTree k "#size-cells" 1 ≤ 3
  interrupt : ∀ k, interruptCells res k ≤ 3

/-- The interrupt parent of a node. -/
def ParentOf (res : Resource Key) (all : List Key) (key parent : Option Key) : Prop :=
  ∃ l, Forest.Climb res.parent key l ∧ parent = interruptParent res all l

/-! ## When it is refused -/

/-- **The bus takes a span here**: by its first record that covers it, or to the same address if it
has no record at all; the end is at most 4 GiB. -/
def MapsTo (tree : DeviceTree Key) (bus : Option Key) (propname : String) (toParent : Bool)
    (addr len dest : U64) : Prop :=
  ∃ p, tree.findProperty bus propname = some p ∧
    (p.len / 4 = 0 ∧ dest = addr ∨
      p.len / 4 ≠ 0 ∧ ∃ r, (records (recordCells tree bus) p.value (p.len / 4)).find?
        (·.covers toParent addr len) = some r ∧ dest = (r.mapped toParent addr).mapped) ∧
    dest.toNat + len.toNat ≤ 2 ^ 32

/-- The number at the offset of the record. -/
def regNumberAt (res : Resource Key) (key : Option Key) (index : U32) : U64 :=
  getNumber (fun j => getPropValue res (res.findProperty key "reg")
    (place (index * regCells res key) j)) (regAddrCells res key)

/-- Where the bus maps it; 0 for nowhere. -/
def mappedAt (res : Resource Key) (key : Option Key) (index : U32) : U32 :=
  ((dtMap res.toDeviceTree (res.getParent key) "ranges" true (regNumberAt res key index) 1).map
    (·.out)).getD 0

/-- The number at the offset of the entry, with what the type there adds. -/
def numberAt (res : Resource Key) (parent key : Option Key) (index : U32) : U32 :=
  let cells := getPropValue res (res.findProperty key "interrupts")
  cells (place (index * interruptCells res parent) 1) +
    BitVec.ofNat 32 (typeOffset (cells (place (index * interruptCells res parent) 0)))

/-- **When the first lookup refuses what it should**: there are no addresses, or the product in 32
bits is past the end, or the record is there; or the number at the wrapped offset is one in the
property that the bus does not map, or maps to 0. -/
def RegRefusable (res : Resource Key) (key : Option Key) (index : U32) : Prop :=
  regAddrCells res key = 0 ∨
    getPropLen (res.findProperty key "reg") / 4 < (index + 1) * regCells res key ∨
    RecordInside (res.findProperty key "reg") index
      ((regAddrCells res key).toNat + (regSizeCells res key).toNat) ∨
    ReadsInside (res.findProperty key "reg")
      ((List.range (regAddrCells res key).toNat).map (place (index * regCells res key))) ∧
      ∀ dest, MapsTo res.toDeviceTree (res.getParent key) "ranges" true
        (regNumberAt res key index) 1 dest → dest = 0

/-- **When the second does**: no interrupt parent or no interrupts, or the product is past the end,
or the entry is there; or the entry at the wrapped offset is one in the property that reads -1. -/
def EntryRefusable (res : Resource Key) (parent key : Option Key) (index : U32) : Prop :=
  parent = none ∨ interruptCells res parent < 2 ∨ res.findProperty key "interrupts" = none ∨
    getPropLen (res.findProperty key "interrupts") / 4 < (index + 1) * interruptCells res parent ∨
    RecordInside (res.findProperty key "interrupts") index (interruptCells res parent).toNat ∨
    ReadsInside (res.findProperty key "interrupts") [place (index * interruptCells res parent) 0,
      place (index * interruptCells res parent) 1] ∧
      numberAt res parent key index = -1

/-! ## A record in the property -/

/-- A property has less than 2^30 cells. -/
theorem cellsIn_lt (p : Option Property) : cellsIn p < 2 ^ 30 := by
  have := (getPropLen p).isLt
  rw [cellsIn]
  omega

/-- **The cells of a record that is there are there.** -/
theorem place_lt_of_inside {i : ℕ} (h : RecordInside p index c.toNat) (hi : i < c.toNat) :
    place (index * c) i < cellsIn p := by
  have hlt := cellsIn_lt p
  rw [RecordInside, Nat.succ_mul] at h
  rw [place_eq (by omega)]
  omega

/-- The record is as long as its parts. -/
theorem SmallCells.regCells_toNat (h : SmallCells res) (key : Option Key) :
    (regCells res key).toNat = (regAddrCells res key).toNat + (regSizeCells res key).toNat := by
  have haddr : (regAddrCells res key).toNat ≤ 3 := h.address _
  have hsize : (regSizeCells res key).toNat ≤ 3 := h.size _
  rw [regCells, BitVec.toNat_add]
  omega

/-! ## What the bus maps -/

/-- **What `dt_map` answers is what the first record says.** -/
theorem dtMap_out_iff {tree : DeviceTree Key} {bus : Option Key} {propname : String}
    {toParent : Bool} {addr len : U64} (hlen : len ≠ 0) (out : U32) :
    (dtMap tree bus propname toParent addr len).map (·.out) = some out ↔
      ∃ dest, MapsTo tree bus propname toParent addr len dest ∧ out = dest.setWidth 32 := by
  have hfinish : ∀ m : Mapped, (dtMapFinish len m).map (·.out) = some out ↔
      m.mapped.toNat + len.toNat ≤ 2 ^ 32 ∧ out = m.mapped.setWidth 32 := fun m => by
    rw [Option.map_eq_some_iff]
    constructor
    · rintro ⟨r, hr, rfl⟩
      obtain ⟨hfit, hout, -⟩ := dtMapFinish_eq_some hlen hr
      exact ⟨hfit, hout⟩
    · rintro ⟨hfit, rfl⟩
      obtain ⟨s, e, hr⟩ := dtMapFinish_of_le hlen hfit
      exact ⟨_, hr, rfl⟩
  cases hp : tree.findProperty bus propname with
  | none =>
    rw [dtMap, hp]
    constructor
    · intro hout
      exact absurd hout.symm (Option.some_ne_none out)
    · rintro ⟨dest, ⟨p, hp', -⟩, -⟩
      exact absurd (hp.symm.trans hp').symm (Option.some_ne_none p)
  | some p =>
    by_cases he : p.len / 4 = 0
    · rw [dtMap_of_empty hp he, hfinish]
      constructor
      · rintro ⟨hfit, hout⟩
        exact ⟨addr, ⟨p, hp, .inl ⟨he, rfl⟩, hfit⟩, hout⟩
      · rintro ⟨dest, ⟨p', hp', hto, hfit⟩, hout⟩
        obtain rfl := Option.some.inj (hp.symm.trans hp')
        obtain rfl := (hto.resolve_right fun h => h.1 he).2
        exact ⟨hfit, hout⟩
    · rw [dtMap_of_records hp he, Option.map_bind, Option.bind_eq_some_iff]
      constructor
      · rintro ⟨r, hr, hout⟩
        obtain ⟨hfit, rfl⟩ := (hfinish _).mp hout
        exact ⟨_, ⟨p, hp, .inr ⟨he, r, hr, rfl⟩, hfit⟩, rfl⟩
      · rintro ⟨dest, ⟨p', hp', hto, hfit⟩, hout⟩
        obtain rfl := Option.some.inj (hp.symm.trans hp')
        obtain ⟨r, hr, rfl⟩ := (hto.resolve_left fun h => he h.1).2
        exact ⟨r, hr, (hfinish _).mpr ⟨hfit, hout⟩⟩

/-- Nothing comes of a number exactly if the bus takes it nowhere but to 0. -/
theorem mappedAt_eq_zero_iff (res : Resource Key) (key : Option Key) (index : U32) :
    mappedAt res key index = 0 ↔ ∀ dest, MapsTo res.toDeviceTree (res.getParent key) "ranges" true
      (regNumberAt res key index) 1 dest → dest = 0 := by
  have hone : (1 : U64).toNat = 1 := rfl
  rw [mappedAt]
  constructor
  · intro hzero dest hto
    rw [(dtMap_out_iff (by decide) (dest.setWidth 32)).mpr ⟨dest, hto, rfl⟩] at hzero
    obtain ⟨-, -, -, hfit⟩ := hto
    rw [hone] at hfit
    have hto0 : dest.setWidth 32 = 0 := hzero
    bv_omega
  · intro hall
    cases hout : (dtMap res.toDeviceTree (res.getParent key) "ranges" true
        (regNumberAt res key index) 1).map (·.out) with
    | none => rfl
    | some out =>
      obtain ⟨dest, hto, rfl⟩ := (dtMap_out_iff (by decide) out).mp hout
      rw [hall dest hto]
      rfl

/-! ## The two lookups -/

/-- **What the first answers**, and what it reads for it. -/
theorem getBaseAddressVirtual_eq (res : Resource Key) (key : Option Key) (index : U32) :
    getBaseAddressVirtual res key index =
      if regAddrCells res key = 0 ∨
          getPropLen (res.findProperty key "reg") / 4 < (index + 1) * regCells res key
        then (0, [])
        else (mappedAt res key index,
          (List.range (regAddrCells res key).toNat).map (place (index * regCells res key))) := by
  by_cases hcheck : regAddrCells res key = 0 ∨
      getPropLen (res.findProperty key "reg") / 4 < (index + 1) * regCells res key
  · rw [if_pos hcheck]
    exact if_pos hcheck
  · rw [if_neg hcheck, mappedAt, regNumberAt]
    refine (if_neg hcheck).trans ?_
    simp only [readNumberLoop_eq, Nat.zero_add, getNumber, regCells, regAddrCells, regSizeCells]
    cases dtMap _ _ _ _ _ _ <;> rfl

/-- What answers with the refusal itself, and reads nothing, has refused. -/
theorem refused_unread {n : ℕ} (prop : Option Property) (r : BitVec n) (inside : Prop) :
    (r ≠ r → inside) ∧ ReadsInside prop [] :=
  ⟨fun hne => absurd rfl hne, fun _ hi => absurd hi List.not_mem_nil⟩

/-- **The first refuses it exactly when it can.** -/
theorem regRefused_iff (h : SmallCells res) (key : Option Key) (index : U32) :
    RegRefused res key index ↔ RegRefusable res key index := by
  rw [RegRefused, RegRefusable, getBaseAddressVirtual_eq, ← h.regCells_toNat, ← or_assoc,
    ← mappedAt_eq_zero_iff]
  by_cases hcheck : regAddrCells res key = 0 ∨
      getPropLen (res.findProperty key "reg") / 4 < (index + 1) * regCells res key
  · rw [if_pos hcheck]
    exact iff_of_true (refused_unread _ _ _) (.inl hcheck)
  · rw [if_neg hcheck]
    by_cases hin : RecordInside (res.findProperty key "reg") index (regCells res key).toNat
    · refine iff_of_true ⟨fun _ => hin, fun i hi => ?_⟩ (.inr (.inl hin))
      obtain ⟨j, hj, rfl⟩ := List.mem_map.mp hi
      have hcells := h.regCells_toNat key
      exact place_lt_of_inside hin (by rw [List.mem_range] at hj; omega)
    · constructor
      · rintro ⟨hzero, hreads⟩
        exact .inr (.inr ⟨hreads, not_not.mp fun hne => hin (hzero hne)⟩)
      · rintro (hc | hi | ⟨hreads, hzero⟩)
        · exact absurd hc hcheck
        · exact absurd hi hin
        · exact ⟨fun hne => absurd hzero hne, hreads⟩

/-- **What the entry's number is refused by**, once the interrupt parent is known. -/
theorem interruptOf_refused_iff (parent : Option Key) (index : U32) :
    (((interruptOf res parent (some key) index).1 ≠ -1 →
        RecordInside (res.findProperty (some key) "interrupts") index
          (interruptCells res parent).toNat) ∧
      ReadsInside (res.findProperty (some key) "interrupts")
        (interruptOf res parent (some key) index).2) ↔
      EntryRefusable res parent (some key) index := by
  rw [EntryRefusable, interruptOf]
  by_cases husable : parent.isNone = true ∨ interruptCells res parent < 2
  · rw [if_pos husable]
    refine iff_of_true (refused_unread _ _ _) ?_
    rcases husable with hnone | htwo
    · exact .inl (Option.isNone_iff_eq_none.mp hnone)
    · exact .inr (.inl htwo)
  · rw [if_neg husable]
    have hsome : ¬ parent = none :=
      fun hnone => husable (.inl (Option.isNone_iff_eq_none.mpr hnone))
    have htwo : ¬ interruptCells res parent < 2 := fun htwo => husable (.inr htwo)
    cases hprop : res.findProperty (some key) "interrupts" with
    | none => exact iff_of_true (refused_unread _ _ _) (.inr (.inr (.inl rfl)))
    | some prop =>
      simp only
      by_cases hcheck : prop.len / 4 < (index + 1) * interruptCells res parent
      · rw [if_pos hcheck]
        exact iff_of_true (refused_unread _ _ _) (.inr (.inr (.inr (.inl hcheck))))
      · rw [if_neg hcheck, readEntry_fst]
        have hreads : (readEntry prop (interruptCells res parent) index).2
            = [place (index * interruptCells res parent) 0,
              place (index * interruptCells res parent) 1] := rfl
        have hnumber : numberAt res parent (some key) index
            = prop.value (place (index * interruptCells res parent) 1) + BitVec.ofNat 32
              (typeOffset (prop.value (place (index * interruptCells res parent) 0))) := by
          rw [numberAt, hprop]
          rfl
        rw [hreads, ← hnumber]
        by_cases hin : RecordInside (some prop) index (interruptCells res parent).toNat
        · refine iff_of_true ⟨fun _ => hin, fun i hi => ?_⟩ (.inr (.inr (.inr (.inr (.inl hin)))))
          have htwo' : 2 ≤ (interruptCells res parent).toNat := BitVec.not_lt.mp htwo
          simp only [List.mem_cons, List.not_mem_nil, or_false] at hi
          rcases hi with rfl | rfl
          · exact place_lt_of_inside hin (by omega)
          · exact place_lt_of_inside hin (by omega)
        · constructor
          · rintro ⟨hzero, hinside⟩
            exact .inr (.inr (.inr (.inr (.inr
              ⟨hinside, not_not.mp fun hne => hin (hzero hne)⟩))))
          · rintro (hc | hc | hc | hc | hc | ⟨hinside, hzero⟩)
            · exact absurd hc hsome
            · exact absurd hc htwo
            · exact absurd hc (Option.some_ne_none prop)
            · exact absurd hc hcheck
            · exact absurd hc hin
            · exact ⟨fun hne => absurd hzero hne, hinside⟩

/-- **The second refuses it exactly when it can.** -/
theorem entryRefused_iff (h : Walks res root beneath) (hkey : key ∈ nodes root beneath)
    (hn : 2 * (nodes root beneath).length < n)
    (hparent : ParentOf res (nodes root beneath) (some key) parent) (index : U32) :
    EntryRefused res n parent (some key) index ↔ EntryRefusable res parent (some key) index := by
  obtain ⟨l, hl, rfl⟩ := hparent
  obtain ⟨l', hl', hlen⟩ := h.climb hkey
  obtain rfl := hl.unique hl'
  have hrun := h.getInterrupt_eq hl hlen hn index
  refine Iff.trans ⟨?_, ?_⟩ (interruptOf_refused_iff _ index)
  · rintro ⟨r, reads, heq, hrefused⟩
    rw [Option.some.inj (hrun.symm.trans heq)]
    exact hrefused
  · exact fun hrefused => ⟨_, _, hrun, hrefused⟩

/-- **An index past the end is refused exactly when the product does not wrap to something that
passes**, or nothing comes of it. -/
theorem index_refused_iff (h : Walks res root beneath) (hcells : SmallCells res)
    (hkey : key ∈ nodes root beneath) (hn : 2 * (nodes root beneath).length < n)
    (hparent : ParentOf res (nodes root beneath) (some key) parent) (index : U32) :
    (RegRefused res (some key) index ↔ RegRefusable res (some key) index) ∧
      (EntryRefused res n parent (some key) index ↔ EntryRefusable res parent (some key) index) :=
  ⟨regRefused_iff hcells (some key) index, entryRefused_iff h hkey hn hparent index⟩

/-! ## One record, and index 2^31 -/

/-- A device with one "reg" record and one interrupt, of two cells each. -/
def oneRecord : Resource (Fin 3) where
  getParent
    | none => some 0
    | some 0 => none
    | _ => some 0
  findProperty
    | none, _ => none
    | some 0, propname =>
      if propname = "#address-cells" then some ⟨4, fun _ => 1⟩
      else if propname = "ranges" then some ⟨0, fun _ => 0⟩
      else if propname = "interrupt-parent" then some ⟨4, fun _ => 7⟩
      else none
    | some 1, propname =>
      if propname = "reg" then some ⟨8, fun i => [0xFE201000, 0x1000].getD i 0⟩
      else if propname = "interrupts" then some ⟨8, fun i => [0, 29].getD i 0⟩
      else none
    | some 2, propname =>
      if propname = "phandle" then some ⟨4, fun _ => 7⟩
      else if propname = "#interrupt-cells" then some ⟨4, fun _ => 2⟩
      else none
  getChild
    | some 1, _ => none
    | some 2, _ => none
    | _, none => some 1
    | _, some 1 => some 2
    | _, _ => none
  openKey path := if path = "/" then some 0 else none
  noValue _ := 0

theorem walks_oneRecord : Walks oneRecord 0 deviceBesideGic where
  linked := ⟨rfl, rfl, rfl, rfl, rfl, rfl, rfl⟩
  root_parent := rfl
  null_parent := rfl
  null_property _ := rfl
  open_root := rfl

theorem smallCells_oneRecord : SmallCells oneRecord where
  address := Option.forall.mpr ⟨by decide, by decide⟩
  size := Option.forall.mpr ⟨by decide, by decide⟩
  interrupt := Option.forall.mpr ⟨by decide, by decide⟩

theorem parentOf_oneRecord : ParentOf oneRecord (nodes 0 deviceBesideGic) (some 1) (some 2) :=
  ⟨[1, 0], ⟨rfl, rfl, rfl⟩, rfl⟩

/-- **Index 2^31 is answered with the one record there is**, and with the one interrupt. -/
theorem index_not_refused : Walks oneRecord 0 deviceBesideGic ∧ SmallCells oneRecord ∧
    ParentOf oneRecord (nodes 0 deviceBesideGic) (some 1) (some 2) ∧
    ¬ RegRefused oneRecord (some 1) 0x80000000 ∧
    ¬ EntryRefused oneRecord 7 (some 2) (some 1) 0x80000000 := by
  refine ⟨walks_oneRecord, smallCells_oneRecord, parentOf_oneRecord, fun h => ?_, fun h => ?_⟩
  · exact absurd (h.1 (by decide)) (by rw [RecordInside]; decide)
  · obtain ⟨r, reads, heq, hinside, -⟩ := h
    have hrun : getInterrupt oneRecord 7 (some 1) 0x80000000 = some (61, [0, 1]) := by decide
    obtain ⟨rfl, rfl⟩ := Prod.mk.inj (Option.some.inj (hrun.symm.trans heq))
    exact absurd (hinside (by decide)) (by rw [RecordInside]; decide)

theorem index_refused_iff_first : RegRefused oneRecord (some 1) 0 ∧
    EntryRefused oneRecord 7 (some 2) (some 1) 0 := by
  obtain ⟨hreg, hentry⟩ := index_refused_iff (n := 7) walks_oneRecord smallCells_oneRecord
    (by decide : 1 ∈ nodes 0 deviceBesideGic) (by decide) parentOf_oneRecord 0
  refine ⟨hreg.mpr (.inr (.inr (.inl ?_))), hentry.mpr (.inr (.inr (.inr (.inr (.inl ?_)))))⟩
  · rw [RecordInside]
    decide
  · rw [RecordInside]
    decide

end Devtree
