import Emu68Common.Devtree.Index

/-!
# Devtree/Null — the key that is not there

No key finds no property, but its parent is the root.  So what only looks at the node itself reads
nothing there, and what maps an address through the parent reads the root's `ranges` and
`dma-ranges` (`null_key_iff`).

    NULL ──getParent──▸ root ──dt_map──▸ an address
      └────findProperty──▸ nothing
-/

namespace Devtree

open Machinery

variable {Key : Type} {res : Resource Key} {root : Key} {beneath : Forest Key} {n : ℕ}

/-! ## The outputs -/

/-- `DT_GetDmaAddress`: its return value, and `*dma` after it. -/
def getDmaAddressTo (tree : DeviceTree Key) (key : Option Key) (phys len dma : U32) : Bool × U32 :=
  match getDmaAddress tree key phys len with
  | none => (false, dma)
  | some dma => (true, dma)

/-- `DT_GetDmaWindow`: its return value, and its three outputs after it. -/
def getDmaWindowTo (tree : DeviceTree Key) (key : Option Key) (phys len : U32) (o : DmaWindow) :
    Bool × DmaWindow :=
  match getDmaWindow tree key phys len with
  | none => (false, o)
  | some o => (true, o)

/-- What the helpers are called with, beside the key; the outputs as they are before. -/
structure Args where
  propname : String
  defVal : U32
  phandle : U32
  index : U32
  phys : U32
  len : U32
  out : DmaWindow

/-- **"Nothing there"**: every helper returns its default, and writes no output. -/
structure NothingThere (res : Resource Key) (n : ℕ) (key : Option Key) (a : Args) : Prop where
  value : getPropertyValueULONG res.toDeviceTree key a.propname a.defVal = a.defVal
  node : findByPHandle res a.phandle n key = some none
  base : (getBaseAddressVirtual res key a.index).1 = 0
  dma : getDmaAddressTo res.toDeviceTree key a.phys a.len a.out.dma = (false, a.out.dma)
  window : getDmaWindowTo res.toDeviceTree key a.phys a.len a.out = (false, a.out)
  interrupt : ∃ reads, getInterrupt res n key a.index = some (-1, reads)

/-! ## What the root maps -/

/-- **The root's "dma-ranges" map the span.** -/
def RootMapsDma (res : Resource Key) (root : Key) (phys len : U32) : Prop :=
  len ≠ 0 ∧ ∃ dest, MapsTo res.toDeviceTree (some root) "dma-ranges" false (phys.setWidth 64)
    (len.setWidth 64) dest

/-- **The index wraps to a record of no cells, and the root's "ranges" map the number there**, which
is in front of address 0. -/
def RootMapsReg (res : Resource Key) (root : Key) (index : U32) : Prop :=
  regAddrCells res none ≠ 0 ∧ (index + 1) * regCells res none = 0 ∧
    ∃ dest, MapsTo res.toDeviceTree (some root) "ranges" true (regNumberAt res none index) 1 dest ∧
      dest ≠ 0

/-! ## One helper at a time -/

namespace Walks

variable (h : Walks res root beneath)

include h

/-- The walk up from nothing ends at once, and the search of the tree ends. -/
theorem getInterrupt_null (hn : 2 * (nodes root beneath).length < n) (index : U32) :
    getInterrupt res n none index = some (-1, []) := by
  rw [h.getInterrupt_eq (l := []) rfl (Nat.zero_le _) hn, interruptOf, h.null_property]
  split <;> rfl

/-- `DT_GetDmaAddress` fails exactly if the root does not map the span. -/
theorem getDmaAddress_null (phys len : U32) :
    getDmaAddress res.toDeviceTree none phys len = none ↔ ¬ RootMapsDma res root phys len := by
  rw [getDmaAddress, h.null_parent, RootMapsDma]
  by_cases hlen : len = 0
  · rw [if_pos hlen]
    exact iff_of_true rfl fun hmaps => hmaps.1 hlen
  · have hiff (out : U32) : (dtMap res.toDeviceTree (some root) "dma-ranges" false
        (phys.setWidth 64) (len.setWidth 64)).map (·.out) = some out ↔
        ∃ dest, MapsTo res.toDeviceTree (some root) "dma-ranges" false (phys.setWidth 64)
          (len.setWidth 64) dest ∧ out = dest.setWidth 32 :=
      dtMap_out_iff (setWidth_ne_zero hlen) out
    rw [if_neg hlen, Option.eq_none_iff_forall_ne_some]
    constructor
    · rintro hnone ⟨-, dest, hdest⟩
      exact hnone _ ((hiff _).mpr ⟨dest, hdest, rfl⟩)
    · intro hmaps out hout
      obtain ⟨dest, hdest, -⟩ := (hiff out).mp hout
      exact hmaps ⟨hlen, dest, hdest⟩

/-- `DT_GetBaseAddressVirtual` does exactly if the wrapped record comes to nothing. -/
theorem getBaseAddressVirtual_null (index : U32) :
    (getBaseAddressVirtual res none index).1 = 0 ↔ ¬ RootMapsReg res root index := by
  have hlen : getPropLen (res.findProperty none "reg") / 4 = 0 := by
    rw [h.null_property]
    rfl
  have hlt : ∀ c : U32, 0 < c ↔ ¬ c = 0 := fun c => by
    rw [BitVec.lt_def, ← BitVec.toNat_inj]
    exact Nat.pos_iff_ne_zero
  simp only [getBaseAddressVirtual_eq, hlen, hlt, RootMapsReg]
  by_cases hcheck : regAddrCells res none = 0 ∨ ¬ (index + 1) * regCells res none = 0
  · rw [if_pos hcheck]
    refine iff_of_true rfl fun ⟨haddr, hzero, _⟩ => ?_
    exact hcheck.elim haddr fun hne => hne hzero
  · rw [if_neg hcheck, mappedAt_eq_zero_iff, h.null_parent]
    rw [not_or, not_not] at hcheck
    constructor
    · rintro hall ⟨-, -, dest, hdest, hne⟩
      exact hne (hall dest hdest)
    · intro hnone dest hdest
      exact not_not.mp fun hne => hnone ⟨hcheck.1, hcheck.2, dest, hdest, hne⟩

end Walks

/-- `DT_GetDmaWindow` fails with `DT_GetDmaAddress`. -/
theorem getDmaWindow_eq_none_iff (tree : DeviceTree Key) (key : Option Key) (phys len : U32) :
    getDmaWindow tree key phys len = none ↔ getDmaAddress tree key phys len = none := by
  rw [getDmaWindow, getDmaAddress]
  split
  · exact iff_of_true rfl rfl
  · rw [Option.map_eq_none_iff, Option.map_eq_none_iff]

theorem getDmaAddressTo_eq_iff {tree : DeviceTree Key} {key : Option Key} {phys len dma : U32} :
    getDmaAddressTo tree key phys len dma = (false, dma) ↔
      getDmaAddress tree key phys len = none := by
  rw [getDmaAddressTo]
  cases getDmaAddress tree key phys len with
  | none => exact iff_of_true rfl rfl
  | some d => exact iff_of_false (fun h => nomatch (Prod.mk.inj h).1) nofun

theorem getDmaWindowTo_eq_iff {tree : DeviceTree Key} {key : Option Key} {phys len : U32}
    {o : DmaWindow} : getDmaWindowTo tree key phys len o = (false, o) ↔
      getDmaWindow tree key phys len = none := by
  rw [getDmaWindowTo]
  cases getDmaWindow tree key phys len with
  | none => exact iff_of_true rfl rfl
  | some d => exact iff_of_false (fun h => nomatch (Prod.mk.inj h).1) nofun

/-! ## All of them -/

/-- **A `NULL` key reads as nothing there exactly if the root maps nothing**: neither the span, nor
the number at the wrapped offset. -/
theorem null_key_iff (h : Walks res root beneath) (hn : 2 * (nodes root beneath).length < n)
    (a : Args) : NothingThere res n none a ↔
      ¬ RootMapsDma res root a.phys a.len ∧ ¬ RootMapsReg res root a.index := by
  constructor
  · intro hnothing
    exact ⟨(h.getDmaAddress_null _ _).mp (getDmaAddressTo_eq_iff.mp hnothing.dma),
      (h.getBaseAddressVirtual_null _).mp hnothing.base⟩
  · rintro ⟨hdma, hreg⟩
    have hnone := (h.getDmaAddress_null a.phys a.len).mpr hdma
    obtain ⟨n, rfl⟩ := Nat.exists_eq_add_one_of_ne_zero (Nat.ne_of_gt (Nat.zero_lt_of_lt hn))
    exact {
      value := by rw [getPropertyValueULONG, h.null_property]
      node := rfl
      base := (h.getBaseAddressVirtual_null a.index).mpr hreg
      dma := getDmaAddressTo_eq_iff.mpr hnone
      window := getDmaWindowTo_eq_iff.mpr ((getDmaWindow_eq_none_iff _ _ _ _).mpr hnone)
      interrupt := ⟨[], h.getInterrupt_null hn a.index⟩ }

/-! ## A root that is a bus -/

/-- A root alone, whose empty "ranges" and "dma-ranges" map every address to itself. -/
def rootBus : Resource (Fin 1) where
  getParent
    | none => some 0
    | some _ => none
  findProperty
    | none, _ => none
    | some _, propname =>
      if propname = "#address-cells" then some ⟨4, fun _ => 1⟩
      else if propname = "ranges" ∨ propname = "dma-ranges" then some ⟨0, fun _ => 0⟩
      else none
  getChild _ _ := none
  openKey path := if path = "/" then some 0 else none
  noValue _ := 5

theorem walks_rootBus : Walks rootBus 0 .nil where
  linked := rfl
  root_parent := rfl
  null_parent := rfl
  null_property _ := rfl
  open_root := rfl

/-- A page, and the index that makes the product of two cells wrap. -/
def pageAtWrap : Args := ⟨"phandle", 0, 0, 0x7FFFFFFF, 0x1000, 0x1000, ⟨0, 0, 0⟩⟩

/-- **The page is mapped for no device at all**, and what is in front of address 0 is its
address. -/
theorem null_key_maps : Walks rootBus 0 .nil ∧ ¬ NothingThere rootBus 3 none pageAtWrap ∧
    getDmaAddressTo rootBus.toDeviceTree none 0x1000 0x1000 0 = (true, 0x1000) ∧
    (getBaseAddressVirtual rootBus none 0x7FFFFFFF).1 = 5 := by
  have hdma : getDmaAddressTo rootBus.toDeviceTree none 0x1000 0x1000 0 = (true, 0x1000) := by
    decide
  refine ⟨walks_rootBus, fun h => ?_, hdma, by decide⟩
  exact absurd (congrArg Prod.fst (hdma.symm.trans h.dma)) (by decide)

theorem null_key_iff_gic : NothingThere deviceAndGic 7 none pageAtWrap :=
  (null_key_iff walks_deviceAndGic (by decide) pageAtWrap).mpr
    ⟨fun ⟨_, _, _, hp, _⟩ => (nomatch hp), fun ⟨_, _, _, ⟨_, hp, _⟩, _⟩ => (nomatch hp)⟩

end Devtree
