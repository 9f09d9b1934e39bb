import Emu68Common.Devtree.Cells
import Emu68Common.Machinery.Forest

/-!
# Devtree/Lookup — registers and interrupts of a node

The rest of `devtree.c` that a driver asks for: where a node's registers are
(`getBaseAddressVirtual`) and which interrupt it has (`getInterrupt`), by a walk up to the nearest
`interrupt-parent` (`dtFindUp`) and a search of the whole tree for the node it names
(`findByPHandle`).  Of the record that is looked up, the places of the cells read are kept beside
the result.  The walks go as far as the resource leads them, so they take a number of steps.

    key ──dtFindUp──▸ phandle ──findByPHandle──▸ #interrupt-cells ──readEntry──▸ number
-/

namespace Devtree

open Machinery

/-- **`devicetree.resource`** with the calls these need: the children of a node in their order, and
a path opened.  What memory holds from the value of no property on, which is `NULL`, is
`noValue`. -/
structure Resource (Key : Type) extends DeviceTree Key where
  getChild : Option Key → Option Key → Option Key
  openKey : String → Option Key
  noValue : ℕ → U32

variable {Key : Type} (res : Resource Key)

/-! ## Cells behind a pointer -/

/-- The place of a cell, from a pointer that is `at` cells into the value: a 32-bit address, so
places repeat every 2^30 cells. -/
def place (start : U32) (i : ℕ) : ℕ := (start.toNat + i) % 2 ^ 30

/-- `DT_GetPropValue`: the cells from a property's value on. -/
def getPropValue : Option Property → ℕ → U32
  | none => res.noValue
  | some p => p.value

/-- The loop of `DT_GetNumber`, and the places it reads. -/
def readNumberLoop (cells : ℕ → U32) (start : U32) (value : U64) (i : ℕ) : ℕ → U64 × List ℕ
  | 0 => (value, [])
  | n + 1 =>
    let (value, reads) := readNumberLoop cells start
      ((value <<< 32) ||| (cells (place start i)).setWidth 64) (i + 1) n
    (value, place start i :: reads)

/-- `DT_GetNumber(ptr, n)` for a pointer that is `start` cells into the value. -/
def readNumber (cells : ℕ → U32) (start n : U32) : U64 × List ℕ :=
  readNumberLoop cells start 0 0 n.toNat

/-! ## Registers -/

/-- **`DT_GetBaseAddressVirtual`**: the address, 0 for `NULL`; and the places in "reg" it reads. -/
def getBaseAddressVirtual (key : Option Key) (index : U32) : U32 × List ℕ :=
  let bus := res.getParent key
  let addrCells := getPropertyValueULONG res.toDeviceTree bus "#address-cells" 2
  let sizeCells := getPropertyValueULONG res.toDeviceTree bus "#size-cells" 1
  let recordCells := addrCells + sizeCells
  let reg := res.findProperty key "reg"
  if addrCells = 0 ∨ getPropLen reg / 4 < (index + 1) * recordCells then (0, [])
  else
    let (addr, reads) := readNumber (getPropValue res reg) (index * recordCells) addrCells
    match dtMap res.toDeviceTree bus "ranges" true addr 1 with
    | none => (0, reads)
    | some r => (r.out, reads)

/-! ## Interrupts -/

/-- `dt_find_up`: the nearest node, going up from this one, that has the property. -/
def dtFindUp (propname : String) : ℕ → Option Key → Option (Option Key)
  | 0, _ => none
  | n + 1, key =>
    if key.isSome ∧ (res.findProperty key propname).isNone then
      dtFindUp propname n (res.getParent key)
    else some key

/-- `DT_GetPropLen(p) >= sizeof(u32) && *(const u32 *)DT_GetPropValue(p) == phandle` -/
def carries (phandle : U32) (key : Key) : Bool :=
  let p := res.findProperty (some key) "phandle"
  4 ≤ getPropLen p && getPropValue res p 0 == phandle

mutual

/-- **`DT_FindByPHandle`**: the first node at or below this one that carries the phandle. -/
def findByPHandle (phandle : U32) : ℕ → Option Key → Option (Option Key)
  | 0, _ => none
  | _ + 1, none => some none
  | n + 1, some key =>
    if carries res phandle key then some (some key)
    else findBelow phandle n key (res.getChild (some key) none)

/-- Its loop over the children, from this one on. -/
def findBelow (phandle : U32) : ℕ → Key → Option Key → Option (Option Key)
  | 0, _, _ => none
  | _ + 1, _, none => some none
  | n + 1, key, some c => do
    match ← findByPHandle phandle n (some c) with
    | some found => some (some found)
    | none => findBelow phandle n key (res.getChild (some key) (some c))

end

/-- The entry of "interrupts" at an index: the number, with what its type adds. -/
def readEntry (prop : Property) (interruptCells index : U32) : U32 × List ℕ :=
  let ptr := index * interruptCells
  let interruptType := prop.value (place ptr 0)
  let interruptNumber := prop.value (place ptr 1)
  let interruptNumber :=
    if interruptType = 0 then interruptNumber + 32
    else if interruptType = 1 then interruptNumber + 16
    else interruptNumber
  (interruptNumber, [place ptr 0, place ptr 1])

/-- **`DT_GetInterrupt`**: the interrupt, or -1; and the places in "interrupts" it reads. -/
def getInterrupt (n : ℕ) (key : Option Key) (index : U32) : Option (U32 × List ℕ) := do
  let namedAt ← dtFindUp res "interrupt-parent" n key
  let phandle := getPropertyValueULONG res.toDeviceTree namedAt "interrupt-parent" 0
  let root := res.openKey "/"
  let interruptParent ← findByPHandle res phandle n root
  let interruptCells :=
    getPropertyValueULONG res.toDeviceTree interruptParent "#interrupt-cells" 0
  if interruptParent.isNone ∨ interruptCells < 2 then return (-1, [])
  match res.findProperty key "interrupts" with
  | none => return (-1, [])
  | some prop =>
    if prop.len / 4 < (index + 1) * interruptCells then return (-1, [])
    return readEntry prop interruptCells index

variable {res}

/-! ## Offsets -/

/-- **The bound is a product in 32 bits**, index plus one included. -/
theorem bound_toNat (index c : U32) :
    ((index + 1) * c).toNat = (index.toNat + 1) * c.toNat % 2 ^ 32 := by
  have hone : (1 : U32).toNat = 1 := rfl
  rw [BitVec.toNat_mul, BitVec.toNat_add, hone, Nat.mod_mul_mod]

/-- An offset that stays in the address space is the place. -/
theorem place_eq {index c : U32} {i : ℕ} (h : index.toNat * c.toNat + i < 2 ^ 30) :
    place (index * c) i = index.toNat * c.toNat + i := by
  rw [place, BitVec.toNat_mul, Nat.mod_eq_of_lt (by omega : index.toNat * c.toNat < 2 ^ 32),
    Nat.mod_eq_of_lt h]

/-! ## Reading a number -/

/-- **A number is read from the places behind its pointer**, in order. -/
theorem readNumberLoop_eq (cells : ℕ → U32) (start : U32) (value : U64) (i n : ℕ) :
    readNumberLoop cells start value i n
      = (getNumberLoop value (fun j => cells (place start (i + j))) n,
        (List.range n).map fun j => place start (i + j)) := by
  induction n generalizing value i with
  | zero => rfl
  | succ n ih =>
    rw [readNumberLoop, ih, getNumberLoop, List.range_succ_eq_map, List.map_cons, List.map_map]
    simp only [Function.comp_def, Nat.add_zero, Nat.succ_eq_add_one, Nat.add_assoc, Nat.add_comm 1]

/-! ## Walking a finite tree -/

/-- The way from a node to its parent. -/
abbrev Resource.parent (res : Resource Key) (k : Key) : Option Key := res.getParent (some k)

/-- The way from a child of a node to the next. -/
abbrev Resource.child (res : Resource Key) (k : Key) (c : Option Key) : Option Key :=
  res.getChild (some k) c

/-- **The resource walks a finite tree**: `root`, and what is beneath it.  Its parent is `NULL`, and
the parent of `NULL` is the root again; a property lookup on `NULL` finds nothing. -/
structure Walks (res : Resource Key) (root : Key) (beneath : Forest Key) : Prop where
  linked : beneath.Linked res.parent res.child root none
  root_parent : res.getParent (some root) = none
  null_parent : res.getParent none = some root
  null_property : ∀ propname, res.findProperty none propname = none
  open_root : res.openKey "/" = some root

variable {root up key : Key} {prev : Option Key} {beneath f : Forest Key} {l : List Key} {n : ℕ}
  {phandle index : U32}

/-- Whether a node has a property. -/
def has (res : Resource Key) (propname : String) (k : Key) : Bool :=
  (res.findProperty (some k) propname).isSome

/-- **The walk up** stops at the first node on the way that has the property. -/
theorem dtFindUp_eq {key : Option Key} (propname : String) (h : Forest.Climb res.parent key l)
    (hn : l.length < n) : dtFindUp res propname n key = some (l.find? (has res propname)) := by
  induction l generalizing key n with
  | nil =>
    obtain ⟨n, rfl⟩ := Nat.exists_eq_add_one_of_ne_zero (Nat.ne_of_gt hn)
    obtain rfl : key = none := h
    rfl
  | cons a l ih =>
    obtain ⟨n, rfl⟩ := Nat.exists_eq_add_one_of_ne_zero (Nat.ne_of_gt (Nat.zero_lt_of_lt hn))
    obtain ⟨rfl, hup⟩ := h
    rw [dtFindUp]
    by_cases hprop : has res propname a = true
    · rw [List.find?_cons_of_pos hprop, if_neg]
      rw [has, ← Option.not_isNone, Bool.not_eq_true'] at hprop
      rw [hprop]
      exact fun h => Bool.false_ne_true h.2
    · rw [List.find?_cons_of_neg hprop, if_pos, ih hup (Nat.lt_of_succ_lt_succ hn)]
      rw [has, Bool.not_eq_true, Option.isSome_eq_false_iff] at hprop
      exact ⟨rfl, hprop⟩

/-- **The search below a node** is the search of what is beneath it, in order. -/
theorem findBelow_eq (phandle : U32) (h : f.Linked res.parent res.child up prev)
    (hn : 2 * f.preorder.length < n) :
    findBelow res phandle n up (res.getChild (some up) prev)
      = some (f.preorder.find? (carries res phandle)) := by
  induction f generalizing up prev n with
  | nil =>
    obtain ⟨n, rfl⟩ := Nat.exists_eq_add_one_of_ne_zero (Nat.ne_of_gt hn)
    rw [show res.getChild (some up) prev = none from h]
    rfl
  | node a beneath beside ihbeneath ihbeside =>
    obtain ⟨hchild, -, hbeneath, hbeside⟩ := h
    rw [Forest.preorder, List.length_cons, List.length_append] at hn
    obtain ⟨n, rfl⟩ : ∃ m, n = m + 2 := ⟨n - 2, by omega⟩
    rw [show res.getChild (some up) prev = some a from hchild, findBelow, findByPHandle,
      Forest.preorder]
    by_cases hcarries : carries res phandle a = true
    · rw [if_pos hcarries, List.find?_cons_of_pos hcarries]
      rfl
    · rw [if_neg hcarries, List.find?_cons_of_neg hcarries, List.find?_append,
        ihbeneath hbeneath (by omega)]
      cases hfound : beneath.preorder.find? (carries res phandle) with
      | some found => rfl
      | none => exact ihbeside hbeside (by omega)

/-- **`DT_FindByPHandle` finds the first node in order**, at or below its key, that carries the
phandle. -/
theorem findByPHandle_eq (phandle : U32) (h : f.Linked res.parent res.child key none)
    (hn : 2 * f.preorder.length + 1 < n) :
    findByPHandle res phandle n (some key)
      = some ((key :: f.preorder).find? (carries res phandle)) := by
  obtain ⟨n, rfl⟩ := Nat.exists_eq_add_one_of_ne_zero (Nat.ne_of_gt (Nat.zero_lt_of_lt hn))
  rw [findByPHandle]
  by_cases hcarries : carries res phandle key = true
  · rw [if_pos hcarries, List.find?_cons_of_pos hcarries]
  · rw [if_neg hcarries, List.find?_cons_of_neg hcarries,
      findBelow_eq phandle h (Nat.lt_of_succ_lt_succ hn)]

/-! ## The interrupt parent -/

/-- The nodes of the tree. -/
abbrev nodes (root : Key) (beneath : Forest Key) : List Key := root :: beneath.preorder

/-- The phandle named by the nearest of these nodes that names one, 0 if none does. -/
def namedPHandle (res : Resource Key) (l : List Key) : U32 :=
  getPropertyValueULONG res.toDeviceTree (l.find? (has res "interrupt-parent")) "interrupt-parent" 0

/-- The node that carries it. -/
def interruptParent (res : Resource Key) (all l : List Key) : Option Key :=
  all.find? (carries res (namedPHandle res l))

/-- The length of one of its entries. -/
def interruptCells (res : Resource Key) (parent : Option Key) : U32 :=
  getPropertyValueULONG res.toDeviceTree parent "#interrupt-cells" 0

/-- What `getInterrupt` makes of an interrupt parent. -/
def interruptOf (res : Resource Key) (parent key : Option Key) (index : U32) : U32 × List ℕ :=
  if parent.isNone ∨ interruptCells res parent < 2 then (-1, [])
  else match res.findProperty key "interrupts" with
    | none => (-1, [])
    | some prop =>
      if prop.len / 4 < (index + 1) * interruptCells res parent then (-1, [])
      else readEntry prop (interruptCells res parent) index

namespace Walks

variable (h : Walks res root beneath)

include h

/-- Every node has a way up. -/
theorem climb (hkey : key ∈ nodes root beneath) : ∃ l, Forest.Climb res.parent (some key) l ∧
    l.length ≤ (nodes root beneath).length := by
  have hroot : Forest.Climb res.parent (some root) [root] := ⟨rfl, h.root_parent⟩
  rcases List.mem_cons.mp hkey with rfl | hkey
  · exact ⟨[key], hroot, by simp⟩
  · obtain ⟨l, hl, hle⟩ := h.linked.climb hroot hkey
    exact ⟨l, hl, by rw [List.length_cons]; simp only [List.length_singleton] at hle; omega⟩

/-- **The walks end**, and what they find decides. -/
theorem getInterrupt_eq {key : Option Key} (hl : Forest.Climb res.parent key l)
    (hlen : l.length ≤ (nodes root beneath).length) (hn : 2 * (nodes root beneath).length < n)
    (index : U32) : getInterrupt res n key index
      = some (interruptOf res (interruptParent res (nodes root beneath) l) key index) := by
  rw [List.length_cons] at hlen hn
  have hfind : findByPHandle res (namedPHandle res l) n (some root)
      = some (interruptParent res (nodes root beneath) l) :=
    findByPHandle_eq _ h.linked (by omega)
  generalize interruptParent res (nodes root beneath) l = parent at hfind ⊢
  rw [namedPHandle] at hfind
  rw [getInterrupt, dtFindUp_eq "interrupt-parent" hl (by omega)]
  simp only [Option.bind_eq_bind, Option.bind_some, h.open_root, hfind]
  rw [interruptOf, interruptCells]
  by_cases hparent : parent.isNone ∨
      getPropertyValueULONG res.toDeviceTree parent "#interrupt-cells" 0 < 2
  · rw [if_pos hparent, if_pos hparent]
    rfl
  · rw [if_neg hparent, if_neg hparent]
    cases res.findProperty key "interrupts" with
    | none => rfl
    | some prop => exact (apply_ite some _ _ _).symm

end Walks

end Devtree
