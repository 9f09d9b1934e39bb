import Emu68Common.Devtree.Lookup

/-!
# Devtree/Interrupt — an interrupt is resolved by the tree

In a tree whose phandles tell its nodes apart (`PHandles`), the walk up and the search of the whole
tree find one interrupt parent or none (`interruptParent_iff`), and `getInterrupt` answers exactly
when the entry is there to be read (`interrupt_follows_tree`).

    key ─▸ … ─▸ nearest "interrupt-parent" = phandle ─▸ the node that carries it ─▸ #interrupt-cells
-/

namespace Devtree

open Machinery

variable {Key : Type} {res : Resource Key} {root key parent k : Key} {beneath : Forest Key}
  {all l : List Key} {prop : Property} {index phandle v : U32} {n : ℕ}

/-! ## What the tree says -/

/-- **The nearest node at or above this one that has "interrupt-parent" names this phandle.** -/
def Names (res : Resource Key) (key : Key) (phandle : U32) : Prop :=
  ∃ l k p, Forest.Climb res.parent (some key) l ∧ l.find? (has res "interrupt-parent") = some k ∧
    res.findProperty (some k) "interrupt-parent" = some p ∧ 4 ≤ p.len ∧ p.value 0 = phandle

/-- **No node carries phandle 0**, and no two nodes carry the same. -/
structure PHandles (res : Resource Key) (all : List Key) : Prop where
  nonzero : ∀ k ∈ all, carries res 0 k = false
  unique : ∀ v, ∀ k ∈ all, ∀ k' ∈ all, carries res v k = true → carries res v k' = true → k = k'

/-- **Entry `index` of a node's interrupts can be read**: the node named is there, its entries hold
a type and a number, and the whole entry is in the property. -/
structure Resolved (res : Resource Key) (all : List Key) (key : Key) (index : U32) (parent : Key)
    (prop : Property) : Prop where
  named : ∃ v, Names res key v ∧ carries res v parent = true
  anywhere : parent ∈ all
  cells : 2 ≤ interruptCells res (some parent)
  interrupts : res.findProperty (some key) "interrupts" = some prop
  complete : (index.toNat + 1) * (interruptCells res (some parent)).toNat ≤ prop.len.toNat / 4

/-- What the type of an interrupt adds to its number: 32 for a shared one, 16 for a private one. -/
def typeOffset (type : U32) : ℕ := if type = 0 then 32 else if type = 1 then 16 else 0

/-- A node carries the phandle its property holds. -/
theorem carries_iff : carries res v k = true ↔
    ∃ p, res.findProperty (some k) "phandle" = some p ∧ 4 ≤ p.len ∧ p.value 0 = v := by
  rw [carries, Bool.and_eq_true, decide_eq_true_iff, beq_iff_eq]
  cases res.findProperty (some k) "phandle" with
  | none => exact ⟨fun h => absurd h.1 (by decide), nofun⟩
  | some p => exact ⟨fun h => ⟨p, rfl, h⟩, fun ⟨_, hp, h⟩ => Option.some.inj hp ▸ h⟩

/-! ## The interrupt parent -/

theorem Names.namedPHandle_eq (h : Names res key v) (hl : Forest.Climb res.parent (some key) l) :
    namedPHandle res l = v := by
  obtain ⟨l', k, p, hl', hfind, hp, hlen, rfl⟩ := h
  obtain rfl := hl.unique hl'
  rw [namedPHandle, hfind, getPropertyValueULONG, hp]
  exact if_pos hlen

/-- A phandle other than 0 is one that is named. -/
theorem Walks.names (h : Walks res root beneath) (hl : Forest.Climb res.parent (some key) l)
    (hne : namedPHandle res l ≠ 0) : Names res key (namedPHandle res l) := by
  rw [namedPHandle] at hne ⊢
  cases hfind : l.find? (has res "interrupt-parent") with
  | none =>
    rw [hfind, getPropertyValueULONG, h.null_property] at hne
    exact absurd rfl hne
  | some k =>
    rw [hfind] at hne
    have hk := List.find?_some hfind
    rw [has, Option.isSome_iff_exists] at hk
    obtain ⟨p, hp⟩ := hk
    refine ⟨l, k, p, hl, hfind, hp, ?_⟩
    rw [getPropertyValueULONG, hp] at hne ⊢
    by_cases hlen : 4 ≤ p.len
    · exact ⟨hlen, (if_pos hlen).symm⟩
    · exact absurd (if_neg hlen) hne

/-- **The interrupt parent is the one node that carries the phandle named.** -/
theorem interruptParent_iff (h : Walks res root beneath) (hp : PHandles res all)
    (hl : Forest.Climb res.parent (some key) l) : interruptParent res all l = some parent ↔
      (∃ v, Names res key v ∧ carries res v parent = true) ∧ parent ∈ all := by
  rw [interruptParent]
  constructor
  · intro hfind
    have hmem := List.mem_of_find?_eq_some hfind
    have hcarries := List.find?_some hfind
    refine ⟨⟨_, h.names hl fun h0 => ?_, hcarries⟩, hmem⟩
    rw [h0, hp.nonzero parent hmem] at hcarries
    exact Bool.false_ne_true hcarries
  · rintro ⟨⟨v, hnames, hcarries⟩, hmem⟩
    rw [hnames.namedPHandle_eq hl]
    cases hfind : all.find? (carries res v) with
    | none => exact absurd hcarries (List.find?_eq_none.mp hfind parent hmem)
    | some k =>
      rw [hp.unique v k (List.mem_of_find?_eq_some hfind) parent hmem (List.find?_some hfind)
        hcarries]

/-! ## The entry -/

/-- **The answer from an entry**: its number, and what its type adds. -/
theorem readEntry_fst (prop : Property) (c index : U32) :
    (readEntry prop c index).1 = prop.value (place (index * c) 1) +
      BitVec.ofNat 32 (typeOffset (prop.value (place (index * c) 0))) := by
  rw [readEntry, typeOffset]
  simp only
  split
  · rfl
  · split
    · rfl
    · exact (BitVec.add_zero _).symm

/-- **What is resolved is answered**, from the type and the number of the entry. -/
theorem Resolved.interruptOf_eq (h : Resolved res all key index parent prop)
    (hbound : (index.toNat + 1) * (interruptCells res (some parent)).toNat < 2 ^ 32) :
    (interruptOf res (some parent) (some key) index).1 =
      prop.value (index.toNat * (interruptCells res (some parent)).toNat + 1) +
        BitVec.ofNat 32 (typeOffset
          (prop.value (index.toNat * (interruptCells res (some parent)).toNat))) := by
  have hcells := h.cells
  have hcomplete := h.complete
  rw [interruptOf, h.interrupts]
  generalize interruptCells res (some parent) = c at hcells hcomplete hbound ⊢
  have hbound' : ((index + 1) * c).toNat = (index.toNat + 1) * c.toNat := by
    rw [bound_toNat, Nat.mod_eq_of_lt hbound]
  have hlen : prop.len.toNat < 2 ^ 32 := prop.len.isLt
  have hlast : (index.toNat + 1) * c.toNat = index.toNat * c.toNat + c.toNat := Nat.succ_mul _ _
  have htwo : 2 ≤ c.toNat := hcells
  have hcount : (prop.len / 4).toNat = prop.len.toNat / 4 := rfl
  have hin : ¬ prop.len / 4 < (index + 1) * c := by
    rw [BitVec.lt_def, hbound', hcount]
    omega
  rw [if_neg (by simpa using hcells)]
  simp only [if_neg hin, readEntry_fst]
  rw [place_eq (by omega), place_eq (by omega)]
  rfl

/-- **Nothing else is answered.** -/
theorem resolved_of_ne {parent : Option Key} (hparent : interruptParent res all l = parent)
    (hnamed : ∀ k, parent = some k →
      (∃ v, Names res key v ∧ carries res v k = true) ∧ k ∈ all)
    (hbound : ∀ k, parent = some k →
      (index.toNat + 1) * (interruptCells res (some k)).toNat < 2 ^ 32)
    (hne : (interruptOf res parent (some key) index).1 ≠ -1) :
    ∃ k prop, Resolved res all key index k prop := by
  rw [interruptOf] at hne
  cases parent with
  | none => exact absurd rfl hne
  | some k =>
    have hb := hbound k rfl
    by_cases hcells : interruptCells res (some k) < 2
    · rw [if_pos (.inr hcells)] at hne
      exact absurd rfl hne
    rw [if_neg (by simpa using hcells)] at hne
    cases hprop : res.findProperty (some key) "interrupts" with
    | none =>
      rw [hprop] at hne
      exact absurd rfl hne
    | some prop =>
      rw [hprop] at hne
      simp only at hne
      by_cases hin : prop.len / 4 < (index + 1) * interruptCells res (some k)
      · rw [if_pos hin] at hne
        exact absurd rfl hne
      · have hcount : (prop.len / 4).toNat = prop.len.toNat / 4 := rfl
        rw [BitVec.lt_def, bound_toNat, Nat.mod_eq_of_lt hb, hcount, not_lt] at hin
        obtain ⟨hnames, hmem⟩ := hnamed k rfl
        exact ⟨k, prop, hnames, hmem, BitVec.not_lt.mp hcells, hprop, hin⟩

/-! ## Resolution -/

/-- A number below 2^31 - 32 stays one with the offset of its type. -/
theorem toInt_add_typeOffset {number : U32} (type : U32) (h : number.toNat < 2 ^ 31 - 32) :
    (number + BitVec.ofNat 32 (typeOffset type)).toInt = number.toNat + typeOffset type := by
  have hle : typeOffset type ≤ 32 := by
    rw [typeOffset]
    split <;> (try split) <;> omega
  have hsum : (number + BitVec.ofNat 32 (typeOffset type)).toNat
      = number.toNat + typeOffset type := by
    rw [BitVec.toNat_add, BitVec.toNat_ofNat]
    omega
  rw [BitVec.toInt_eq_toNat_of_lt (by omega), hsum, Nat.cast_add]

/-- **Interrupt resolution follows the tree.**  The walks end.  `DT_GetInterrupt` answers only for
an entry that can be read, and for each such entry, with its number and the offset of its type.
`DT_FindByPHandle` finds the first node in order, at or below its key, that carries the phandle, and
`NULL` exactly if none does. -/
theorem interrupt_follows_tree (h : Walks res root beneath)
    (hp : PHandles res (nodes root beneath)) (hn : 2 * (nodes root beneath).length < n) :
    (∀ key ∈ nodes root beneath, ∀ index : U32,
      (∀ parent ∈ nodes root beneath, (∃ v, Names res key v ∧ carries res v parent = true) →
        (index.toNat + 1) * (interruptCells res (some parent)).toNat < 2 ^ 32) →
      ∃ r reads, getInterrupt res n (some key) index = some (r, reads) ∧
        (r.toInt ≠ -1 → ∃ parent prop, Resolved res (nodes root beneath) key index parent prop) ∧
        ∀ parent prop, Resolved res (nodes root beneath) key index parent prop →
          (prop.value (index.toNat * (interruptCells res (some parent)).toNat + 1)).toNat
              < 2 ^ 31 - 32 →
          r.toInt
            = (prop.value (index.toNat * (interruptCells res (some parent)).toNat + 1)).toNat
              + typeOffset
                (prop.value (index.toNat * (interruptCells res (some parent)).toNat))) ∧
    ∀ key f, (Forest.node root beneath .nil).Below key f → ∀ phandle,
      ∃ found, findByPHandle res phandle n (some key) = some found ∧
        found = (key :: f.preorder).find? (carries res phandle) ∧
        (found = none ↔ ∀ k ∈ key :: f.preorder, carries res phandle k = false) := by
  constructor
  · intro key hkey index hbound
    obtain ⟨l, hl, hlen⟩ := h.climb hkey
    have hiff (k : Key) : interruptParent res (nodes root beneath) l = some k ↔
        (∃ v, Names res key v ∧ carries res v k = true) ∧ k ∈ nodes root beneath :=
      interruptParent_iff h hp hl
    refine ⟨(interruptOf res (interruptParent res (nodes root beneath) l) (some key) index).1, _,
      h.getInterrupt_eq hl hlen hn index, fun hne => ?_, fun parent prop hres hlt => ?_⟩
    · refine resolved_of_ne rfl (fun k hk => (hiff k).mp hk) (fun k hk => ?_) fun heq => ?_
      · obtain ⟨hnames, hmem⟩ := (hiff k).mp hk
        exact hbound k hmem hnames
      · rw [heq] at hne
        exact hne rfl
    · rw [(hiff parent).mpr ⟨hres.named, hres.anywhere⟩,
        hres.interruptOf_eq (hbound parent hres.anywhere hres.named), toInt_add_typeOffset _ hlt]
  · intro key f hbelow phandle
    have hlinked : f.Linked res.parent res.child key none ∧
        f.preorder.length < (nodes root beneath).length := by
      rcases hbelow with ⟨rfl, rfl⟩ | hbelow | hbelow
      · exact ⟨h.linked, Nat.lt_succ_self _⟩
      · exact ⟨h.linked.below hbelow, Nat.lt_succ_of_lt (Forest.length_below hbelow)⟩
      · exact hbelow.elim
    refine ⟨_, findByPHandle_eq phandle hlinked.1 (by omega), rfl, ?_⟩
    simp only [List.find?_eq_none, Bool.not_eq_true]

/-! ## A device and its GIC -/

instance three_ne_zero : NeZero 3 := ⟨by decide⟩

/-- A root that names the GIC, a device with one shared interrupt, and the GIC. -/
def deviceAndGic : Resource (Fin 3) where
  getParent
    | none => some 0
    | some 0 => none
    | _ => some 0
  findProperty
    | none, _ => none
    | some 0, propname => if propname = "interrupt-parent" then some ⟨4, fun _ => 7⟩ else none
    | some 1, propname =>
      if propname = "interrupts" then some ⟨12, fun i => [0, 29, 4].getD i 0⟩ else none
    | some 2, propname =>
      if propname = "phandle" then some ⟨4, fun _ => 7⟩
      else if propname = "#interrupt-cells" then some ⟨4, fun _ => 3⟩
      else none
  getChild
    | some 1, _ => none
    | some 2, _ => none
    | _, none => some 1
    | _, some 1 => some 2
    | _, _ => none
  openKey path := if path = "/" then some 0 else none
  noValue _ := 0

/-- What is beneath the root: the device, and the GIC beside it. -/
def deviceBesideGic : Forest (Fin 3) := .node 1 .nil (.node 2 .nil .nil)

theorem walks_deviceAndGic : Walks deviceAndGic 0 deviceBesideGic where
  linked := ⟨rfl, rfl, rfl, rfl, rfl, rfl, rfl⟩
  root_parent := rfl
  null_parent := rfl
  null_property _ := rfl
  open_root := rfl

theorem pHandles_deviceAndGic : PHandles deviceAndGic (nodes 0 deviceBesideGic) where
  nonzero := by decide
  unique v k _ k' _ hk hk' := by
    have honly : ∀ k, carries deviceAndGic v k = true → k = 2 := fun k hk => by
      obtain ⟨p, hp, -⟩ := carries_iff.mp hk
      exact (by decide : ∀ k, (deviceAndGic.findProperty (some k) "phandle").isSome → k = 2) k
        (Option.isSome_iff_exists.mpr ⟨p, hp⟩)
    rw [honly k hk, honly k' hk']

theorem resolved_deviceAndGic : Resolved deviceAndGic (nodes 0 deviceBesideGic) 1 0 2
    ⟨12, fun i => [0, 29, 4].getD i 0⟩ where
  named := ⟨7, ⟨[1, 0], 0, ⟨4, fun _ => 7⟩, ⟨rfl, rfl, rfl⟩, rfl, rfl, by decide, rfl⟩, rfl⟩
  anywhere := by decide
  cells := by decide
  interrupts := rfl
  complete := by decide

theorem interrupt_follows_tree_gic : ∃ r reads,
    getInterrupt deviceAndGic 7 (some 1) 0 = some (r, reads) ∧ r.toInt = 61 := by
  obtain ⟨r, reads, heq, -, hanswer⟩ := (interrupt_follows_tree (n := 7) walks_deviceAndGic
    pHandles_deviceAndGic (by decide)).1 1 (by decide) 0 fun parent _ _ => (by decide :
      ∀ parent, ((0 : U32).toNat + 1) * (interruptCells deviceAndGic (some parent)).toNat < 2 ^ 32)
      parent
  exact ⟨r, reads, heq, hanswer 2 _ resolved_deviceAndGic (by decide)⟩

end Devtree
