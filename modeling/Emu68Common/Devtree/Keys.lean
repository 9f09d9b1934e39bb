import Emu68Common.Devtree.Lookup
import Emu68Common.Machinery.Held
import Emu68Common.Machinery.Text

/-!
# Devtree/Keys — the keys the helpers open, and whose they are afterwards

A key of the device tree is opened and has to be closed.  The helpers that look into a node of their
own (`/emu68`, `/aliases`, `/__symbols__`, and `/` for an interrupt) close it before they return,
whatever they find; only `DT_OpenSymbol` hands a key out.  So whatever drivers look up, in whatever
order, the keys that are open are those they were handed, and every lookup answers what the tree
says (`lookups_balanced`).

    DT_GetEmu68Range   open /emu68 ──▸ two cells ──▸ close
    DT_OpenSymbol      open /__symbols__ ──▸ path ──▸ close ──▸ open path: the caller's
-/

namespace Devtree

open Machinery

variable {Key : Type} (res : Resource Key)

/-! ## Keys of the resource -/

/-- `DT_OpenKey`: an open key is held. -/
def dtOpenKey (path : String) : Call Key (Option Key) := do
  let some key := res.openKey path | return none
  take key
  return some key

variable [DecidableEq Key]

/-- `DT_CloseKey`; of no key nothing is known. -/
def dtCloseKey : Option Key → Call Key Unit
  | some key => give key
  | none => fun _ => none

/-- `DT_FindProperty`, of a key that is open. -/
def dtFindProperty (key : Key) (propname : String) : Call Key (Option Property) := do
  need key
  return res.findProperty (some key) propname

/-- A walk that ends, or does not, on keys that are open. -/
def walk {α : Type} (root : Option Key) (found : Option α) : Call Key α := do
  if let some key := root then need key
  fun w => found.map fun a => (a, w)

/-! ## The helpers -/

/-- **`DT_GetEmu68Range`**: what it returns, and `*base` and `*size` after it. -/
def dtGetEmu68Range (name : String) (base size : U32) : Call Key (Bool × U32 × U32) := do
  let some key ← dtOpenKey res "/emu68" | return (false, base, size)
  let prop ← dtFindProperty res key name
  let found := decide (8 ≤ getPropLen prop)
  let v := getPropValue res prop
  let base := if found then v 0 else base
  let size := if found then v 1 else size
  dtCloseKey (some key)
  return (found, base, size)

/-- `dt_path_of`: what memory holds from the value on, or `NULL`. -/
def dtPathOf (table name : String) : Call Key (Option (ℕ → U32)) := do
  let some key ← dtOpenKey res table | return none
  let value := (← dtFindProperty res key name).map Property.value
  dtCloseKey (some key)
  return value

/-- `DT_GetAlias`. -/
def dtGetAlias (name : String) : Call Key (Option (ℕ → U32)) := dtPathOf res "/aliases" name

/-- The bytes of cells, most significant first. -/
def bytesOf (cells : ℕ → U32) : Block := fun i =>
  UInt8.ofNat ((cells (i / 4)).toNat / 256 ^ (3 - i % 4))

/-- The path these cells hold, no longer than `n`. -/
def pathText (n : ℕ) (cells : ℕ → U32) : String :=
  String.ofList (((bytesOf cells).read n 0).map fun c => Char.ofNat c.toNat)

/-- **`DT_OpenSymbol`**: a key the caller is to close. -/
def dtOpenSymbol (n : ℕ) (label : String) : Call Key (Option Key) := do
  let some path ← dtPathOf res "/__symbols__" label | return none
  dtOpenKey res (pathText n path)

/-- **`DT_GetInterrupt`**, with the root it opens. -/
def dtGetInterrupt (n : ℕ) (key : Option Key) (index : U32) : Call Key (U32 × List ℕ) := do
  let namedAt ← walk none (dtFindUp res "interrupt-parent" n key)
  let phandle := getPropertyValueULONG res.toDeviceTree namedAt "interrupt-parent" 0
  let root ← dtOpenKey res "/"
  let interruptParent ← walk root (findByPHandle res phandle n root)
  let interruptCells :=
    getPropertyValueULONG res.toDeviceTree interruptParent "#interrupt-cells" 0
  dtCloseKey root
  if interruptParent.isNone ∨ interruptCells < 2 then return (-1, [])
  match res.findProperty key "interrupts" with
  | none => return (-1, [])
  | some prop =>
    if prop.len / 4 < (index + 1) * interruptCells then return (-1, [])
    return readEntry prop interruptCells index

/-! ## What a driver looks up -/

/-- The lookups, and the closing of a key that one of them handed out. -/
inductive Lookup (Key : Type) where
  | range (name : String) (base size : U32)
  | path (name : String)
  | symbol (label : String)
  | interrupt (key : Option Key) (index : U32)
  | release (key : Key)

/-- What comes back. -/
inductive Told (Key : Type) where
  | range (found : Bool) (base size : U32)
  | path (value : Option (ℕ → U32))
  | key (key : Option Key)
  | interrupt (number : U32) (reads : List ℕ)
  | released

/-- **A lookup** by a driver that was handed these keys: what it is told, and the keys it has
afterwards. -/
def Lookup.exec (n : ℕ) (keys : Multiset Key) : Lookup Key → Call Key (Told Key × Multiset Key)
  | .range name base size => do
    let (found, base, size) ← dtGetEmu68Range res name base size
    return (.range found base size, keys)
  | .path name => do return (.path (← dtGetAlias res name), keys)
  | .symbol label => do
    let key ← dtOpenSymbol res n label
    return (.key key, key.elim keys (· ::ₘ keys))
  | .interrupt key index => do
    let (number, reads) ← dtGetInterrupt res n key index
    return (.interrupt number reads, keys)
  | .release key => do
    dtCloseKey (some key)
    return (.released, keys.erase key)

/-- A driver asks about a node of the tree, or about none, and closes a key it was handed. -/
def Lookup.Legal (all : List Key) (keys : Multiset Key) : Lookup Key → Prop
  | .interrupt key _ => ∀ k ∈ key, k ∈ all
  | .release key => key ∈ keys
  | _ => True

/-! ## What the tree says -/

/-- An entry of a node. -/
def entry (path name : String) : Option Property :=
  (res.openKey path).bind fun key => res.findProperty (some key) name

/-- **What a lookup is to be told.** -/
def told (n : ℕ) : Lookup Key → Option (Told Key)
  | .range name base size =>
    match entry res "/emu68" name with
    | some p => if 8 ≤ p.len then some (.range true (p.value 0) (p.value 1))
      else some (.range false base size)
    | none => some (.range false base size)
  | .path name => some (.path ((entry res "/aliases" name).map Property.value))
  | .symbol label => some (.key ((entry res "/__symbols__" label).bind fun p =>
      res.openKey (pathText n p.value)))
  | .interrupt key index => (getInterrupt res n key index).map fun r => .interrupt r.1 r.2
  | .release _ => some .released

/-! ## The helpers' trades -/

variable {res} {pre keys : Multiset Key} {root : Key} {beneath : Forest Key} {n : ℕ}

omit [DecidableEq Key] in
theorem openKey_trades (res : Resource Key) (pre : Multiset Key) (path : String) :
    Trades pre (dtOpenKey res path) fun key own =>
      key = res.openKey path ∧ own = key.elim pre (· ::ₘ pre) := by
  rw [dtOpenKey]
  cases res.openKey path with
  | none => exact .pure ⟨rfl, rfl⟩
  | some key => exact .take_bind (.pure ⟨rfl, rfl⟩)

theorem findProperty_trades {key : Key} (res : Resource Key) (hkey : key ∈ pre)
    (propname : String) : Trades pre (dtFindProperty res key propname) fun prop own =>
      prop = res.findProperty (some key) propname ∧ own = pre :=
  Trades.need_bind hkey (.pure ⟨rfl, rfl⟩)

theorem walk_trades {α : Type} {root : Option Key} {found : Option α} {a : α}
    (hroot : ∀ k ∈ root, k ∈ pre) (ha : found = some a) :
    Trades pre (walk root found) fun b own => b = a ∧ own = pre := by
  subst ha
  have hend : Trades pre (fun w => some (a, w) : Call Key α) fun b own => b = a ∧ own = pre :=
    .pure ⟨rfl, rfl⟩
  cases root with
  | none => exact hend
  | some key => exact .need_bind (hroot key rfl) hend

/-- **A look into a node** opens its key, finds an entry and closes the key again. -/
theorem look_trades {α : Type} (res : Resource Key) (pre : Multiset Key) (path name : String)
    (missing : α) (f : Option Property → α) :
    Trades pre (do
      let some key ← dtOpenKey res path | return missing
      let prop ← dtFindProperty res key name
      dtCloseKey (some key)
      return f prop) fun a own =>
      a = (res.openKey path).elim missing (fun key => f (res.findProperty (some key) name)) ∧
        own = pre := by
  refine (openKey_trades res pre path).bind fun key own h => ?_
  obtain ⟨hkey, rfl⟩ := h
  rw [← hkey]
  cases key with
  | none => exact .pure ⟨rfl, rfl⟩
  | some key =>
    refine (findProperty_trades res (Multiset.mem_cons_self key pre) name).bind fun prop own h => ?_
    obtain ⟨rfl, rfl⟩ := h
    exact .give_bind (Multiset.mem_cons_self key pre) (.pure ⟨rfl, Multiset.erase_cons_head _ _⟩)

/-- **A carve-out**, or nothing written. -/
theorem range_trades (res : Resource Key) (pre : Multiset Key) (n : ℕ) (name : String)
    (base size : U32) : Trades pre (dtGetEmu68Range res name base size) fun r own =>
      told res n (.range name base size) = some (.range r.1 r.2.1 r.2.2) ∧ own = pre := by
  refine (look_trades res pre "/emu68" name _ _).mono fun r own h => ?_
  obtain ⟨rfl, rfl⟩ := h
  refine ⟨?_, rfl⟩
  rw [told, entry]
  cases res.openKey "/emu68" with
  | none => rfl
  | some key =>
    rw [Option.bind_some, Option.elim_some]
    cases res.findProperty (some key) name with
    | none => rfl
    | some p =>
      by_cases hlen : 8 ≤ p.len
      · simp only [getPropLen, getPropValue, hlen, decide_true, if_true]
      · simp only [getPropLen, getPropValue, hlen, decide_false, if_false, Bool.false_eq_true]

/-- **A path of a table.** -/
theorem path_trades (res : Resource Key) (pre : Multiset Key) (table name : String) :
    Trades pre (dtPathOf res table name) fun value own =>
      value = (entry res table name).map Property.value ∧ own = pre := by
  refine (look_trades res pre table name none (Option.map Property.value)).mono
    fun value own h => ?_
  obtain ⟨rfl, rfl⟩ := h
  refine ⟨?_, rfl⟩
  rw [entry]
  cases res.openKey table with
  | none => rfl
  | some key => rfl

/-- **The node of a label**, its key handed out. -/
theorem symbol_trades (res : Resource Key) (pre : Multiset Key) (n : ℕ) (label : String) :
    Trades pre (dtOpenSymbol res n label) fun key own =>
      told res n (.symbol label) = some (.key key) ∧ own = key.elim pre (· ::ₘ pre) := by
  refine (path_trades res pre "/__symbols__" label).bind fun path own h => ?_
  obtain ⟨rfl, rfl⟩ := h
  rw [told]
  cases entry res "/__symbols__" label with
  | none => exact .pure ⟨rfl, rfl⟩
  | some p =>
    refine (openKey_trades res own (pathText n p.value)).mono fun key own' h => ?_
    obtain ⟨rfl, rfl⟩ := h
    exact ⟨rfl, rfl⟩

/-- **An interrupt**, as it is without a thought for keys. -/
theorem interrupt_trades {key : Option Key} {index : U32} {r : U32 × List ℕ} (pre : Multiset Key)
    (hroot : res.openKey "/" = some root) (h : getInterrupt res n key index = some r) :
    Trades pre (dtGetInterrupt res n key index) fun r' own => r' = r ∧ own = pre := by
  rw [getInterrupt] at h
  obtain ⟨namedAt, hup, h⟩ := Option.bind_eq_some_iff.mp h
  obtain ⟨parent, hfind, h⟩ := Option.bind_eq_some_iff.mp h
  refine (walk_trades (fun k hk => absurd hk (Option.not_mem_none k)) hup).bind fun b own hb => ?_
  obtain ⟨rfl, rfl⟩ := hb
  refine (openKey_trades res own "/").bind fun root' own' h' => ?_
  obtain ⟨rfl, rfl⟩ := h'
  rw [hroot]
  refine (walk_trades (fun k hk => ?_) (hroot ▸ hfind)).bind fun b own' hb => ?_
  · obtain rfl := Option.some.inj hk
    exact Multiset.mem_cons_self _ _
  obtain ⟨rfl, rfl⟩ := hb
  refine .give_bind (Multiset.mem_cons_self _ _) ?_
  rw [Option.elim_some, Multiset.erase_cons_head]
  by_cases hno : b.isNone ∨ getPropertyValueULONG res.toDeviceTree b "#interrupt-cells" 0 < 2
  · simp only [if_pos hno] at h ⊢
    exact .pure ⟨Option.some.inj h, rfl⟩
  · simp only [if_neg hno] at h ⊢
    cases hprop : res.findProperty key "interrupts" with
    | none =>
      rw [hprop] at h
      exact .pure ⟨Option.some.inj h, rfl⟩
    | some prop =>
      rw [hprop] at h
      dsimp only at h ⊢
      split at h
      · next hout =>
        rw [if_pos hout]
        exact .pure ⟨Option.some.inj h, rfl⟩
      · next hin =>
        rw [if_neg hin]
        exact .pure ⟨Option.some.inj h, rfl⟩

/-! ## Any number of drivers -/

/-- **A lookup that may be made is told what the tree says**, and trades the driver's keys for those
it has afterwards. -/
theorem Lookup.trades {op : Lookup Key} (h : Walks res root beneath)
    (hn : 2 * (nodes root beneath).length < n) (hop : op.Legal (nodes root beneath) keys) :
    Trades keys (op.exec res n keys) fun r own => told res n op = some r.1 ∧ own = r.2 := by
  cases op with
  | range name base size =>
    refine (range_trades res keys n name base size).bind ?_
    rintro ⟨found, base', size'⟩ own hown
    exact .pure hown
  | path name =>
    refine (path_trades res keys "/aliases" name).bind fun value own hown => .pure ?_
    obtain ⟨rfl, rfl⟩ := hown
    exact ⟨rfl, rfl⟩
  | symbol label => exact (symbol_trades res keys n label).bind fun key own hown => .pure hown
  | interrupt key index =>
    obtain ⟨r, hr⟩ : ∃ r, getInterrupt res n key index = some r := by
      cases key with
      | none => exact ⟨_, h.getInterrupt_eq (l := []) rfl (Nat.zero_le _) hn index⟩
      | some key =>
        obtain ⟨l, hl, hlen⟩ := h.climb (hop key rfl)
        exact ⟨_, h.getInterrupt_eq hl hlen hn index⟩
    refine (interrupt_trades keys h.open_root hr).bind ?_
    rintro ⟨number, reads⟩ own ⟨rfl, rfl⟩
    exact .pure ⟨congrArg (Option.map _) hr, rfl⟩
  | release key => exact .give_bind hop (.pure ⟨rfl, rfl⟩)

/-- The keys a driver has after a lookup. -/
def Lookup.next (res : Resource Key) (n : ℕ) (keys : Multiset Key) (op : Lookup Key) :
    Call Key (Multiset Key) := do
  return (← op.exec res n keys).2

theorem Lookup.next_trades {op : Lookup Key} (h : Walks res root beneath)
    (hn : 2 * (nodes root beneath).length < n) (hop : op.Legal (nodes root beneath) keys) :
    Trades keys (op.next res n keys) fun keys' own => own = keys' :=
  (Lookup.trades h hn hop).bind fun _ _ hown => .pure hown.2

section Pool

variable {ι : Type} [Fintype ι] [DecidableEq ι]

/-- **No lookup leaks a key, and none closes a key that is not open**: in every run of lookups by
any number of drivers, the keys that are open, beside those that were before, are those that were
handed out and not yet closed; any lookup goes through and is told what the tree says, and once
every driver has closed its keys none is left open. -/
theorem lookups_balanced {p p' : Pool ι (Multiset Key) Key} (h : Walks res root beneath)
    (hn : 2 * (nodes root beneath).length < n) (hstart : ∀ i, p.objs i = 0)
    (hrun : Relation.ReflTransGen
      (Pool.Step (Lookup.Legal (nodes root beneath)) (Lookup.next res n)) p p') :
    p'.world.held = ∑ i, p'.objs i + p.world.held ∧
      (∀ i (op : Lookup Key), op.Legal (nodes root beneath) (p'.objs i) →
        ∃ r w, op.exec res n (p'.objs i) p'.world = some (r, w) ∧ told res n op = some r.1) ∧
      ((∀ i, p'.objs i = 0) → p'.world.held = p.world.held) := by
  have hnone : ∀ q : Pool ι (Multiset Key) Key, (∀ i, q.objs i = 0) → ∑ i, q.objs i = 0 :=
    fun q hq => Finset.sum_eq_zero fun i _ => hq i
  have hbefore : Pool.Balanced id p.world.held p := by
    change p.world.held = ∑ i, p.objs i + p.world.held
    rw [hnone p hstart, zero_add]
  have hafter : p'.world.held = ∑ i, p'.objs i + p.world.held :=
    hbefore.run (fun _ _ => Lookup.next_trades h hn) hrun
  refine ⟨hafter, fun i op hop => ?_, fun hclosed => ?_⟩
  · -- what the other drivers have stays
    have hothers : p'.world.held =
        p'.objs i + (∑ j ∈ Finset.univ.erase i, p'.objs j + p.world.held) := by
      rw [hafter, ← Finset.add_sum_erase _ _ (Finset.mem_univ i), add_assoc]
    obtain ⟨r, w, -, hexec, ⟨htold, -⟩, -⟩ := Lookup.trades h hn hop p'.world _ hothers
    exact ⟨r, w, hexec, htold⟩
  · rw [hafter, hnone p' hclosed, zero_add]

end Pool

/-- A root that is its own table of symbols, and the label `root` is its path. -/
def rootLabelled : Resource Unit where
  getParent key := if key.isNone then some () else none
  findProperty key propname :=
    if key.isSome ∧ propname = "root" then some ⟨2, fun _ => 0x2F000000⟩ else none
  getChild _ _ := none
  openKey path := if path = "/" ∨ path = "/__symbols__" then some () else none
  noValue _ := 0

theorem walks_rootLabelled : Walks rootLabelled () .nil where
  linked := rfl
  root_parent := rfl
  null_parent := rfl
  null_property _ := rfl
  open_root := rfl

/-- The label is opened, an interrupt looked up, and the key closed. -/
theorem lookups_balanced_label : ∃ p p' : Pool Unit (Multiset Unit) Unit,
    Relation.ReflTransGen
      (Pool.Step (Lookup.Legal (nodes () .nil)) (Lookup.next rootLabelled 3)) p p' ∧
    p'.world.held = 0 := by
  let p : Pool Unit (Multiset Unit) Unit := ⟨fun _ => 0, ⟨0, fun _ => 0⟩⟩
  have hrun : Relation.ReflTransGen
      (Pool.Step (Lookup.Legal (nodes () .nil)) (Lookup.next rootLabelled 3)) p p := .refl
  have hrun := hrun.tail ⟨(), .symbol "root", {()}, ⟨{()}, fun _ => 0⟩, trivial, by rfl, rfl⟩
  have hrun := hrun.tail ⟨(), .interrupt none 0, {()}, ⟨{()}, fun _ => 0⟩,
    fun k hk => absurd hk (Option.not_mem_none k), by rfl, rfl⟩
  have hrun := hrun.tail ⟨(), .release (), 0, ⟨0, fun _ => 0⟩,
    Multiset.mem_singleton_self (), by rfl, rfl⟩
  obtain ⟨-, -, hnothing⟩ := lookups_balanced walks_rootLabelled (by decide) (fun _ => rfl) hrun
  exact ⟨_, _, hrun, hnothing fun _ => rfl⟩

end Devtree
