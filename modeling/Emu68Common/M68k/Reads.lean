import Emu68Common.M68k.Run

/-!
# M68k/Reads — what an instruction reads, and runs that read nothing else

An instruction reads at most one run of bytes (`Instr.reads`).  A run reads inside `R` when each of
its instructions does (`Reading`); what lies outside `R` then has no part in it: from a memory that
is the same on `R`, the machine goes the same way and writes the same bytes (`Reading.congr`).

    Ea.reads, Op.reads, Instr.reads     the bytes an instruction reads
    Reading code R s t                  a run from `s` to `t` that reads inside `R`
-/

namespace M68k

open Machinery

variable {L : Type}

/-! ## The bytes read -/

/-- A run of bytes: where it starts, and how long it is. -/
abbrev Span : Type := Addr × ℕ

/-- What a source operand reads. -/
def Ea.reads (sz : Size) : Ea → Cpu → Option Span
  | .imm _, _ => none
  | .place (.reg _), _ => none
  | .place (.loc l), c => some ((l.resolve sz c).1, sz.bytes)

/-- What a straight-line instruction reads. -/
def Op.reads : Op → Cpu → Option Span
  | .move sz src _, c => src.reads sz c
  | .moveq _ _, _ => none
  | .lea _ _, _ => none
  | .add src _, c => src.reads .l c
  | .sub src _, c => src.reads .l c
  | .and src _, c => src.reads .l c
  | .lsr _ _, _ => none
  | .mulu src _, c => src.reads .l c
  | .cmp src _, c => src.reads .l c
  | .tst _, _ => none
  | .movemIn l rs, c => some ((l.resolve .l c).1, 4 * rs.length)
  | .movemOut _ _, _ => none

/-- **What an instruction reads**: `rts` the return address. -/
def Instr.reads : Instr L → Cpu → Option Span
  | .op o, c => o.reads c
  | .rts, c => some (c.regs (.a 7), 4)
  | .branch _ _, _ => none
  | .bra _, _ => none

/-- Nothing, or bytes of `R` only. -/
def Inside (R : Set Addr) (r : Option Span) : Prop :=
  ∀ p ∈ r, ∀ x, Mem.InRun p.1 p.2 x → x ∈ R

/-- The instruction a machine is about to execute reads inside `R`. -/
def State.ReadsIn (code : List (Line L)) (R : Set Addr) (s : State) : Prop :=
  ∀ i, s.pc = .line i → ∀ x ∈ code[i]?, Inside R (x.instr.reads s.cpu)

/-- **A run that reads inside `R`.** -/
def Reading [DecidableEq L] (code : List (Line L)) (R : Set Addr) : State → State → Prop :=
  Within code (State.ReadsIn code R)

variable {R : Set Addr} {a : Addr} {k : ℕ}

@[simp] theorem inside_none : Inside R none := fun _ h => absurd h (Option.not_mem_none _)

@[simp] theorem inside_some : Inside R (some (a, k)) ↔ ∀ x, Mem.InRun a k x → x ∈ R :=
  ⟨fun h => h _ rfl, fun h p hp => by obtain rfl := Option.some.inj hp; exact h⟩

/-! ## Nothing else counts -/

section Congr

variable {c : Cpu} {m m' : Memory} {x : Addr}

/-- The bytes of a read are the same in another memory. -/
def SameRead (c : Cpu) (m : Memory) (r : Option Span) : Prop :=
  ∀ p ∈ r, ∀ x, Mem.InRun p.1 p.2 x → m x = c.mem x

/-- **What becomes of a state in another memory**: the same registers and codes, and the same bytes
wherever the two memories had the same. -/
def Follows (c : Cpu) (m : Memory) (d d' : Cpu) : Prop :=
  ∃ m', d' = d.setMem m' ∧ ∀ x, m x = c.mem x → m' x = d.mem x

theorem Loc.resolve_setMem (l : Loc) (sz : Size) (c : Cpu) (m : Memory) :
    l.resolve sz (c.setMem m) = ((l.resolve sz c).1, (l.resolve sz c).2.setMem m) := by
  cases l <;> rfl

theorem Loc.resolve_mem (l : Loc) (sz : Size) (c : Cpu) : (l.resolve sz c).2.mem = c.mem := by
  cases l <;> rfl

/-- A value is its bytes. -/
theorem load_congr (sz : Size) (h : ∀ x, Mem.InRun a sz.bytes x → m' x = m x) :
    load sz m' a = load sz m a := by
  cases sz with
  | b =>
    have hin : Mem.InRun a 1 a := by
      rw [Mem.InRun, sub_self]
      exact Nat.one_pos
    rw [load, load, h a hin]
  | l => exact Mem.readLong_congr fun i hi => h _ (Mem.inRun_add hi (by omega))

/-- A store puts the same bytes into either memory. -/
theorem store_apply_congr {f : ℕ → BitVec 8} (h : m' x = m x) :
    m'.store a k f x = m.store a k f x := by
  by_cases hx : Mem.InRun a k x
  · rw [Mem.store_of_inRun hx, Mem.store_of_inRun hx]
  · rw [Mem.store_of_not_inRun hx, Mem.store_of_not_inRun hx, h]

theorem save_apply_congr (sz : Size) (v : Long) (h : m' x = m x) :
    save sz m' a v x = save sz m a v x := by
  cases sz
  · rw [save, save, Mem.writeByte, Mem.writeByte, store_apply_congr h]
  · rw [save, save, Mem.writeLong, Mem.writeLong, store_apply_congr h]

theorem writeLongs_apply_congr (vs : List Long) (h : m' x = m x) :
    m'.writeLongs a vs x = m.writeLongs a vs x := by
  induction vs generalizing a m m' with
  | nil => exact h
  | cons v vs ih => exact ih (store_apply_congr (k := 4) h)

theorem pushLongs_apply_congr (vs : List Long) (h : m' x = m x) :
    m'.pushLongs a vs x = m.pushLongs a vs x := by
  induction vs with
  | nil => exact h
  | cons v vs ih => exact store_apply_congr (k := 4) ih

/-- A run of longs is its bytes. -/
theorem readLongs_congr (h : ∀ x, Mem.InRun a (4 * k) x → m' x = m x) :
    m'.readLongs a k = m.readLongs a k := by
  induction k generalizing a with
  | zero => rfl
  | succ k ih =>
    have hlow : m'.readLong a = m.readLong a :=
      Mem.readLong_congr fun i hi => h _ (Mem.inRun_add (by omega) (by omega))
    rw [Mem.readLongs, Mem.readLongs, hlow, ih fun x hx => h x ?_]
    obtain ⟨i, hi, rfl⟩ := hx.exists_offset
    rw [BitVec.add_assoc, show (4 : Addr) = BitVec.ofNat 32 4 from rfl, ← BitVec.ofNat_add,
      Mem.InRun, Mem.add_ofNat_sub, BitVec.toNat_ofNat]
    exact lt_of_le_of_lt (Nat.mod_le _ _) (by omega)

/-- An operand that is read the same is the same. -/
theorem Ea.read_congr {src : Ea} {sz : Size} (h : SameRead c m (src.reads sz c)) :
    src.read sz (c.setMem m) = ((src.read sz c).1, (src.read sz c).2.setMem m) := by
  match src, h with
  | .imm v, _ => rfl
  | .place (.reg r), _ => rfl
  | .place (.loc l), h =>
    have hload : load sz m (l.resolve sz c).1 = load sz c.mem (l.resolve sz c).1 :=
      load_congr sz (h _ rfl)
    simp only [Ea.read, Loc.resolve_setMem, Loc.resolve_mem, Cpu.setMem_mem, hload]

theorem Ea.read_mem (src : Ea) (sz : Size) (c : Cpu) : (src.read sz c).2.mem = c.mem := by
  match src with
  | .imm v => rfl
  | .place (.reg r) => rfl
  | .place (.loc l) => exact l.resolve_mem sz c

theorem follows_setMem (d : Cpu) (hd : d.mem = c.mem) : Follows c m d (d.setMem m) :=
  ⟨m, rfl, fun x hx => hx.trans (congrFun hd x).symm⟩

/-- A destination is written the same. -/
theorem Place.write_follows {d : Cpu} (dst : Place) (sz : Size) (v : Long) (hd : d.mem = c.mem) :
    Follows c m (dst.write sz v d) (dst.write sz v (d.setMem m)) := by
  cases dst with
  | reg r => exact follows_setMem (d.set r (sz.merge (d.regs r) v)) hd
  | loc l =>
    refine ⟨save sz m (l.resolve sz d).1 v, ?_, fun x hx => ?_⟩
    · simp only [Place.write, Loc.resolve_setMem, Cpu.setMem_mem]
      rfl
    · simp only [Place.write, Loc.resolve_mem, Cpu.setMem_mem, hd]
      exact save_apply_congr sz v hx

theorem Place.flag_follows {d d' : Cpu} (dst : Place) (f : Ccr → Ccr) (h : Follows c m d d') :
    Follows c m (dst.flag f d) (dst.flag f d') := by
  obtain ⟨m', rfl, hm⟩ := h
  match dst with
  | .reg (.a r) => exact ⟨m', rfl, hm⟩
  | .reg (.d r) => exact ⟨m', rfl, hm⟩
  | .loc l => exact ⟨m', rfl, hm⟩

/-- Registers and codes set from what was read. -/
theorem follows_of_read {src : Ea} (h : SameRead c m (src.reads .l c)) (f : Long → Cpu → Cpu)
    (hmem : ∀ v d, (f v d).mem = d.mem) (hset : ∀ v d m, f v (Cpu.setMem d m) = (f v d).setMem m) :
    Follows c m (f (src.read .l c).1 (src.read .l c).2)
      (f (src.read .l (c.setMem m)).1 (src.read .l (c.setMem m)).2) := by
  rw [Ea.read_congr h, hset]
  exact follows_setMem _ ((hmem _ _).trans (src.read_mem .l c))

theorem setAll_setMem (c : Cpu) (m : Memory) (rs : List Reg) (vs : List Long) :
    (c.setMem m).setAll rs vs = (c.setAll rs vs).setMem m := by
  induction rs generalizing c vs with
  | nil => cases vs <;> rfl
  | cons r rs ih =>
    cases vs with
    | nil => rfl
    | cons v vs => exact ih (c.set r v) vs

/-- **What an operation does depends on the bytes it reads only.** -/
theorem Op.follows (o : Op) (h : SameRead c m (o.reads c)) :
    Follows c m (o.effect c) (o.effect (c.setMem m)) := by
  cases o with
  | move sz src dst =>
    rw [effect_move, effect_move, Ea.read_congr h]
    exact dst.flag_follows _ (dst.write_follows sz _ (src.read_mem sz c))
  | moveq v d => exact follows_setMem _ rfl
  | lea l r =>
    rw [effect_lea, effect_lea, Loc.resolve_setMem]
    exact follows_setMem (c.set (.a r) (l.resolve .l c).1) rfl
  | add src dst =>
    cases dst with
    | d i =>
      exact follows_of_read h
        (fun v d => (d.set (.d i) (d.regs (.d i) + v)).setCcr (.sum (d.regs (.d i)) v))
        (fun _ _ => rfl) fun _ _ _ => rfl
    | a i =>
      exact follows_of_read h (fun v d => d.set (.a i) (d.regs (.a i) + v))
        (fun _ _ => rfl) fun _ _ _ => rfl
  | sub src d =>
    exact follows_of_read h
      (fun v e => (e.set (.d d) (e.regs (.d d) - v)).setCcr (e.ccr.subtract (e.regs (.d d)) v))
      (fun _ _ => rfl) fun _ _ _ => rfl
  | and src d =>
    exact follows_of_read h
      (fun v e => (e.set (.d d) (e.regs (.d d) &&& v)).setCcr
        (e.ccr.logic .l (e.regs (.d d) &&& v)))
      (fun _ _ => rfl) fun _ _ _ => rfl
  | lsr k d => exact follows_setMem _ rfl
  | mulu src d =>
    exact follows_of_read h
      (fun v e => (e.set (.d d) (e.regs (.d d) * v)).setCcr (e.ccr.product (e.regs (.d d)) v))
      (fun _ _ => rfl) fun _ _ _ => rfl
  | cmp src dst =>
    exact follows_of_read h
      (fun v e => e.setCcr (e.ccr.compare (e.regs dst) v)) (fun _ _ => rfl) fun _ _ _ => rfl
  | tst d => exact follows_setMem _ rfl
  | movemIn l rs =>
    have hread : m.readLongs (l.resolve .l c).1 rs.length
        = c.mem.readLongs (l.resolve .l c).1 rs.length := readLongs_congr (h _ rfl)
    have hset := (congrArg ((c.setMem m).setAll rs) hread).trans (setAll_setMem c m rs _)
    have hmem := setAll_mem c rs (c.mem.readLongs (l.resolve .l c).1 rs.length)
    cases l with
    | postinc r =>
      refine ⟨m, ?_, fun x hx => hx.trans (congrFun hmem.symm x)⟩
      exact congrArg (Cpu.set · (.a r) (c.regs (.a r) + BitVec.ofNat 32 (4 * rs.length))) hset
    | _ => exact ⟨m, hset, fun x hx => hx.trans (congrFun hmem.symm x)⟩
  | movemOut rs l =>
    cases l with
    | predec r =>
      exact ⟨m.pushLongs (c.regs (.a r)) (rs.map c.regs), rfl,
        fun x hx => pushLongs_apply_congr _ hx⟩
    | _ => exact ⟨m.writeLongs _ (rs.map c.regs), rfl, fun x hx => writeLongs_apply_congr _ hx⟩

/-- The same place, registers and codes, and the same bytes wherever two memories had the same. -/
def State.Follows (m₀ m : Memory) (s s' : State) : Prop :=
  s'.pc = s.pc ∧ ∃ m', s'.cpu = s.cpu.setMem m' ∧ ∀ x, m x = m₀ x → m' x = s.cpu.mem x

/-- **What lies outside `R` has no part in a run that reads inside `R`.** -/
theorem Reading.congr [DecidableEq L] {code : List (Line L)} {s t : State}
    (h : Reading code R s t) (hm : ∀ x ∈ R, m x = s.cpu.mem x) :
    ∃ t', Reaches code ⟨s.pc, s.cpu.setMem m⟩ t' ∧ State.Follows s.cpu.mem m t t' := by
  induction h with
  | refl => exact ⟨_, Reaches.refl _, rfl, m, rfl, fun _ hx => hx⟩
  | @tail t u _ hstep ih =>
    obtain ⟨⟨_, _⟩, hreach, rfl, m', rfl, hm'⟩ := ih
    obtain ⟨hin, hstep⟩ := hstep
    obtain ⟨pc, c⟩ := t
    cases pc with
    | out a => exact absurd hstep (Option.some_ne_none _ ·.symm)
    | line i =>
      obtain ⟨x, hx, rfl⟩ := Option.map_eq_some_iff.mp hstep
      have hsame : SameRead c m' (x.instr.reads c) := fun p hp y hy =>
        hm' y (hm y (hin i rfl x hx p hp y hy))
      have hnext : step code ⟨.line i, c.setMem m'⟩
          = some (x.instr.exec (target code) i (c.setMem m')) := by
        simp only [step, hx, Option.map_some]
      refine ⟨_, hreach.trans (.single hnext), ?_⟩
      generalize x.instr = instr at hsame ⊢
      cases instr with
      | op o =>
        obtain ⟨m'', heff, hm''⟩ := o.follows hsame
        exact ⟨rfl, m'', heff, fun y hy => hm'' y (hm' y hy)⟩
      | branch cond l => exact ⟨rfl, m', rfl, hm'⟩
      | bra l => exact ⟨rfl, m', rfl, hm'⟩
      | rts =>
        have hret : m'.readLong (c.regs (.a 7)) = c.mem.readLong (c.regs (.a 7)) :=
          load_congr .l (hsame _ rfl)
        exact ⟨congrArg Pc.out hret, m', rfl, hm'⟩

end Congr

/-! ## Blocks -/

section Rules

variable {code : List (Line L)} {c : Cpu}

/-- Every instruction of a block reads inside `R`. -/
def ReadsIn (R : Set Addr) : List Op → Cpu → Prop
  | [], _ => True
  | o :: ops, c => Inside R (o.reads c) ∧ ReadsIn R ops (o.effect c)

theorem readsIn_line {i : ℕ} {I : Instr L} (h : (code.map Line.instr)[i]? = some I)
    (hR : Inside R (I.reads c)) : State.ReadsIn code R ⟨.line i, c⟩ := by
  rw [List.getElem?_map, Option.map_eq_some_iff] at h
  obtain ⟨x, hx, rfl⟩ := h
  intro j hj y hy
  obtain rfl := Pc.line.inj hj
  obtain rfl := Option.some.inj (hx.symm.trans hy)
  exact hR

theorem along_of_readsIn {i : ℕ} {ops : List Op}
    (h : ((code.map Line.instr).drop i).take ops.length = ops.map .op) (hR : ReadsIn R ops c) :
    Along (State.ReadsIn code R) i ops c := by
  induction ops generalizing i c with
  | nil => trivial
  | cons o ops ih =>
    obtain ⟨hhead, htail⟩ := block_cons h
    exact ⟨readsIn_line hhead hR.1, ih htail hR.2⟩

variable [DecidableEq L]

/-- **A block that reads inside `R`.** -/
theorem reading_block (code : List (Line L)) (l : L) (k : ℕ) (ops : List Op) {k' : ℕ} (c : Cpu)
    (h : ((code.map Line.instr).drop (target code l + k)).take ops.length = ops.map .op)
    (hk : k + ops.length = k') (hR : ReadsIn R ops c) :
    Reading code R (past code l k c) (past code l k' (runOps ops c)) :=
  within_block code l k ops c h hk (along_of_readsIn h hR)

theorem reading_taken (code : List (Line L)) (l : L) (k : ℕ) {l' : L} (cond : Cond)
    (h : (code.map Line.instr)[target code l + k]? = some (.branch cond l'))
    (hc : cond.holds c.ccr = true) : Reading code R (past code l k c) (past code l' 0 c) :=
  within_taken code l k cond h hc (readsIn_line h inside_none)

theorem reading_not_taken (code : List (Line L)) (l : L) (k : ℕ) {l' : L} (cond : Cond)
    (h : (code.map Line.instr)[target code l + k]? = some (.branch cond l'))
    (hc : ¬ cond.holds c.ccr = true) :
    Reading code R (past code l k c) (past code l (k + 1) c) :=
  within_not_taken code l k cond h hc (readsIn_line h inside_none)

theorem reading_bra (code : List (Line L)) (l : L) (k : ℕ) {l' : L}
    (h : (code.map Line.instr)[target code l + k]? = some (.bra l')) :
    Reading code R (past code l k c) (past code l' 0 c) :=
  within_bra code l k h (readsIn_line h inside_none)

end Rules

end M68k
