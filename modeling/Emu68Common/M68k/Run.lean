import Emu68Common.M68k.Machine

/-!
# M68k/Run — running a listing block by block

`Reaches code s t` says the machine gets from `s` to `t`; `step` is a function, so a state reached
outside the listing is *the* end of the run.  `Within code G s t` says besides that every step of it
is taken in a state of `G`.  A run of straight-line instructions is one fold (`reaches_block`), a
branch is decided by the codes it finds (`reaches_taken`, `reaches_not_taken`), and a loop is a
decreasing measure at its head (`reaches_loop`); each rule is that of `Within` without a `G`.
-/

namespace M68k

open Machinery

variable {L : Type} [DecidableEq L] {code : List (Line L)} {G : State → Prop}

/-- The machine gets from `s` to `t` in some number of instructions. -/
def Reaches (code : List (Line L)) : State → State → Prop :=
  Relation.ReflTransGen fun s t => step code s = some t

/-- The machine gets from `s` to `t`, and every instruction is executed in a state of `G`. -/
def Within (code : List (Line L)) (G : State → Prop) : State → State → Prop :=
  Relation.ReflTransGen fun s t => G s ∧ step code s = some t

theorem Reaches.refl (s : State) : Reaches code s s := Relation.ReflTransGen.refl

theorem Reaches.trans {s t u : State} (h : Reaches code s t) (k : Reaches code t u) :
    Reaches code s u := Relation.ReflTransGen.trans h k

theorem Reaches.single {s t : State} (h : step code s = some t) : Reaches code s t :=
  Relation.ReflTransGen.single h

theorem Within.refl (s : State) : Within code G s s := Relation.ReflTransGen.refl

theorem Within.trans {s t u : State} (h : Within code G s t) (k : Within code G t u) :
    Within code G s u := Relation.ReflTransGen.trans h k

theorem Within.single {s t : State} (hG : G s) (h : step code s = some t) : Within code G s t :=
  Relation.ReflTransGen.single ⟨hG, h⟩

/-- Forgetting the states gone through. -/
theorem Within.reaches {s t : State} (h : Within code G s t) : Reaches code s t :=
  Relation.ReflTransGen.mono (fun _ _ => And.right) _ _ h

theorem step_line {i : ℕ} {c : Cpu} {I : Instr L} (h : (code.map Line.instr)[i]? = some I) :
    step code ⟨.line i, c⟩ = some (I.exec (target code) i c) := by
  rw [List.getElem?_map, Option.map_eq_some_iff] at h
  obtain ⟨x, hx, rfl⟩ := h
  simp only [step, hx, Option.map_some]

/-! ## Blocks -/

/-- Straight-line instructions, one after the other. -/
def runOps (ops : List Op) (c : Cpu) : Cpu := ops.foldl (fun c o => o.effect c) c

@[simp] theorem runOps_nil (c : Cpu) : runOps [] c = c := rfl

@[simp] theorem runOps_cons (o : Op) (ops : List Op) (c : Cpu) :
    runOps (o :: ops) c = runOps ops (o.effect c) := rfl

/-- Every instruction of a block is executed in a state of `G`. -/
def Along (G : State → Prop) : ℕ → List Op → Cpu → Prop
  | _, [], _ => True
  | i, o :: ops, c => G ⟨.line i, c⟩ ∧ Along G (i + 1) ops (o.effect c)

theorem along_true (i : ℕ) (ops : List Op) (c : Cpu) : Along (fun _ => True) i ops c := by
  induction ops generalizing i c with
  | nil => trivial
  | cons o ops ih => exact ⟨trivial, ih (i + 1) (o.effect c)⟩

omit [DecidableEq L] in
/-- The first instruction of a block, and the block behind it. -/
theorem block_cons {i : ℕ} {o : Op} {ops : List Op}
    (h : ((code.map Line.instr).drop i).take (o :: ops).length = (o :: ops).map .op) :
    (code.map Line.instr)[i]? = some (.op o)
      ∧ ((code.map Line.instr).drop (i + 1)).take ops.length = ops.map .op := by
  rw [List.length_cons, List.map_cons] at h
  constructor
  · have := congrArg (·[0]?) h
    simpa [List.getElem?_take, List.getElem?_drop] using this
  · have := congrArg (List.drop 1) h
    rwa [List.drop_take, List.drop_drop, Nat.add_sub_cancel, List.drop_succ_cons,
      List.drop_zero] at this

/-- **A block of straight-line instructions runs through.** -/
theorem within_ops (i : ℕ) (ops : List Op) (c : Cpu)
    (h : ((code.map Line.instr).drop i).take ops.length = ops.map .op) (hG : Along G i ops c) :
    Within code G ⟨.line i, c⟩ ⟨.line (i + ops.length), runOps ops c⟩ := by
  induction ops generalizing i c with
  | nil => exact Within.refl _
  | cons o ops ih =>
    obtain ⟨hhead, htail⟩ := block_cons h
    have hstep := Within.single hG.1 (step_line (c := c) hhead)
    have hrest := ih (i + 1) (o.effect c) htail hG.2
    rw [List.length_cons, show i + (ops.length + 1) = i + 1 + ops.length by omega, runOps_cons]
    exact hstep.trans hrest

/-! ## Positions named by labels -/

/-- The machine `k` lines past a label. -/
abbrev past (code : List (Line L)) (l : L) (k : ℕ) (c : Cpu) : State :=
  ⟨.line (target code l + k), c⟩

/-- `within_ops` between positions named by labels. -/
theorem within_block (code : List (Line L)) (l : L) (k : ℕ) (ops : List Op) {k' : ℕ} (c : Cpu)
    (h : ((code.map Line.instr).drop (target code l + k)).take ops.length = ops.map .op)
    (hk : k + ops.length = k') (hG : Along G (target code l + k) ops c) :
    Within code G (past code l k c) (past code l k' (runOps ops c)) := by
  have hend : target code l + k + ops.length = target code l + k' := by omega
  have := within_ops (target code l + k) ops c h hG
  rwa [hend] at this

theorem reaches_block (code : List (Line L)) (l : L) (k : ℕ) (ops : List Op) {k' : ℕ} (c : Cpu)
    (h : ((code.map Line.instr).drop (target code l + k)).take ops.length = ops.map .op)
    (hk : k + ops.length = k') : Reaches code (past code l k c) (past code l k' (runOps ops c)) :=
  (within_block code l k ops c h hk (along_true _ ops c)).reaches

/-- A branch whose condition holds goes to its label. -/
theorem within_taken (code : List (Line L)) (l : L) (k : ℕ) {l' : L} {c : Cpu} (cond : Cond)
    (h : (code.map Line.instr)[target code l + k]? = some (.branch cond l'))
    (hc : cond.holds c.ccr = true) (hG : G (past code l k c)) :
    Within code G (past code l k c) (past code l' 0 c) := by
  refine Within.single hG ((step_line h).trans ?_)
  rw [Instr.exec, if_pos hc]
  rfl

theorem reaches_taken (code : List (Line L)) (l : L) (k : ℕ) {l' : L} {c : Cpu} (cond : Cond)
    (h : (code.map Line.instr)[target code l + k]? = some (.branch cond l'))
    (hc : cond.holds c.ccr = true) : Reaches code (past code l k c) (past code l' 0 c) :=
  (within_taken (G := fun _ => True) code l k cond h hc trivial).reaches

/-- A branch whose condition fails falls through. -/
theorem within_not_taken (code : List (Line L)) (l : L) (k : ℕ) {l' : L} {c : Cpu} (cond : Cond)
    (h : (code.map Line.instr)[target code l + k]? = some (.branch cond l'))
    (hc : ¬ cond.holds c.ccr = true) (hG : G (past code l k c)) :
    Within code G (past code l k c) (past code l (k + 1) c) := by
  refine Within.single hG ((step_line h).trans ?_)
  rw [Instr.exec, if_neg hc]
  rfl

theorem reaches_not_taken (code : List (Line L)) (l : L) (k : ℕ) {l' : L} {c : Cpu} (cond : Cond)
    (h : (code.map Line.instr)[target code l + k]? = some (.branch cond l'))
    (hc : ¬ cond.holds c.ccr = true) :
    Reaches code (past code l k c) (past code l (k + 1) c) :=
  (within_not_taken (G := fun _ => True) code l k cond h hc trivial).reaches

theorem within_bra (code : List (Line L)) (l : L) (k : ℕ) {l' : L} {c : Cpu}
    (h : (code.map Line.instr)[target code l + k]? = some (.bra l')) (hG : G (past code l k c)) :
    Within code G (past code l k c) (past code l' 0 c) :=
  Within.single hG (step_line h)

theorem reaches_bra (code : List (Line L)) (l : L) (k : ℕ) {l' : L} {c : Cpu}
    (h : (code.map Line.instr)[target code l + k]? = some (.bra l')) :
    Reaches code (past code l k c) (past code l' 0 c) :=
  (within_bra (G := fun _ => True) code l k h trivial).reaches

/-! ## Loops -/

/-- **The loop rule.**  A body that from every state of the invariant either leaves for `Q` or comes
back to the invariant with the measure down reaches `Q`. -/
theorem within_loop (Inv : ℕ → State → Prop) {Q : State → Prop}
    (hbody : ∀ k s, Inv k s → ∃ t, Within code G s t ∧ (Q t ∨ ∃ k' < k, Inv k' t)) {k : ℕ}
    {s : State} (hs : Inv k s) : ∃ t, Within code G s t ∧ Q t := by
  induction k using Nat.strongRecOn generalizing s with
  | ind k ih =>
    obtain ⟨t, hst, hQ | ⟨k', hk', ht⟩⟩ := hbody k s hs
    · exact ⟨t, hst, hQ⟩
    · obtain ⟨u, htu, hu⟩ := ih k' hk' ht
      exact ⟨u, hst.trans htu, hu⟩

/-- A run is one within all states. -/
theorem Reaches.within {s t : State} (h : Reaches code s t) : Within code (fun _ => True) s t :=
  Relation.ReflTransGen.mono (fun _ _ h => ⟨trivial, h⟩) _ _ h

theorem reaches_loop (Inv : ℕ → State → Prop) {Q : State → Prop}
    (hbody : ∀ k s, Inv k s → ∃ t, Reaches code s t ∧ (Q t ∨ ∃ k' < k, Inv k' t)) {k : ℕ}
    {s : State} (hs : Inv k s) : ∃ t, Reaches code s t ∧ Q t := by
  obtain ⟨t, hst, hQ⟩ := within_loop (G := fun _ => True) Inv
    (fun k s hs => (hbody k s hs).imp fun _ => And.imp_left Reaches.within) hs
  exact ⟨t, hst.reaches, hQ⟩

/-! ## What the operations leave behind

The straight-line operations are unfolded by `simp` one at a time; `movem.l` never is, and its
lemmas keep the register list closed. -/

section Effect

variable (c : Cpu)

theorem effect_move (sz : Size) (src : Ea) (dst : Place) :
    (Op.move sz src dst).effect c
      = dst.flag (·.logic sz (src.read sz c).1)
        (dst.write sz (src.read sz c).1 (src.read sz c).2) :=
  rfl

theorem effect_moveq (v : BitVec 8) (d : Fin 8) :
    (Op.moveq v d).effect c
      = (c.set (.d d) (v.signExtend 32)).setCcr (c.ccr.logic .l (v.signExtend 32)) := rfl

theorem effect_lea (l : Loc) (r : Fin 8) :
    (Op.lea l r).effect c = c.set (.a r) (l.resolve .l c).1 := rfl

theorem effect_add (src : Ea) (dst : Reg) :
    (Op.add src dst).effect c
      = Place.flag (.reg dst) (fun _ => .sum ((src.read .l c).2.regs dst) (src.read .l c).1)
          ((src.read .l c).2.set dst ((src.read .l c).2.regs dst + (src.read .l c).1)) := rfl

theorem effect_sub (src : Ea) (d : Fin 8) :
    (Op.sub src d).effect c
      = ((src.read .l c).2.set (.d d) ((src.read .l c).2.regs (.d d) - (src.read .l c).1)).setCcr
          ((src.read .l c).2.ccr.subtract ((src.read .l c).2.regs (.d d)) (src.read .l c).1) := rfl

theorem effect_and (src : Ea) (d : Fin 8) :
    (Op.and src d).effect c
      = ((src.read .l c).2.set (.d d) ((src.read .l c).2.regs (.d d) &&& (src.read .l c).1)).setCcr
          ((src.read .l c).2.ccr.logic .l
            ((src.read .l c).2.regs (.d d) &&& (src.read .l c).1)) := rfl

theorem effect_lsr (k : ℕ) (d : Fin 8) :
    (Op.lsr k d).effect c
      = (c.set (.d d) (c.regs (.d d) >>> k)).setCcr (.shift (c.regs (.d d)) k) := rfl

theorem lsr_mem (k : ℕ) (d : Fin 8) : ((Op.lsr k d).effect c).mem = c.mem := rfl

theorem lsr_self (k : ℕ) (d : Fin 8) :
    ((Op.lsr k d).effect c).regs (.d d) = c.regs (.d d) >>> k := by
  rw [effect_lsr, Cpu.setCcr_regs, Cpu.set_regs, if_pos rfl]

theorem lsr_regs (k : ℕ) {d : Fin 8} {q : Reg} (hq : q ≠ .d d) :
    ((Op.lsr k d).effect c).regs q = c.regs q := by
  rw [effect_lsr, Cpu.setCcr_regs, Cpu.set_regs, if_neg hq]

theorem effect_mulu (src : Ea) (d : Fin 8) :
    (Op.mulu src d).effect c
      = ((src.read .l c).2.set (.d d) ((src.read .l c).2.regs (.d d) * (src.read .l c).1)).setCcr
          ((src.read .l c).2.ccr.product ((src.read .l c).2.regs (.d d)) (src.read .l c).1) := rfl

theorem mulu_mem (v : Long) (d : Fin 8) : ((Op.mulu (.imm v) d).effect c).mem = c.mem := rfl

theorem mulu_self (v : Long) (d : Fin 8) :
    ((Op.mulu (.imm v) d).effect c).regs (.d d) = c.regs (.d d) * v := by
  rw [effect_mulu, Cpu.setCcr_regs, Cpu.set_regs, if_pos rfl]
  rfl

theorem mulu_regs (v : Long) {d : Fin 8} {q : Reg} (hq : q ≠ .d d) :
    ((Op.mulu (.imm v) d).effect c).regs q = c.regs q := by
  rw [effect_mulu, Cpu.setCcr_regs, Cpu.set_regs, if_neg hq]
  rfl

theorem effect_cmp (src : Ea) (dst : Reg) :
    (Op.cmp src dst).effect c
      = (src.read .l c).2.setCcr
          ((src.read .l c).2.ccr.compare ((src.read .l c).2.regs dst) (src.read .l c).1) := rfl

theorem effect_tst (d : Fin 8) :
    (Op.tst d).effect c = c.setCcr (c.ccr.logic .l (c.regs (.d d))) := rfl

theorem setAll_mem (rs : List Reg) (vs : List Long) : (c.setAll rs vs).mem = c.mem := by
  induction rs generalizing c vs with
  | nil => cases vs <;> rfl
  | cons r rs ih =>
    cases vs with
    | nil => rfl
    | cons v vs => exact ih (c.set r v) vs

theorem setAll_regs_of_notMem {rs : List Reg} {q : Reg} (hq : q ∉ rs) (vs : List Long) :
    (c.setAll rs vs).regs q = c.regs q := by
  induction rs generalizing c vs with
  | nil => cases vs <;> rfl
  | cons r rs ih =>
    cases vs with
    | nil => rfl
    | cons v vs =>
      rw [List.mem_cons, not_or] at hq
      rw [Cpu.setAll, ih _ hq.2, Cpu.set_regs, if_neg hq.1]

theorem setAll_map {rs : List Reg} (hnd : rs.Nodup) {vs : List Long}
    (hlen : vs.length = rs.length) : rs.map (c.setAll rs vs).regs = vs := by
  induction rs generalizing c vs with
  | nil => exact (List.length_eq_zero_iff.mp hlen).symm
  | cons r rs ih =>
    cases vs with
    | nil => cases hlen
    | cons v vs =>
      obtain ⟨hr, hnd⟩ := List.nodup_cons.mp hnd
      rw [List.length_cons, List.length_cons, Nat.add_right_cancel_iff] at hlen
      rw [Cpu.setAll, List.map_cons, ih _ hnd hlen, setAll_regs_of_notMem _ hr, Cpu.set_regs,
        if_pos rfl]

variable (r : Fin 8) (o : ℤ) (rs : List Reg)

@[simp] theorem movemIn_postinc_mem : ((Op.movemIn (.postinc r) rs).effect c).mem = c.mem :=
  setAll_mem c rs _

@[simp] theorem movemIn_postinc_self :
    ((Op.movemIn (.postinc r) rs).effect c).regs (.a r)
      = c.regs (.a r) + BitVec.ofNat 32 (4 * rs.length) := by
  rw [Op.effect, Cpu.set_regs, if_pos rfl]

@[simp] theorem movemIn_disp_mem : ((Op.movemIn (.disp o r) rs).effect c).mem = c.mem :=
  setAll_mem c rs _

@[simp] theorem movemOut_ind_mem :
    ((Op.movemOut rs (.ind r)).effect c).mem
      = c.mem.writeLongs (c.regs (.a r)) (rs.map c.regs) := rfl

@[simp] theorem movemOut_disp_mem :
    ((Op.movemOut rs (.disp o r)).effect c).mem
      = c.mem.writeLongs (c.regs (.a r) + displacement o) (rs.map c.regs) := rfl

@[simp] theorem movemOut_predec_mem :
    ((Op.movemOut rs (.predec r)).effect c).mem
      = c.mem.pushLongs (c.regs (.a r)) (rs.map c.regs) := rfl

@[simp] theorem movemOut_ind_regs : ((Op.movemOut rs (.ind r)).effect c).regs = c.regs := rfl

@[simp] theorem movemOut_disp_regs : ((Op.movemOut rs (.disp o r)).effect c).regs = c.regs := rfl

@[simp] theorem movemOut_predec_regs (q : Reg) :
    ((Op.movemOut rs (.predec r)).effect c).regs q
      = if q = .a r then c.regs (.a r) - BitVec.ofNat 32 (4 * rs.length) else c.regs q := by
  rw [Op.effect, Cpu.set_regs, Cpu.setMem_regs]

variable {rs}

theorem movemIn_postinc_regs {q : Reg} (hq : q ∉ rs) (hr : q ≠ .a r) :
    ((Op.movemIn (.postinc r) rs).effect c).regs q = c.regs q := by
  rw [Op.effect, Cpu.set_regs, if_neg hr, setAll_regs_of_notMem _ hq]

theorem movemIn_postinc_map (hnd : rs.Nodup) (hr : Reg.a r ∉ rs) :
    rs.map ((Op.movemIn (.postinc r) rs).effect c).regs
      = c.mem.readLongs (c.regs (.a r)) rs.length := by
  refine Eq.trans (List.map_congr_left fun q hq => ?_)
    (setAll_map c hnd (Mem.length_readLongs c.mem (c.regs (.a r)) rs.length))
  rw [Op.effect, Cpu.set_regs, if_neg (ne_of_mem_of_not_mem hq hr)]

theorem movemIn_disp_regs {q : Reg} (hq : q ∉ rs) :
    ((Op.movemIn (.disp o r) rs).effect c).regs q = c.regs q :=
  setAll_regs_of_notMem _ hq _

theorem movemIn_disp_map (hnd : rs.Nodup) :
    rs.map ((Op.movemIn (.disp o r) rs).effect c).regs
      = c.mem.readLongs (c.regs (.a r) + displacement o) rs.length :=
  setAll_map c hnd (Mem.length_readLongs _ _ _)

end Effect

/-! ## Branch conditions after a comparison -/

theorem holds_cs_compare (f : Ccr) (dst src : Long) :
    Cond.holds .cs (f.compare dst src) = true ↔ dst.toNat < src.toNat := decide_eq_true_iff

theorem holds_cc_compare (f : Ccr) (dst src : Long) :
    Cond.holds .cc (f.compare dst src) = true ↔ src.toNat ≤ dst.toNat := by
  rw [Cond.holds, Bool.not_eq_true', ← Bool.not_eq_true, ← not_lt]
  exact not_congr decide_eq_true_iff

theorem holds_hi_compare (f : Ccr) (dst src : Long) :
    Cond.holds .hi (f.compare dst src) = true ↔ src.toNat < dst.toNat := by
  have hz : (dst == src) = true ↔ dst.toNat = src.toNat := by rw [beq_iff_eq, BitVec.toNat_inj]
  have hc : dst.ult src = true ↔ dst.toNat < src.toNat := decide_eq_true_iff
  rw [Cond.holds, Bool.and_eq_true, Bool.not_eq_true', Bool.not_eq_true', ← Bool.not_eq_true,
    ← Bool.not_eq_true]
  change ¬ dst.ult src = true ∧ ¬ (dst == src) = true ↔ _
  rw [hc, hz]
  omega

theorem holds_ne_compare (f : Ccr) (dst src : Long) :
    Cond.holds .ne (f.compare dst src) = true ↔ dst ≠ src := by
  rw [Cond.holds, Bool.not_eq_true', ← Bool.not_eq_true]
  exact not_congr beq_iff_eq

theorem holds_cs_subtract (f : Ccr) (dst src : Long) :
    Cond.holds .cs (f.subtract dst src) = true ↔ dst.toNat < src.toNat := decide_eq_true_iff

theorem holds_ne_subtract (f : Ccr) (dst src : Long) :
    Cond.holds .ne (f.subtract dst src) = true ↔ dst ≠ src := holds_ne_compare f dst src

theorem holds_eq_subtract (f : Ccr) (dst src : Long) :
    Cond.holds .eq (f.subtract dst src) = true ↔ dst = src := beq_iff_eq

theorem holds_eq_sum (dst src : Long) :
    Cond.holds .eq (Ccr.sum dst src) = true ↔ dst + src = 0 := beq_iff_eq

theorem holds_eq_logic (f : Ccr) (v : Long) :
    Cond.holds .eq (f.logic .l v) = true ↔ v = 0 := beq_iff_eq

end M68k
