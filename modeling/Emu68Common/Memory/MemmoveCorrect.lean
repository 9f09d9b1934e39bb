import Emu68Common.Memory.MemmoveUp
import Emu68Common.Memory.MemmoveDown

/-!
# Memory/MemmoveCorrect — `memmove` moves, for every overlap

The entry loads the arguments and picks a direction with one unsigned compare of `dst - src` against
`n`: the difference wraps when `dst` lies below `src`, and then it is never below `n`
(`lt_iff_down`).  Each direction returns (`going_up`, `going_down`), so the whole call does
(`memmove_returns`), and what it leaves behind is read off at the `rts` (`memmove_correct`).
-/

namespace Memmove

open M68k Machinery

variable {c₀ c : Cpu} {dst src n : Long}

/-- **The direction test**: `dst - src` is below `n` exactly when `dst` lies inside the source. -/
theorem lt_iff_down (hcall : Call c₀ dst src n) (hne : dst ≠ src) :
    (dst - src).toNat < n.toNat ↔ Down dst src n := by
  have hd := hcall.dst_fits
  have hs := hcall.src_fits
  have hne' : dst.toNat ≠ src.toNat := fun h => hne (BitVec.eq_of_toNat_eq h)
  rw [Down, BitVec.toNat_sub]
  rcases Nat.lt_or_gt_of_ne hne' with hlt | hgt
  · rw [Nat.mod_eq_of_lt (by omega)]
    omega
  · rw [show 2 ^ 32 - src.toNat + dst.toNat = dst.toNat - src.toNat + 2 ^ 32 by omega,
      Nat.add_mod_right, Nat.mod_eq_of_lt (by omega)]
    omega

/-- The arguments into registers, and `dst - src` into `d1`. -/
def entry : List Op :=
  [.move .l (Loc.disp 4 sp) a0, .move .l (Loc.disp 8 sp) a1, .move .l (Loc.disp 12 sp) d0,
    .move .l a0 d1, .sub a1 1]

theorem entry_spec (c : Cpu) : (runOps entry c).mem = c.mem ∧
    (runOps entry c).regs (.a 0) = c.mem.readLong (c.regs (.a 7) + 4#32) ∧
    (runOps entry c).regs (.a 1) = c.mem.readLong (c.regs (.a 7) + 8#32) ∧
    (runOps entry c).regs (.d 0) = c.mem.readLong (c.regs (.a 7) + 12#32) ∧
    (runOps entry c).regs (.d 1)
      = c.mem.readLong (c.regs (.a 7) + 4#32) - c.mem.readLong (c.regs (.a 7) + 8#32) ∧
    ∀ r ∈ kept, (runOps entry c).regs r = c.regs r := by
  simp [entry, sp, kept]

theorem entry_loaded (hcall : Call c dst src n) : Loaded c dst src n (runOps entry c) := by
  obtain ⟨hmem, ha0, ha1, hd0, -, hkept⟩ := entry_spec c
  exact ⟨hmem, hkept, ha0.trans hcall.dst_arg, ha1.trans hcall.src_arg, hd0.trans hcall.n_arg⟩

theorem entry_d1 (hcall : Call c dst src n) : (runOps entry c).regs (.d 1) = dst - src := by
  obtain ⟨-, -, -, -, hd1, -⟩ := entry_spec c
  rw [hd1, hcall.dst_arg, hcall.src_arg]

theorem holds_eq_entry (hcall : Call c dst src n) :
    Cond.holds .eq (runOps entry c).ccr = true ↔ dst = src := by
  have hccr : ∃ f : Ccr, (runOps entry c).ccr = f.subtract dst src :=
    ⟨_, by simp [entry, sp, hcall.dst_arg, hcall.src_arg]; rfl⟩
  obtain ⟨f, hf⟩ := hccr
  rw [hf, holds_eq_subtract]

/-- **Every call gets to an `rts`**, the region moved. -/
theorem memmove_returns (hcall : Call c dst src n) :
    ∃ s, Reaches memmove ⟨.line 0, c⟩ s ∧ Returns c dst src n s := by
  have hload := entry_loaded hcall
  have hd1 := entry_d1 hcall
  have heq := holds_eq_entry hcall
  have hrun : Reaches memmove ⟨.line 0, c⟩ (past memmove .memmove 5 (runOps entry c)) :=
    reaches_block memmove .memmove 0 entry c rfl rfl
  generalize runOps entry c = c₁ at hload hd1 heq hrun
  by_cases hsame : dst = src
  · have hmoved : Moving c dst src n c.mem (Set.Ico 0 n.toNat) c₁ :=
      ⟨fun _ _ => rfl, subset_rfl, by rw [hload.mem, hsame, Mem.moved_self]⟩
    obtain ⟨s, hs, hret⟩ := ldone hcall hmoved hload.keeps
    have hjump := reaches_taken memmove .memmove 5 .eq rfl (heq.mpr hsame)
    exact ⟨s, (hrun.trans hjump).trans hs, hret⟩
  replace hrun := hrun.trans (reaches_not_taken memmove .memmove 5 .eq rfl (mt heq.mp hsame))
  let c₂ := runOps [.cmp d0 (.d 1)] c₁
  have hcmp : Reaches memmove (past memmove .memmove 6 c₁) (past memmove .memmove 7 c₂) :=
    reaches_block memmove .memmove 6 _ c₁ rfl rfl
  have h₂ : Loaded c dst src n c₂ := ⟨hload.mem, hload.keeps, hload.a0, hload.a1, hload.d0⟩
  have hdir : Cond.holds .cs c₂.ccr = true ↔ Down dst src n := by
    rw [← lt_iff_down hcall hsame, ← hd1, ← hload.d0]
    exact holds_cs_compare c₁.ccr _ _
  by_cases hdown : Down dst src n
  · obtain ⟨s, hs, hret⟩ := going_down hcall hdown h₂
    have hjump := reaches_taken memmove .memmove 7 .cs rfl (hdir.mpr hdown)
    exact ⟨s, (hrun.trans (hcmp.trans hjump)).trans hs, hret⟩
  · have hup : Up dst src n := by
      have hne : dst.toNat ≠ src.toNat := fun h => hsame (BitVec.eq_of_toNat_eq h)
      rw [Down] at hdown
      rw [Up]
      omega
    obtain ⟨s, hs, hret⟩ := going_up hcall hup h₂
    have hfall := reaches_not_taken memmove .memmove 7 .cs rfl (mt hdir.mp hdown)
    exact ⟨s, (hrun.trans (hcmp.trans hfall)).trans hs, hret⟩

/-- The `rts` itself: back to the caller, the stack pointer above the return address. -/
theorem Returns.step_rts (hcall : Call c₀ dst src n) {s : State} (h : Returns c₀ dst src n s) :
    step memmove s = some ⟨.out (c₀.mem.readLong (c₀.regs (.a 7))),
      s.cpu.set (.a 7) (c₀.regs (.a 7) + 4)⟩ := by
  obtain ⟨i, hpc, hrts⟩ := h.at_rts
  obtain ⟨m, hm⟩ := h.moved
  rw [List.getElem?_map, Option.map_eq_some_iff] at hrts
  obtain ⟨x, hx, hxi⟩ := hrts
  rw [step, hpc]
  simp only [hx, Option.map_some, hxi, Instr.exec, h.keeps.sp, hm.readLong_return hcall]

/-- **`memmove` is correct for every overlap.**  The call runs to an `rts` that goes back to its
caller; there every byte of the destination holds the byte the source held, nothing outside the
destination and the 32 pushed bytes has changed, `d0` and `a0` hold `dst`, and the registers a call
must give back, the stack pointer among them, hold what they held. -/
theorem memmove_correct (hcall : Call c dst src n) :
    ∃ i c', Reaches memmove ⟨.line 0, c⟩ ⟨.line i, c'⟩
      ∧ step memmove ⟨.line i, c'⟩
        = some ⟨.out (c.mem.readLong (c.regs (.a 7))), c'.set (.a 7) (c.regs (.a 7) + 4)⟩
      ∧ (∀ j < n.toNat, c'.mem (dst + BitVec.ofNat 32 j) = c.mem (src + BitVec.ofNat 32 j))
      ∧ (∀ x, ¬ Mem.InRun dst n.toNat x → ¬ Mem.InRun (frame c) 32 x → c'.mem x = c.mem x)
      ∧ c'.regs (.d 0) = dst ∧ c'.regs (.a 0) = dst
      ∧ ∀ r ∈ kept, c'.regs r = c.regs r := by
  obtain ⟨⟨pc, c'⟩, hreach, hret⟩ := memmove_returns hcall
  obtain ⟨i, rfl, -⟩ := hret.at_rts
  obtain ⟨m, hm⟩ := hret.moved
  refine ⟨i, c', hreach, hret.step_rts hcall, fun j hj => ?_, fun x hdst hstack => ?_,
    hret.d0, hret.a0, hret.keeps⟩
  · rw [hm.mem, Mem.moved_apply_dst hj (le_of_lt n.isLt)]
    refine hm.off _ fun hin => hcall.src_apart _ (Mem.inRun_add hj (hj.trans n.isLt)) ?_
    exact lt_of_lt_of_le hin (by decide)
  · rw [hm.mem, Mem.moved_apply_off hdst, hm.off x hstack]

/-- Three bytes at `0x2000` onto the two that follow them and one more. -/
def overlapping : Cpu where
  regs := fun r => if r = .a 7 then 0x1000 else 0
  ccr := ⟨false, false, false, false, false⟩
  mem := fun x => if x = 0x1006 ∨ x = 0x100a then 0x20 else if x = 0x1007 then 1
    else if x = 0x100f then 3 else 0

theorem call_overlapping : Call overlapping 0x2001 0x2000 3 where
  dst_arg := by decide
  src_arg := by decide
  n_arg := by decide
  dst_fits := by decide
  src_fits := by decide
  dst_apart x := by
    have : frame overlapping = 0xfe0 := by decide
    rw [this, Mem.InRun, Mem.InRun]
    bv_omega
  src_apart x := by
    have : frame overlapping = 0xfe0 := by decide
    rw [this, Mem.InRun, Mem.InRun]
    bv_omega

theorem memmove_correct_overlapping :
    ∃ i c', Reaches memmove ⟨.line 0, overlapping⟩ ⟨.line i, c'⟩ ∧ c'.regs (.d 0) = 0x2001 := by
  obtain ⟨i, c', hreach, -, -, -, hd0, -⟩ := memmove_correct call_overlapping
  exact ⟨i, c', hreach, hd0⟩

end Memmove
