import Emu68Common.Machinery.Guarded
import Emu68Common.Prefs.Split

/-!
# Prefs/Guarded — `prefs_split` stays in its line

The same function over memory of which only the line and its terminator may be touched, with the two
pointers it is given to set.  Every walk has a NUL in front of it that it stops at: the terminator,
the cut at the line end, the cut at the mark.  So nothing else is touched (`guarded_eq`), and the
grammar is exactly what `setting` says (`prefs_split_exact`).

    line …… k ··· key ··· eq   v ··· value ··· eol …… hi
                          0                    0      0
-/

namespace Prefs

open Machinery

namespace Guarded

/-- `while (end > v && blank(end[-1])) *--end = '\0';` -/
def trim (lo hi : ℕ) (b : Block) (v : ℕ) : ℕ → Option Block
  | 0 => some b
  | e + 1 =>
    if e + 1 > v then do
      let c ← b.peek lo hi e
      if isBlank c then
        let b ← b.poke lo hi e 0
        trim lo hi b v e
      else
        some b
    else some b

/-- **`prefs_split(line, &key, &val)`**: what it returns, `key`, `val` and the memory after it;
nothing, if it touches a byte that is not from `lo` to `hi`. -/
def prefsSplit (lo hi n : ℕ) (b : Block) (line key val : ℕ) : Option (Bool × ℕ × ℕ × Block) := do
  let eol ← b.scanIn lo hi (fun c => c == 0 || isEol c) n line
  let b ← b.poke lo hi eol 0
  let line ← b.scanIn lo hi (fun c => !isBlank c) n line
  let c ← b.peek lo hi line
  if c == 0 || isComment c then
    return (false, key, val, b)
  let eq ← b.scanIn lo hi (fun c => c == 0 || c == 0x3d) n line
  let c ← b.peek lo hi eq
  if c != 0x3d then
    return (false, key, val, b)
  let b ← b.poke lo hi eq 0
  let k := line
  let v ← b.scanIn lo hi (fun c => !isBlank c) n (eq + 1)
  let last ← b.scanIn lo hi (fun c => c == 0) n v
  let b ← trim lo hi b v last
  let last ← b.scanIn lo hi (fun c => c == 0) n k
  let b ← trim lo hi b k last
  let c ← b.peek lo hi k
  if c == 0 then
    return (false, key, val, b)
  let c ← b.peek lo hi v
  if c == 0 then
    return (false, key, val, b)
  return (true, k, v, b)

variable {b : Block} {lo hi n p v e : ℕ}

/-- Trimming goes back to `v` at most. -/
theorem trim_eq (hlo : lo ≤ v) (hhi : e ≤ hi) :
    trim lo hi b v e = some (Prefs.trim b v e) ∧ Block.Outside lo hi b (Prefs.trim b v e) := by
  induction e generalizing b with
  | zero => exact ⟨rfl, Block.Outside.refl lo hi b⟩
  | succ e ih =>
    rw [trim, Prefs.trim]
    by_cases hv : e + 1 > v
    · have hle : lo ≤ e := by omega
      have hge : e ≤ hi := by omega
      rw [if_pos hv, Block.peek_eq hle hge, decide_eq_true hv, Bool.true_and]
      by_cases hc : isBlank (b e) = true
      · obtain ⟨htrim, hout⟩ := ih (b := Function.update b e 0) hge
        rw [if_pos hc]
        refine ⟨?_, (Block.outside_update hle hge).trans hout⟩
        simp only [Option.bind_eq_bind, Option.bind_some, if_pos hc, Block.poke_eq hle hge, htrim]
      · rw [if_neg hc]
        refine ⟨?_, Block.Outside.refl lo hi b⟩
        simp only [Option.bind_eq_bind, Option.bind_some, if_neg hc]
    · rw [if_neg hv, decide_eq_false hv, Bool.false_and, if_neg Bool.false_ne_true]
      exact ⟨rfl, Block.Outside.refl lo hi b⟩

/-- **To the NUL and back over the blanks**, which is how either half ends. -/
theorem trimmed {q : ℕ} (hq : b q = 0) (hlo : lo ≤ v) (hvq : v ≤ q) (hhi : q ≤ hi)
    (hn : q - v < n) :
    ∃ e, b.scan (fun c => c == 0) n v = some e ∧ b.scanIn lo hi (fun c => c == 0) n v = some e ∧
      e ≤ q ∧ trim lo hi b v e = some (Prefs.trim b v e) ∧
      Block.Outside lo hi b (Prefs.trim b v e) := by
  obtain ⟨e, he, heIn, -, heq, -⟩ := Block.scans b (fun c => c == 0)
    (n := n) (q := q) (by rw [hq]; rfl) hlo hvq hhi hn
  obtain ⟨htrim, hout⟩ := trim_eq (b := b) hlo (heq.trans hhi)
  exact ⟨e, he, heIn, heq, htrim, hout⟩

/-- What the guarded function answers, from what the other does. -/
def answer (key val : ℕ) : Block × Option (ℕ × ℕ) → Bool × ℕ × ℕ × Block
  | (b, none) => (false, key, val, b)
  | (b, some (k, v)) => (true, k, v, b)

/-- **Guarded or not, it does the same**, and leaves what is not in the line alone. -/
theorem guarded_eq (hp : p ≤ hi) (hnul : b hi = 0) (hn : hi - p < n) (key val : ℕ) :
    ∃ b' r, Prefs.prefsSplit n b p = some (b', r) ∧
      prefsSplit p hi n b p key val = some (answer key val (b', r)) ∧
      Block.Outside p hi b b' ∧ b' hi = 0 ∧
      ∀ k v, r = some (k, v) → (p ≤ k ∧ k ≤ hi) ∧ p ≤ v ∧ v ≤ hi := by
  have hcut : ∀ {b : Block} {i : ℕ}, b hi = 0 → Function.update b i 0 hi = 0 := fun h => by
    rw [Function.update_apply, h, ite_self]
  have hnone : ∀ k v, (none : Option (ℕ × ℕ)) = some (k, v) →
      (p ≤ k ∧ k ≤ hi) ∧ p ≤ v ∧ v ≤ hi :=
    fun k v h => absurd h.symm (Option.some_ne_none (k, v))
  obtain ⟨eol, heol, heolIn, hpe, heh, -⟩ := Block.scans b (fun c => c == 0 || isEol c)
    (q := hi) (by rw [hnul]; rfl) le_rfl hp le_rfl hn
  simp only [Prefs.prefsSplit, prefsSplit, heol, heolIn, bind, Option.bind,
    Block.poke_eq hpe heh]
  have hout₁ : Block.Outside p hi b (Function.update b eol 0) := Block.outside_update hpe heh
  have hnul₁ := hcut (i := eol) hnul
  have hend₁ : Function.update b eol 0 eol = 0 := Function.update_self eol 0 b
  generalize Function.update b eol 0 = b₁ at hout₁ hnul₁ hend₁ ⊢
  -- the line starts in front of its end
  obtain ⟨k, hk, hkIn, hpk, hke, -⟩ := Block.scans b₁ (fun c => !isBlank c)
    (n := n) (q := eol) (by rw [hend₁]; rfl) le_rfl hpe heh (by omega)
  simp only [hk, hkIn, Block.peek_eq hpk (hke.trans heh)]
  by_cases hskip : (b₁ k == 0 || isComment (b₁ k)) = true
  · exact ⟨b₁, none, by simp only [if_pos hskip, pure], by simp only [if_pos hskip, pure, answer],
      hout₁, hnul₁, hnone⟩
  simp only [if_neg hskip]
  obtain ⟨eq, heq, heqIn, hkq, hqe, -⟩ := Block.scans b₁ (fun c => c == 0 || c == 0x3d)
    (n := n) (q := eol) (by rw [hend₁]; rfl) hpk hke heh (by omega)
  simp only [heq, heqIn, Block.peek_eq (hpk.trans hkq) (hqe.trans heh)]
  by_cases hmark : (b₁ eq != 0x3d) = true
  · exact ⟨b₁, none, by simp only [if_pos hmark, pure], by simp only [if_pos hmark, pure, answer],
      hout₁, hnul₁, hnone⟩
  simp only [if_neg hmark, Block.poke_eq (hpk.trans hkq) (hqe.trans heh)]
  -- the mark is not the end, so there is a half behind it
  have hlt : eq < eol := lt_of_le_of_ne hqe fun h => by
    rw [h, hend₁] at hmark
    exact hmark rfl
  have hout₂ : Block.Outside p hi b (Function.update b₁ eq 0) :=
    hout₁.trans (Block.outside_update (hpk.trans hkq) (hqe.trans heh))
  have hnul₂ := hcut (i := eq) hnul₁
  have hcut₂ : Function.update b₁ eq 0 eq = 0 := Function.update_self eq 0 b₁
  have hend₂ : Function.update b₁ eq 0 eol = 0 := by
    rw [Function.update_of_ne (Nat.ne_of_gt hlt), hend₁]
  generalize Function.update b₁ eq 0 = b₂ at hout₂ hnul₂ hcut₂ hend₂ ⊢
  obtain ⟨v, hv, hvIn, hqv, hve, -⟩ := Block.scans b₂ (fun c => !isBlank c)
    (n := n) (q := eol) (by rw [hend₂]; rfl)
    (show p ≤ eq + 1 by omega) hlt heh (by omega)
  obtain ⟨last, hlast, hlastIn, hle, htrim, hout₃⟩ := trimmed (n := n) hend₂
    (show p ≤ v by omega) hve heh (by omega)
  simp only [hv, hvIn, hlast, hlastIn, htrim]
  have hout₃ := hout₂.trans hout₃
  have hnul₃ : Prefs.trim b₂ v last hi = 0 := (trim_elsewhere (.inr (hle.trans heh))).trans hnul₂
  have hcut₃ : Prefs.trim b₂ v last eq = 0 := (trim_elsewhere (.inl hqv)).trans hcut₂
  generalize Prefs.trim b₂ v last = b₃ at hout₃ hnul₃ hcut₃ ⊢
  -- the key ends by the mark
  obtain ⟨stop, hstop, hstopIn, hsq, htrim, hout₄⟩ := trimmed (n := n) hcut₃ hpk hkq
    (hqe.trans heh) (by omega)
  simp only [hstop, hstopIn, htrim]
  have hout₄ := hout₃.trans hout₄
  have hnul₄ : Prefs.trim b₃ k stop hi = 0 :=
    (trim_elsewhere (.inr (hsq.trans (hqe.trans heh)))).trans hnul₃
  generalize Prefs.trim b₃ k stop = b₄ at hout₄ hnul₄ ⊢
  by_cases hk0 : (b₄ k == 0) = true
  · refine ⟨b₄, none, ?_, ?_, hout₄, hnul₄, hnone⟩
    · simp only [hk0, Bool.true_or, if_true, pure]
    · simp only [hk0, if_true, pure, answer]
  simp only [if_neg hk0, Block.peek_eq (show p ≤ v by omega) (hve.trans heh)]
  rw [Bool.not_eq_true] at hk0
  by_cases hv0 : (b₄ v == 0) = true
  · refine ⟨b₄, none, ?_, ?_, hout₄, hnul₄, hnone⟩
    · simp only [hk0, hv0, Bool.or_true, if_true, pure]
    · simp only [hv0, if_true, pure, answer]
  · refine ⟨b₄, some (k, v), ?_, ?_, hout₄, hnul₄, fun k' v' h => ?_⟩
    · simp only [hk0, Bool.false_or, if_neg hv0, pure]
    · simp only [if_neg hv0, pure, answer]
    · obtain ⟨rfl, rfl⟩ := Prod.mk.inj (Option.some.inj h)
      exact ⟨⟨hpk, hke.trans heh⟩, by omega, hve.trans heh⟩

end Guarded

/-! ## What is put together comes apart again -/

/-- **A line built from a key and a value**: blanks, the key, blanks, `=`, blanks, the value,
blanks, and a line end or none. -/
structure Built (l key val : List UInt8) : Prop where
  parts : ∃ b₁ b₂ b₃ b₄ eol, l = b₁ ++ key ++ b₂ ++ 0x3d :: (b₃ ++ val ++ b₄ ++ eol) ∧
    (∀ c ∈ b₁ ++ b₂ ++ b₃ ++ b₄, isBlank c = true) ∧ ∀ c ∈ eol.head?, isEol c = true
  bare_key : Bare isBlank key
  bare_val : Bare isBlank val
  key_chars : ∀ c ∈ key, c ≠ 0x3d ∧ isEol c = false
  key_start : ∀ c ∈ key.head?, isComment c = false
  val_chars : ∀ c ∈ val, isEol c = false

theorem not_isEol_of_isBlank (c : UInt8) (h : isBlank c = true) : isEol c = false := by
  rw [isBlank, Bool.or_eq_true, beq_iff_eq, beq_iff_eq] at h
  rcases h with rfl | rfl <;> rfl

/-- **It says that key and that value.** -/
theorem Built.setting_eq {l key val : List UInt8} (h : Built l key val) :
    setting l = some (key, val) := by
  obtain ⟨⟨b₁, b₂, b₃, b₄, eol, rfl, hblank, heol⟩, hkey, hval, hkc, hks, hvc⟩ := h
  simp only [List.mem_append, or_imp, forall_and] at hblank
  obtain ⟨⟨⟨h₁, h₂⟩, h₃⟩, h₄⟩ := hblank
  -- the text in front of the line end
  have htext : (b₁ ++ key ++ b₂ ++ 0x3d :: (b₃ ++ val ++ b₄ ++ eol)).takeWhile (fun c => !isEol c)
      = b₁ ++ key ++ b₂ ++ 0x3d :: (b₃ ++ val ++ b₄) := by
    have hsplit : b₁ ++ key ++ b₂ ++ 0x3d :: (b₃ ++ val ++ b₄ ++ eol)
        = (b₁ ++ key ++ b₂ ++ 0x3d :: (b₃ ++ val ++ b₄)) ++ eol := by simp
    rw [hsplit]
    refine takeWhile_append_stop (fun c hc => ?_) fun c hc => by rw [heol c hc, Bool.not_true]
    simp only [List.mem_append, List.mem_cons] at hc
    rw [Bool.not_eq_true']
    rcases hc with ((hc | hc) | hc) | rfl | (hc | hc) | hc
    · exact not_isEol_of_isBlank c (h₁ c hc)
    · exact (hkc c hc).2
    · exact not_isEol_of_isBlank c (h₂ c hc)
    · rfl
    · exact not_isEol_of_isBlank c (h₃ c hc)
    · exact hvc c hc
    · exact not_isEol_of_isBlank c (h₄ c hc)
  have hbefore : ∀ c ∈ b₁ ++ key ++ b₂, (c != 0x3d) = true := fun c hc => by
    simp only [List.mem_append] at hc
    rcases hc with (hc | hc) | hc
    · exact ne_mark_of_isBlank c (h₁ c hc)
    · exact bne_iff_ne.mpr (hkc c hc).1
    · exact ne_mark_of_isBlank c (h₂ c hc)
  have hmark : ∀ c ∈ (0x3d :: (b₃ ++ val ++ b₄)).head?, (c != 0x3d) = false := fun c hc => by
    rw [← Option.some.inj hc]
    rfl
  rw [setting, htext, takeWhile_append_stop hbefore hmark, dropWhile_append_stop hbefore hmark,
    strip_surrounded hkey h₁ h₂]
  obtain ⟨c, cs, rfl⟩ := List.exists_cons_of_ne_nil hkey.ne_nil
  have hdrop : (b₁ ++ (c :: cs) ++ b₂ ++ 0x3d :: (b₃ ++ val ++ b₄)).dropWhile isBlank
      = c :: (cs ++ b₂ ++ 0x3d :: (b₃ ++ val ++ b₄)) := by
    rw [List.append_assoc, List.append_assoc, dropWhile_append_stop h₁]
    · simp
    · exact fun d hd => hkey.first d hd
  simp only [hdrop, strip_surrounded hval h₃ h₄]
  rw [if_neg (by rw [hks c rfl]; exact Bool.false_ne_true),
    if_neg (not_or.mpr ⟨hkey.ne_nil, hval.ne_nil⟩)]

/-! ## The grammar -/

/-- A text that starts by a NUL ends by it. -/
theorem text_within {b : Block} {q hi : ℕ} {l : List UInt8} (h : b.Text q l) (hq : q ≤ hi)
    (hnul : b hi = 0) : q + l.length ≤ hi := by
  refine le_of_not_gt fun hlt => ?_
  have hne := h.ne_zero (k := hi - q) (by omega)
  rw [Nat.add_sub_cancel' hq] at hne
  exact hne hnul

/-- **`prefs_split` accepts exactly its grammar, in place.**  On any line it touches nothing but the
line and its terminator; it returns TRUE exactly if the line says something, with `key` and `val`
pointing at the two texts, inside the line, and otherwise leaves them as they were; and a line built
from a key and a value says these. -/
theorem prefs_split_exact {b : Block} {n p : ℕ} {l : List UInt8} (h : b.Text p l)
    (hn : l.length < n) (key val : ℕ) :
    (∃ ret key' val' b', Guarded.prefsSplit p (p + l.length) n b p key val
        = some (ret, key', val', b') ∧
      Block.Outside p (p + l.length) b b' ∧
      (ret = true ↔ (setting l).isSome) ∧
      (∀ k v, setting l = some (k, v) → b'.Text key' k ∧ b'.Text val' v ∧
        (p ≤ key' ∧ key' + k.length ≤ p + l.length) ∧
        p ≤ val' ∧ val' + v.length ≤ p + l.length) ∧
      (setting l = none → key' = key ∧ val' = val)) ∧
    ∀ k v, Built l k v → setting l = some (k, v) := by
  refine ⟨?_, fun k v hbuilt => hbuilt.setting_eq⟩
  obtain ⟨b₁, r, hsplit, hguard, hout, hnul, hin⟩ := Guarded.guarded_eq
    (Nat.le_add_right p l.length) h.end_eq (by rwa [Nat.add_sub_cancel_left]) key val
  obtain ⟨b₂, r₂, hsplit₂, hholds⟩ := prefsSplit_eq h hn
  obtain ⟨rfl, rfl⟩ := Prod.mk.inj (Option.some.inj (hsplit.symm.trans hsplit₂))
  cases hs : setting l with
  | none =>
    rw [hs] at hholds
    cases r with
    | none => exact ⟨false, key, val, b₁, hguard, hout, by simp, nofun, fun _ => ⟨rfl, rfl⟩⟩
    | some kv => exact hholds.elim
  | some s =>
    rw [hs] at hholds
    cases r with
    | none => exact hholds.elim
    | some kv =>
      obtain ⟨hk, hv⟩ := hholds
      obtain ⟨⟨hk₁, hk₂⟩, hv₁, hv₂⟩ := hin kv.1 kv.2 rfl
      refine ⟨true, kv.1, kv.2, b₁, hguard, hout, by simp, fun k v hkv => ?_, nofun⟩
      obtain ⟨rfl, rfl⟩ := Prod.mk.inj (Option.some.inj hkv.symm)
      exact ⟨hk, hv, ⟨hk₁, text_within hk hk₂ hnul⟩, hv₁, text_within hv hv₂ hnul⟩

/-- The line `"a =b"`. -/
def spaced : Block := Block.put (fun _ => 0) 0 [0x61, 0x20, 0x3d, 0x62]

theorem spaced_text : spaced.Text 0 [0x61, 0x20, 0x3d, 0x62] :=
  ⟨rfl, by decide, rfl, by decide, rfl, by decide, rfl, by decide, rfl⟩

theorem prefs_split_exact_spaced : ∃ key val b', Guarded.prefsSplit 0 4 8 spaced 0 7 7
    = some (true, key, val, b') ∧ b'.Text key [0x61] ∧ b'.Text val [0x62] := by
  obtain ⟨⟨ret, key, val, b', heq, -, htrue, htexts, -⟩, -⟩ :=
    prefs_split_exact (n := 8) spaced_text (by decide) 7 7
  have hs : setting [0x61, 0x20, 0x3d, 0x62] = some ([0x61], [0x62]) := rfl
  obtain rfl := htrue.mpr (by rw [hs]; rfl)
  exact ⟨key, val, b', heq, (htexts _ _ hs).1, (htexts _ _ hs).2.1⟩

end Prefs
