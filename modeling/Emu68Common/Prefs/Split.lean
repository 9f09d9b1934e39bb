import Emu68Common.Machinery.Lines
import Emu68Common.Machinery.Text

/-!
# Prefs/Split — `prefs_split`, one line of a prefs file

A line of an `ENV:*.prefs` file is `key = value`; what it says is `setting`.  `prefs_split` works in
the line's own buffer: it writes a NUL over the line end, over the first `=` and over the blanks
behind either half, and hands out two pointers into what is left.  `prefsSplit_eq`: those are the
two halves `setting` speaks of.

    setting l               what a line says: a key and a value, or nothing
    prefs_split n b line    the cut-up buffer, and the two pointers; no walk goes further than `n`
-/

namespace Prefs

open Machinery

variable {b : Block} {n p : ℕ} {l u v : List UInt8}

/-! ## What a line says -/

/-- A space or a tab. -/
def isBlank (c : UInt8) : Bool := c == 0x20 || c == 0x09

/-- A line end, as far as a line goes. -/
def isEol (c : UInt8) : Bool := c == 0x0a || c == 0x0d

/-- `#` or `;` in front. -/
def isComment (c : UInt8) : Bool := c == 0x23 || c == 0x3b

/-- A key and its value. -/
abbrev Setting : Type := List UInt8 × List UInt8

/-- **What a line says**: it is cut at its first CR or LF; blank lines and comments say nothing,
any other line is split at its first `=`, and both halves, stripped, must be there. -/
def setting (l : List UInt8) : Option Setting :=
  let text := l.takeWhile fun c => !isEol c
  match text.dropWhile isBlank with
  | [] => none
  | c :: _ =>
    if isComment c then none
    else match text.dropWhile (· != 0x3d) with
      | [] => none
      | _ :: after =>
        let key := strip isBlank (text.takeWhile (· != 0x3d))
        let val := strip isBlank after
        if key = [] ∨ val = [] then none else some (key, val)

/-! ## `prefs_split` -/

/-- `while (end > v && blank(end[-1])) *--end = '\0';` -/
def trim (b : Block) (v : ℕ) : ℕ → Block
  | 0 => b
  | e + 1 =>
    if e + 1 > v && isBlank (b e) then trim (Function.update b e 0) v e else b

/-- `prefs_split(line, &key, &val)`: FALSE leaves the two pointers alone. -/
def prefsSplit (n : ℕ) (b : Block) (line : ℕ) : Option (Block × Option (ℕ × ℕ)) := do
  let eol ← b.scan (fun c => c == 0 || isEol c) n line
  let b : Block := Function.update b eol 0
  let line ← b.scan (fun c => !isBlank c) n line
  if b line == 0 || isComment (b line) then
    return (b, none)
  let eq ← b.scan (fun c => c == 0 || c == 0x3d) n line
  if b eq != 0x3d then
    return (b, none)
  let b : Block := Function.update b eq 0
  let k := line
  let v ← b.scan (fun c => !isBlank c) n (eq + 1)
  let last ← b.scan (fun c => c == 0) n v
  let b := trim b v last
  let last ← b.scan (fun c => c == 0) n k
  let b := trim b k last
  if b k == 0 || b v == 0 then
    return (b, none)
  return (b, some (k, v))

example : setting "  KEY  =  a = b \r\n".toUTF8.toList =
    some ("KEY".toUTF8.toList, "a = b".toUTF8.toList) := by decide +kernel

/-! ## The walks -/

/-- **The blanks behind a text are cut off.** -/
theorem trim_text (h : b.Text p l) : (trim b p (p + l.length)).Text p (l.rdropWhile isBlank) := by
  induction l using List.reverseRecOn generalizing b with
  | nil =>
    rw [List.rdropWhile_nil, List.length_nil, Nat.add_zero]
    cases p with
    | zero => exact h
    | succ p =>
      rw [trim, if_neg (by rw [decide_eq_false (Nat.lt_irrefl _), Bool.false_and]
                           exact Bool.false_ne_true)]
      exact h
  | append_singleton l c ih =>
    have hc : b (p + l.length) = c := h.get
    rw [List.length_append, List.length_singleton, ← Nat.add_assoc, trim, hc,
      decide_eq_true (show p + l.length + 1 > p by omega), Bool.true_and]
    by_cases hb : isBlank c = true
    · rw [if_pos hb, List.rdropWhile_concat_pos _ _ _ hb]
      exact ih h.cut
    · rw [if_neg hb, List.rdropWhile_concat_neg _ _ _ hb]
      exact h

/-- It touches nothing in front of the text or behind it. -/
theorem trim_elsewhere {v e q : ℕ} (h : q < v ∨ e ≤ q) : trim b v e q = b q := by
  induction e generalizing b with
  | zero => rfl
  | succ e ih =>
    rw [trim]
    split
    case isTrue hc =>
      have hv : e + 1 > v := of_decide_eq_true (Bool.and_eq_true_iff.mp hc).1
      rw [ih (by omega), Function.update_of_ne (by omega)]
    case isFalse => rfl

/-- The walk to the NUL. -/
theorem scan_nul (h : b.Text p l) (hn : l.length < n) :
    b.scan (fun c => c == 0) n p = some (p + l.length) := by
  rw [← List.append_nil l] at h
  refine h.scan_eq (fun c hc => beq_false_of_ne fun h0 => ?_) (fun c w h => by cases h)
    (fun _ => rfl) hn
  rw [List.append_nil] at h
  exact h.nul_free (h0 ▸ hc)

/-- A text starts with a NUL when there is nothing of it. -/
theorem text_head (h : b.Text p l) : (b p == 0) = true ↔ l = [] := by
  rw [beq_iff_eq]
  cases l with
  | nil => exact ⟨fun _ => rfl, fun _ => h⟩
  | cons c l => exact ⟨fun h0 => absurd (h.1.symm.trans h0) h.2.1, fun h => by cases h⟩

/-! ## What comes out -/

/-- The two pointers stand at the two halves. -/
def Holds (b : Block) : Option (ℕ × ℕ) → Option Setting → Prop
  | none, none => True
  | some (k, v), some (key, val) => b.Text k key ∧ b.Text v val
  | _, _ => False

/-- No blank is a mark. -/
theorem ne_mark_of_isBlank (c : UInt8) (h : isBlank c = true) : (c != 0x3d) = true := by
  rw [isBlank, Bool.or_eq_true, beq_iff_eq, beq_iff_eq] at h
  rcases h with rfl | rfl <;> rfl

/-- **The same reading in the order the code takes it**: the blanks in front of the line go first,
and with them those in front of the key. -/
theorem setting_eq (l : List UInt8) :
    setting l = match (l.takeWhile fun c => !isEol c).dropWhile isBlank with
      | [] => none
      | c :: s =>
        if isComment c then none
        else match (c :: s).dropWhile (· != 0x3d) with
          | [] => none
          | _ :: after =>
            if ((c :: s).takeWhile (· != 0x3d)).rdropWhile isBlank = [] ∨
              strip isBlank after = [] then
              none
            else some (((c :: s).takeWhile (· != 0x3d)).rdropWhile isBlank,
              strip isBlank after) := by
  rw [setting]
  generalize (l.takeWhile fun c => !isEol c) = text
  cases hs : text.dropWhile isBlank with
  | nil => rfl
  | cons c s =>
    have hkey : strip isBlank (text.takeWhile (· != 0x3d))
        = ((c :: s).takeWhile (· != 0x3d)).rdropWhile isBlank := by
      rw [strip, dropWhile_takeWhile ne_mark_of_isBlank, hs]
    have hrest : text.dropWhile (· != 0x3d) = (c :: s).dropWhile (· != 0x3d) := by
      rw [← hs, dropWhile_dropWhile ne_mark_of_isBlank]
    simp only [hkey, hrest]

/-- A walk to a byte of some kind, or to the NUL. -/
theorem scan_stop (h : b.Text p l) (q : UInt8 → Bool) (hn : l.length < n) :
    b.scan (fun c => c == 0 || q c) n p = some (p + (l.takeWhile fun c => !q c).length) := by
  refine h.scan_while (fun c => c == 0 || q c) (fun c => !q c) (fun d hd => ?_) rfl hn
  have hd0 : (d == 0) = false := beq_false_of_ne fun h0 => h.nul_free (h0 ▸ hd)
  rw [hd0, Bool.false_or, Bool.not_not]

theorem prefsSplit_eq (h : b.Text p l) (hn : l.length < n) :
    ∃ b' r, prefsSplit n b p = some (b', r) ∧ Holds b' r (setting l) := by
  have heol := scan_stop h isEol hn
  rw [← List.takeWhile_append_dropWhile (p := fun c => !isEol c) (l := l)] at h
  have h₁ := h.cut
  rw [setting_eq]
  simp only [prefsSplit, heol, bind, Option.bind]
  have htext : (l.takeWhile fun c => !isEol c).length < n :=
    (List.takeWhile_prefix _).length_le.trans_lt hn
  generalize (l.takeWhile fun c => !isEol c) = text at *
  generalize Function.update b (p + text.length) 0 = b₁ at *
  have hline := h₁.scan_while (fun c => !isBlank c) isBlank (fun c _ => rfl) rfl htext
  have h₂ := h₁.dropWhile isBlank
  have hs : (text.dropWhile isBlank).length < n :=
    (List.dropWhile_suffix _).length_le.trans_lt htext
  simp only [hline]
  generalize p + (text.takeWhile isBlank).length = k at *
  generalize text.dropWhile isBlank = s at *
  cases s with
  | nil =>
    have hk : (b₁ k == 0) = true := (text_head h₂).mpr rfl
    exact ⟨b₁, none, by simp only [hk, Bool.true_or, if_true, pure], trivial⟩
  | cons c s =>
    have hc0 : (c == 0) = false := beq_false_of_ne h₂.2.1
    simp only [h₂.1, hc0, Bool.false_or]
    by_cases hc : isComment c = true
    · exact ⟨b₁, none, by simp only [hc, if_true, pure], by simp only [hc, if_true, Holds]⟩
    rw [if_neg hc, if_neg hc]
    generalize c :: s = t at *
    have hmark : Block.scan (fun c => c == 0 || c == 0x3d) b₁ n k =
        some (k + (t.takeWhile (· != 0x3d)).length) := scan_stop h₂ (· == 0x3d) hs
    simp only [hmark]
    rw [← List.takeWhile_append_dropWhile (p := (· != 0x3d)) (l := t)] at h₂ hs
    rw [List.length_append] at hs
    cases hd : t.dropWhile (· != 0x3d) with
    | nil =>
      rw [hd] at h₂
      have : b₁ (k + (t.takeWhile (· != 0x3d)).length) = 0 := h₂.drop
      exact ⟨b₁, none, by simp only [this]; rfl, trivial⟩
    | cons m after =>
      obtain rfl : m = 0x3d := by simpa using dropWhile_head hd
      rw [hd] at h₂ hs
      have hm := h₂.get
      have hkey := h₂.cut
      have hval := (h₂.drop.2.2).update (q := k + (t.takeWhile (· != 0x3d)).length) (c := 0)
        (.inl (Nat.lt_succ_self _))
      simp only [hm]
      generalize t.takeWhile (· != 0x3d) = key at *
      generalize Function.update b₁ (k + key.length) 0 = b₂ at *
      rw [List.length_cons] at hs
      have hv := hval.scan_while (fun c => !isBlank c) isBlank (fun c _ => rfl) rfl
        (show after.length < n by omega)
      have hval := hval.dropWhile isBlank
      have hlen : (after.dropWhile isBlank).length < n :=
        (List.dropWhile_suffix _).length_le.trans_lt (by omega)
      simp only [hv]
      have hkv : k + key.length < k + key.length + 1 + (after.takeWhile isBlank).length := by omega
      generalize k + key.length + 1 + (after.takeWhile isBlank).length = v at *
      simp only [scan_nul hval hlen]
      -- the value's blanks go, and the key is still there
      have hkey : (trim b₂ v (v + (after.dropWhile isBlank).length)).Text k key :=
        hkey.congr fun i _ hi => trim_elsewhere (.inl (by omega))
      have hval := trim_text hval
      generalize trim b₂ v (v + (after.dropWhile isBlank).length) = b₃ at *
      simp only [scan_nul hkey (show key.length < n by omega)]
      -- the key's blanks go, and the value is still there
      have hval : (trim b₃ k (k + key.length)).Text v
        ((after.dropWhile isBlank).rdropWhile isBlank) :=
        hval.congr fun i hi _ => trim_elsewhere (.inr (by omega))
      have hkey := trim_text hkey
      generalize trim b₃ k (k + key.length) = b₄ at *
      have hempty : (b₄ k == 0 || b₄ v == 0) = true ↔
          key.rdropWhile isBlank = [] ∨ strip isBlank after = [] := by
        rw [Bool.or_eq_true, text_head hkey, text_head hval, strip]
      by_cases he : (b₄ k == 0 || b₄ v == 0) = true
      · refine ⟨b₄, none, if_pos he, ?_⟩
        simp only [if_pos (hempty.mp he), Holds]
      · refine ⟨b₄, some (k, v), if_neg he, ?_⟩
        simp only [if_neg (mt hempty.mpr he)]
        exact ⟨hkey, hval⟩

end Prefs
