import Emu68Common.Text.Compare

/-!
# Prefs/Bool — `prefs_bool`, a value as a switch

Eight words, compared one after the other by `_Stricmp`.  Two texts that are the same but for case
are the same folded, so a value is a switch exactly when it folds to one of the words.
-/

namespace Prefs

open Machinery Text

variable {b b1 b2 : Block} {s1 s2 p n : ℕ} {l l1 l2 : List UInt8} {out : ℤ}

/-! ## The source -/

/-- A word of the source. -/
def word (s : String) : List UInt8 := s.toList.map Char.toUInt8

/-- `on` -/
def on : List (List UInt8) := ["on", "yes", "true", "1"].map word

/-- `off` -/
def off : List (List UInt8) := ["off", "no", "false", "0"].map word

/-- A string constant. -/
def constant (w : List UInt8) : Block := fun i => w.getD i 0

/-- The loop over the words: what `*out` is set to, or FALSE. -/
def boolLoop (n : ℕ) (b : Block) (value : ℕ) :
    List (List UInt8 × List UInt8) → Option (Option ℤ)
  | [] => return none
  | (on, off) :: rest => do
    if (← stricmp b (constant on) n value 0) = 0 then return some 1
    if (← stricmp b (constant off) n value 0) = 0 then return some 0
    boolLoop n b value rest

/-- **`prefs_bool(value, &out)`**: what it returns and what `out` is after it; no compare takes more
than `n` rounds. -/
def prefsBool (n : ℕ) (b : Block) (value : ℕ) (out : ℤ) : Option (Bool × ℤ) := do
  let some out ← boolLoop n b value (on.zip off) | return (false, out)
  return (true, out)

/-! ## The words -/

/-- A text is one of these words, but for case. -/
def AnyCase (ws : List (List UInt8)) (l : List UInt8) : Prop := ∃ w ∈ ws, l.map fold = w.map fold

instance (ws : List (List UInt8)) (l : List UInt8) : Decidable (AnyCase ws l) :=
  inferInstanceAs (Decidable (∃ w ∈ ws, _))

/-- A constant is a text. -/
theorem constant_text {w : List UInt8} (h : (0 : UInt8) ∉ w) : (constant w).Text 0 w := by
  refine Block.Text.intro h (fun i hi => ?_) ?_
  · rw [Nat.zero_add]
    exact List.getD_eq_getElem _ _ hi
  · rw [Nat.zero_add]
    exact List.getD_eq_default _ _ le_rfl

/-- **A compare with a word**: `0` for the word in any mix of cases. -/
theorem stricmp_constant {w : List UInt8} (hl : b.Text p l) (hw : (0 : UInt8) ∉ w)
    (hn : l.length < n) :
    ∃ r, stricmp b (constant w) n p 0 = some r ∧ (r = 0 ↔ l.map fold = w.map fold) :=
  ⟨_, stricmp_eq hl (constant_text hw) hn,
    (orders (not_mem_map keepsNul_fold hl.nul_free) (not_mem_map keepsNul_fold hw)).1⟩

/-- The loop finds the first pair of words with the value in it. -/
theorem boolLoop_eq {ws : List (List UInt8 × List UInt8)} (hl : b.Text p l) (hn : l.length < n)
    (hws : ∀ w ∈ ws, (0 : UInt8) ∉ w.1 ∧ (0 : UInt8) ∉ w.2) :
    boolLoop n b p ws = some (ws.findSome? fun w =>
      if l.map fold = w.1.map fold then some 1
      else if l.map fold = w.2.map fold then some 0 else none) := by
  induction ws with
  | nil => rfl
  | cons w ws ih =>
    obtain ⟨hon, hoff⟩ := hws w List.mem_cons_self
    obtain ⟨r, hr, hr0⟩ := stricmp_constant hl hon hn
    obtain ⟨r', hr', hr0'⟩ := stricmp_constant hl hoff hn
    rw [boolLoop, hr, hr', List.findSome?_cons]
    simp only [Option.bind_eq_bind, Option.bind_some, hr0, hr0']
    split
    · rfl
    · split
      · rfl
      · exact ih fun w hw => hws w (List.mem_cons_of_mem _ hw)

/-- The words of one list are found there, and nowhere else. -/
theorem boolLoop_words (hl : b.Text p l) (hn : l.length < n) :
    boolLoop n b p (on.zip off) =
      some (if AnyCase on l then some 1 else if AnyCase off l then some 0 else none) := by
  rw [boolLoop_eq hl hn (by decide)]
  refine congrArg some ?_
  by_cases hon : AnyCase on l
  · obtain ⟨w, hw, heq⟩ := hon
    rw [if_pos ⟨w, hw, heq⟩, heq]
    clear heq
    revert w
    decide
  · rw [if_neg hon]
    by_cases hoff : AnyCase off l
    · obtain ⟨w, hw, heq⟩ := hoff
      rw [if_pos ⟨w, hw, heq⟩, heq]
      clear heq hon
      revert w
      decide
    · rw [if_neg hoff, List.findSome?_eq_none_iff]
      intro w hw
      obtain ⟨hw1, hw2⟩ := List.of_mem_zip hw
      rw [if_neg fun h => hon ⟨_, hw1, h⟩, if_neg fun h => hoff ⟨_, hw2, h⟩]

/-- **`prefs_bool` accepts the eight words**, and leaves `out` alone otherwise. -/
theorem prefsBool_eq (hl : b.Text p l) (hn : l.length < n) : prefsBool n b p out =
    some (if AnyCase on l then (true, 1)
      else if AnyCase off l then (true, 0) else (false, out)) := by
  rw [prefsBool, boolLoop_words hl hn]
  split
  · rfl
  · split <;> rfl

/-! ## The compares together -/

/-- **The four compares agree**: what `_Stricmp` returns is what `strcmp` returns for the folded
texts, the counted ones return what the others return for the cut texts, `strncmp` reads nothing
behind the cut, each result orders the two texts, and `prefs_bool` takes the eight words in any mix
of cases. -/
theorem compares_agree (h1 : b1.Text s1 l1) (h2 : b2.Text s2 l2) (hn : l1.length < n) (k : ℕ) :
    (∀ f1 f2 t1 t2, Block.Text f1 t1 (l1.map fold) → Block.Text f2 t2 (l2.map fold) →
      stricmp b1 b2 n s1 s2 = strcmp f1 f2 n t1 t2) ∧
    (∀ f1 f2 t1 t2, Block.Text f1 t1 (l1.take k) → Block.Text f2 t2 (l2.take k) →
      strncmp (within s1 k) (within s2 k) b1 b2 s1 s2 k = strcmp f1 f2 n t1 t2 ∧
        some (strnicmp b1 b2 s1 s2 k) = stricmp f1 f2 n t1 t2) ∧
    (∃ r, strcmp b1 b2 n s1 s2 = some r ∧ Orders r l1 l2) ∧
    (∃ r, stricmp b1 b2 n s1 s2 = some r ∧ Orders r (l1.map fold) (l2.map fold)) ∧
    (∃ r, strncmp (within s1 k) (within s2 k) b1 b2 s1 s2 k = some r ∧
      Orders r (l1.take k) (l2.take k)) ∧
    Orders (strnicmp b1 b2 s1 s2 k) ((l1.take k).map fold) ((l2.take k).map fold) ∧
    ∀ out, prefsBool n b1 s1 out = some (if AnyCase on l1 then (true, 1)
      else if AnyCase off l1 then (true, 0) else (false, out)) := by
  have hcut : (l1.take k).length < n := (List.length_take_le' k l1).trans_lt hn
  have hfold : (l1.map fold).length < n := (List.length_map fold).trans_lt hn
  have hstrncmp := strncmp_eq (n := k) h1 h2 (fun i hi => within_add s1 hi)
    fun i hi => within_add s2 hi
  have hnul1 := h1.nul_free
  have hnul2 := h2.nul_free
  refine ⟨fun f1 f2 t1 t2 hf1 hf2 => ?_, fun f1 f2 t1 t2 hf1 hf2 => ⟨?_, ?_⟩,
    ⟨_, strcmp_eq h1 h2 hn, orders hnul1 hnul2⟩, ⟨_, stricmp_eq h1 h2 hn, ?_⟩,
    ⟨_, hstrncmp, orders (not_mem_take hnul1 k) (not_mem_take hnul2 k)⟩, ?_,
    fun out => prefsBool_eq h1 hn⟩
  · rw [stricmp_eq h1 h2 hn, strcmp_eq hf1 hf2 hfold]
  · rw [hstrncmp, strcmp_eq hf1 hf2 hcut]
  · rw [strnicmp_eq h1 h2, stricmp_eq hf1 hf2 hcut]
  · exact orders (not_mem_map keepsNul_fold hnul1) (not_mem_map keepsNul_fold hnul2)
  · rw [strnicmp_eq h1 h2]
    exact orders (not_mem_map keepsNul_fold (not_mem_take hnul1 k))
      (not_mem_map keepsNul_fold (not_mem_take hnul2 k))

theorem compares_agree_yes :
    prefsBool 4 (constant (word "yEs")) 0 7 = some (true, 1) ∧
      stricmp (constant (word "yEs")) (constant (word "Yet")) 4 0 0 = some (-1) ∧
      strncmp (within 0 2) (within 0 2) (constant (word "yEs")) (constant (word "yEt")) 0 0 2
        = some 0 := by
  have h := constant_text (w := word "yEs") (by decide)
  have h' := constant_text (w := word "Yet") (by decide)
  have h'' := constant_text (w := word "yEt") (by decide)
  refine ⟨((compares_agree h h' (by decide) 2).2.2.2.2.2.2 7).trans (by decide), ?_, ?_⟩
  · exact ((compares_agree h h' (by decide) 2).1 (constant (word "YES")) (constant (word "YET"))
      0 0 (constant_text (by decide)) (constant_text (by decide))).trans (by decide)
  · exact ((compares_agree (n := 4) h h'' (by decide) 2).2.1 (constant (word "yE"))
      (constant (word "yE")) 0 0 (constant_text (by decide)) (constant_text (by decide))).1.trans
      (by decide)

end Prefs
