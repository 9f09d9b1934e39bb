import Emu68Common.Machinery.Compare
import Emu68Common.Machinery.Guarded

/-!
# Text/Compare — `strcmp`, `_Stricmp`, `strncmp` and `_Strnicmp`

Four loops over two strings that stop in different ways.  Each returns the difference of two
*terminated* texts (`order`), folded or cut first: a terminated text is never the beginning of
another one, so there is always a first place where two of them differ.

    order l l'        the difference of two texts, each with the NUL behind it
    fold c            a–z as A–Z
-/

namespace Text

open Machinery

variable {b1 b2 : Block} {s1 s2 n : ℕ} {l l' : List UInt8} {f : UInt8 → UInt8} {c : UInt8}

/-! ## The source -/

/-- `if (c >= 'a' && c <= 'z') c = (UBYTE)(c - 32);` -/
def fold (c : UInt8) : UInt8 := if c ≥ 'a'.toUInt8 ∧ c ≤ 'z'.toUInt8 then c - 32 else c

/-- `*s ? *s++ : 0`: the byte, and `s` after it. -/
def next (b : Block) (s : ℕ) : UInt8 × ℕ := if b s ≠ 0 then (b s, s + 1) else (0, s)

/-- `_Stricmp(s1, s2)`, in so many rounds at most. -/
def stricmp (b1 b2 : Block) : ℕ → ℕ → ℕ → Option ℤ
  | 0, _, _ => none
  | n + 1, s1, s2 =>
    let (c1, s1) := next b1 s1
    let (c2, s2) := next b2 s2
    let c1 := fold c1
    let c2 := fold c2
    if c1 ≠ c2 then some (c1.toNat - c2.toNat)
    else if c1 ≠ 0 then stricmp b1 b2 n s1 s2
    else some 0

/-- `strcmp(s1, s2)`, in so many rounds at most. -/
def strcmp (b1 b2 : Block) : ℕ → ℕ → ℕ → Option ℤ
  | 0, _, _ => none
  | n + 1, s1, s2 =>
    let c1 := b1 s1
    let c2 := b2 s2
    if c1 ≠ c2 then some (c1.toNat - c2.toNat)
    else if c1 ≠ 0 then strcmp b1 b2 n (s1 + 1) (s2 + 1)
    else some 0

/-- `strncmp(s1, s2, n)`, where the bytes of `R1` and of `R2` may be read. -/
def strncmp (R1 R2 : ℕ → Bool) (b1 b2 : Block) : ℕ → ℕ → ℕ → Option ℤ
  | _, _, 0 => return 0
  | s1, s2, n + 1 => do
    let c1 ← fetch R1 b1 s1
    let c2 ← fetch R2 b2 s2
    if c1 ≠ c2 then return c1.toNat - c2.toNat
    if c1 = 0 then return 0
    strncmp R1 R2 b1 b2 (s1 + 1) (s2 + 1) n

/-- The loop of `_Strnicmp`. -/
def strnicmpLoop (b1 b2 : Block) : ℕ → ℕ → ℕ → ℤ
  | _, _, 0 => 0
  | s1, s2, len + 1 =>
    let (c1, s1) := next b1 s1
    let (c2, s2) := next b2 s2
    let c1 := fold c1
    let c2 := fold c2
    if c1 ≠ c2 then c1.toNat - c2.toNat
    else if c1 = 0 then 0
    else strnicmpLoop b1 b2 s1 s2 len

/-- `_Strnicmp(s1, s2, len)` -/
def strnicmp (b1 b2 : Block) (s1 s2 : ℕ) (len : ℤ) : ℤ :=
  if len ≤ 0 then 0 else strnicmpLoop b1 b2 s1 s2 len.toNat

/-! ## The order of two texts -/

/-- **The difference of two texts**, each with its NUL. -/
def order (l l' : List UInt8) : ℤ := difference UInt8.toNat (l ++ [0]) (l' ++ [0])

/-- A terminated text is the beginning of no other. -/
theorem eq_of_terminated (hl' : (0 : UInt8) ∉ l') (h : l ++ [0] <+: l' ++ [0]) :
    l = l' := by
  induction l generalizing l' with
  | nil =>
    cases l' with
    | nil => rfl
    | cons d l' =>
      have hd : 0 = d := List.head_eq_of_cons_eq h.choose_spec
      exact absurd (List.mem_cons.mpr (Or.inl hd)) hl'
  | cons c l ih =>
    cases l' with
    | nil => exact absurd h.length_le (by simp)
    | cons d l' =>
      obtain ⟨rfl, htail⟩ := List.cons_prefix_cons.mp h
      rw [ih (fun h0 => hl' (List.mem_cons_of_mem c h0)) htail]

theorem aligned_terminated (hl : (0 : UInt8) ∉ l) (hl' : (0 : UInt8) ∉ l') :
    Aligned (l ++ [0]) (l' ++ [0]) :=
  ⟨fun h => congrArg (· ++ [0]) (eq_of_terminated hl' h),
    fun h => congrArg (· ++ [0]) (eq_of_terminated hl h).symm⟩

/-- `r` is what a compare of two texts is for: `0` if they are equal, the difference of the first
two bytes that differ otherwise. -/
def Orders (r : ℤ) (l l' : List UInt8) : Prop :=
  (r = 0 ↔ l = l') ∧ (l ≠ l' → ∃ u c d s s', l ++ [0] = u ++ c :: s ∧ l' ++ [0] = u ++ d :: s' ∧
    c ≠ d ∧ r = c.toNat - d.toNat)

/-- **The difference orders the texts.** -/
theorem orders (hl : (0 : UInt8) ∉ l) (hl' : (0 : UInt8) ∉ l') : Orders (order l l') l l' := by
  have halign := aligned_terminated hl hl'
  refine ⟨(halign.difference_eq_zero fun _ _ => UInt8.toNat.inj).trans (List.append_left_inj [0]),
    fun hne => ?_⟩
  obtain ⟨u, c, d, s, s', h, h', hcd⟩ :=
    halign.exists_first fun h => hne (List.append_cancel_right h)
  refine ⟨u, c, d, s, s', h, h', hcd, ?_⟩
  rw [order, h, h', difference_append, difference_cons_ne hcd]

/-! ## One round -/

/-- Only the NUL is folded to NUL. -/
def KeepsNul (f : UInt8 → UInt8) : Prop := ∀ c, f c = 0 ↔ c = 0

theorem keepsNul_id : KeepsNul id := fun _ => Iff.rfl

theorem keepsNul_fold : KeepsNul fold := by
  intro c
  rw [fold]
  split
  · rename_i h
    refine ⟨fun h0 => ?_, fun h0 => absurd h.1 (h0 ▸ by decide)⟩
    have hc : c = 32 := sub_eq_zero.mp h0
    exact absurd h.1 (hc ▸ by decide)
  · exact Iff.rfl

theorem not_mem_map (hf : KeepsNul f) (hl : (0 : UInt8) ∉ l) : (0 : UInt8) ∉ l.map f := by
  intro h
  obtain ⟨c, hc, h0⟩ := List.mem_map.mp h
  exact hl ((hf c).mp h0 ▸ hc)

theorem headD_ne_zero (hl : (0 : UInt8) ∉ l) (hne : l ≠ []) : l.headD 0 ≠ 0 := by
  cases l with
  | nil => exact absurd rfl hne
  | cons c l => exact fun h0 => hl (List.mem_cons.mpr (Or.inl h0.symm))

/-- **One round of a compare**: the heads, and the texts behind them if they are the same. -/
theorem order_round (hf : KeepsNul f) (hl : (0 : UInt8) ∉ l) (hl' : (0 : UInt8) ∉ l') :
    order (l.map f) (l'.map f) =
      if f (l.headD 0) ≠ f (l'.headD 0) then ((f (l.headD 0)).toNat - (f (l'.headD 0)).toNat : ℤ)
      else if l.headD 0 = 0 then 0
      else order (l.tail.map f) (l'.tail.map f) := by
  have h0 : f 0 = 0 := (hf 0).mpr rfl
  cases l with
  | nil =>
    cases l' with
    | nil => exact ((if_neg (not_not_intro rfl)).trans (if_pos rfl)).symm
    | cons d l' =>
      have hd : f d ≠ 0 := fun hd => headD_ne_zero hl' nofun ((hf d).mp hd)
      have hne : f 0 ≠ f d := fun h => hd (h.symm.trans h0)
      rw [List.headD_nil, List.headD_cons, if_pos hne, h0]
      exact difference_cons_ne hd.symm
  | cons c l =>
    have hc : f c ≠ 0 := fun hc => headD_ne_zero hl nofun ((hf c).mp hc)
    have hc0 : c ≠ 0 := headD_ne_zero hl nofun
    cases l' with
    | nil =>
      rw [List.headD_nil, List.headD_cons, if_pos (fun h => hc (h.trans h0)), h0]
      exact difference_cons_ne hc
    | cons d l' =>
      rw [List.headD_cons, List.headD_cons]
      by_cases hcd : f c = f d
      · rw [if_neg (not_not_intro hcd), if_neg hc0, order, List.map_cons, List.map_cons, hcd]
        exact difference_cons_self ..
      · rw [if_pos hcd]
        exact difference_cons_ne hcd

/-- The byte here is the text's first, or its NUL. -/
theorem headD_eq (h : b1.Text s1 l) : b1 s1 = l.headD 0 := by
  cases l with
  | nil => exact h
  | cons c l => exact h.1

/-- Behind a byte that is no NUL the text goes on. -/
theorem tail_text (h : b1.Text s1 l) (hne : b1 s1 ≠ 0) :
    b1.Text (s1 + 1) l.tail ∧ l.tail.length < l.length := by
  cases l with
  | nil => exact absurd h hne
  | cons c l => exact ⟨h.2.2, Nat.lt_succ_self _⟩

/-! ## The four loops -/

theorem next_fst (b : Block) (s : ℕ) : (next b s).1 = b s := by
  rw [next]
  split
  · rfl
  · rename_i h
    exact (not_not.mp h).symm

theorem next_snd (h : b1 s1 ≠ 0) : (next b1 s1).2 = s1 + 1 := by rw [next, if_pos h]

/-- `strcmp` returns the difference. -/
theorem strcmp_eq (h1 : b1.Text s1 l) (h2 : b2.Text s2 l') (hn : l.length < n) :
    strcmp b1 b2 n s1 s2 = some (order l l') := by
  induction n generalizing s1 s2 l l' with
  | zero => exact absurd hn (Nat.not_lt_zero _)
  | succ n ih =>
    have hround := order_round keepsNul_id h1.nul_free h2.nul_free
    rw [List.map_id, List.map_id, List.map_id, List.map_id, ← headD_eq h1, ← headD_eq h2]
      at hround
    rw [hround]
    change (if b1 s1 ≠ b2 s2 then _ else _) = some (if b1 s1 ≠ b2 s2 then _ else _)
    by_cases hc : b1 s1 = b2 s2
    · rw [if_neg (not_not_intro hc), if_neg (not_not_intro hc)]
      by_cases h0 : b1 s1 = 0
      · rw [if_neg (not_not_intro h0), if_pos h0]
      · obtain ⟨htail, hlen⟩ := tail_text h1 h0
        rw [if_pos h0, if_neg h0]
        exact ih htail (tail_text h2 (hc ▸ h0)).1 (by omega)
    · rw [if_pos hc, if_pos hc]
      rfl

/-- `_Stricmp` returns the difference of the folded texts. -/
theorem stricmp_eq (h1 : b1.Text s1 l) (h2 : b2.Text s2 l') (hn : l.length < n) :
    stricmp b1 b2 n s1 s2 = some (order (l.map fold) (l'.map fold)) := by
  induction n generalizing s1 s2 l l' with
  | zero => exact absurd hn (Nat.not_lt_zero _)
  | succ n ih =>
    rw [order_round keepsNul_fold h1.nul_free h2.nul_free, ← headD_eq h1, ← headD_eq h2]
    change (if fold (next b1 s1).1 ≠ fold (next b2 s2).1
      then some ((fold (next b1 s1).1).toNat - (fold (next b2 s2).1).toNat : ℤ)
      else if fold (next b1 s1).1 ≠ 0 then stricmp b1 b2 n (next b1 s1).2 (next b2 s2).2
      else _) = _
    rw [next_fst, next_fst]
    by_cases hc : fold (b1 s1) = fold (b2 s2)
    · rw [if_neg (not_not_intro hc), if_neg (not_not_intro hc)]
      by_cases h0 : b1 s1 = 0
      · rw [if_neg (not_not_intro ((keepsNul_fold _).mpr h0)), if_pos h0]
      · have h0' : fold (b1 s1) ≠ 0 := fun h => h0 ((keepsNul_fold _).mp h)
        have h2' : b2 s2 ≠ 0 := fun h => h0' (hc.trans ((keepsNul_fold _).mpr h))
        obtain ⟨htail, hlen⟩ := tail_text h1 h0
        rw [if_pos h0', if_neg h0, next_snd h0, next_snd h2']
        exact ih htail (tail_text h2 h2').1 (by omega)
    · rw [if_pos hc, if_pos hc]

/-- The head of a cut text, and what is behind it. -/
theorem headD_take (l : List UInt8) (n : ℕ) : (l.take (n + 1)).headD 0 = l.headD 0 := by
  cases l <;> rfl

theorem tail_take (l : List UInt8) (n : ℕ) : (l.take (n + 1)).tail = l.tail.take n := by
  cases l <;> simp

theorem not_mem_take (hl : (0 : UInt8) ∉ l) (n : ℕ) : (0 : UInt8) ∉ l.take n :=
  fun h => hl (List.mem_of_mem_take h)

/-- **`strncmp` returns the difference of the cut texts**, and reads nothing behind the cut. -/
theorem strncmp_eq {R1 R2 : ℕ → Bool} (h1 : b1.Text s1 l) (h2 : b2.Text s2 l')
    (hR1 : ∀ i < n, R1 (s1 + i) = true) (hR2 : ∀ i < n, R2 (s2 + i) = true) :
    strncmp R1 R2 b1 b2 s1 s2 n = some (order (l.take n) (l'.take n)) := by
  induction n generalizing s1 s2 l l' with
  | zero => rfl
  | succ n ih =>
    have hround := order_round keepsNul_id (not_mem_take h1.nul_free (n + 1))
      (not_mem_take h2.nul_free (n + 1))
    rw [List.map_id, List.map_id, List.map_id, List.map_id, headD_take, headD_take, tail_take,
      tail_take, ← headD_eq h1, ← headD_eq h2] at hround
    have hrun : strncmp R1 R2 b1 b2 s1 s2 (n + 1) = if b1 s1 ≠ b2 s2
        then some ((b1 s1).toNat - (b2 s2).toNat : ℤ) else if b1 s1 = 0 then some 0
        else strncmp R1 R2 b1 b2 (s1 + 1) (s2 + 1) n := by
      have hread1 : R1 s1 = true := hR1 0 n.succ_pos
      have hread2 : R2 s2 = true := hR2 0 n.succ_pos
      rw [strncmp, fetch_eq hread1, fetch_eq hread2]
      simp only [Option.bind_eq_bind, Option.bind_some]
      split <;> [rfl; split <;> rfl]
    rw [hrun, hround]
    change (if b1 s1 ≠ b2 s2 then _ else _) = some (if b1 s1 ≠ b2 s2 then _ else _)
    by_cases hc : b1 s1 = b2 s2
    · rw [if_neg (not_not_intro hc), if_neg (not_not_intro hc)]
      by_cases h0 : b1 s1 = 0
      · rw [if_pos h0, if_pos h0]
      · rw [if_neg h0, if_neg h0]
        refine ih (tail_text h1 h0).1 (tail_text h2 (hc ▸ h0)).1 (fun i hi => ?_) fun i hi => ?_
        · rw [Nat.add_assoc, Nat.add_comm 1]
          exact hR1 (i + 1) (Nat.succ_lt_succ hi)
        · rw [Nat.add_assoc, Nat.add_comm 1]
          exact hR2 (i + 1) (Nat.succ_lt_succ hi)
    · rw [if_pos hc, if_pos hc]
      rfl

theorem strnicmpLoop_eq (h1 : b1.Text s1 l) (h2 : b2.Text s2 l') :
    strnicmpLoop b1 b2 s1 s2 n = order ((l.take n).map fold) ((l'.take n).map fold) := by
  induction n generalizing s1 s2 l l' with
  | zero => rfl
  | succ n ih =>
    rw [order_round keepsNul_fold (not_mem_take h1.nul_free _) (not_mem_take h2.nul_free _),
      headD_take, headD_take, tail_take, tail_take, ← headD_eq h1, ← headD_eq h2]
    change (if fold (next b1 s1).1 ≠ fold (next b2 s2).1
      then ((fold (next b1 s1).1).toNat - (fold (next b2 s2).1).toNat : ℤ)
      else if fold (next b1 s1).1 = 0 then _
      else strnicmpLoop b1 b2 (next b1 s1).2 (next b2 s2).2 n) = _
    rw [next_fst, next_fst]
    by_cases hc : fold (b1 s1) = fold (b2 s2)
    · rw [if_neg (not_not_intro hc), if_neg (not_not_intro hc)]
      by_cases h0 : b1 s1 = 0
      · rw [if_pos ((keepsNul_fold _).mpr h0), if_pos h0]
      · have h0' : fold (b1 s1) ≠ 0 := fun h => h0 ((keepsNul_fold _).mp h)
        have h2' : b2 s2 ≠ 0 := fun h => h0' (hc.trans ((keepsNul_fold _).mpr h))
        rw [if_neg h0', if_neg h0, next_snd h0, next_snd h2']
        exact ih (tail_text h1 h0).1 (tail_text h2 h2').1
    · rw [if_pos hc, if_pos hc]

/-- `_Strnicmp` returns the difference of the cut and folded texts. -/
theorem strnicmp_eq (h1 : b1.Text s1 l) (h2 : b2.Text s2 l') (n : ℕ) :
    strnicmp b1 b2 s1 s2 n = order ((l.take n).map fold) ((l'.take n).map fold) := by
  rw [strnicmp]
  split
  · rename_i h
    obtain rfl : n = 0 := by omega
    rfl
  · exact strnicmpLoop_eq h1 h2

end Text
