import Mathlib.Data.List.Basic
import Mathlib.Data.List.GetD
import Mathlib.Data.UInt
import Mathlib.Logic.Function.Basic

/-!
# Machinery/Text — NUL-terminated text in a block of bytes

A string is a list of bytes without a NUL (`CString`).  A block holds it at a place when the bytes
stand there with a NUL after them (`Block.Text`); it can then be read back, and a loop that walks
the block until a byte of some kind stops where the list says.

    Text b p l        the block holds `l` at `p`
    read b n p        the text at `p`, if it is no longer than `n`
    scan stop b n p   where a walk from `p` stops, within `n` bytes
    put b p l         the block with these bytes stored at `p`
    bytes b p n       the `n` bytes at `p`
-/

namespace Machinery

/-- **A NUL-terminated string**: its bytes, none of them NUL. -/
structure CString where
  bytes : List UInt8
  nul_free : (0 : UInt8) ∉ bytes
  deriving DecidableEq, Repr

/-- The bytes from some address on. -/
abbrev Block : Type := ℕ → UInt8

namespace Block

variable {b b' : Block} {p q n : ℕ} {l l' u v : List UInt8} {c : UInt8} {stop : UInt8 → Bool}

/-! ## Text in a block -/

/-- **The block holds this text here**, NUL and all. -/
def Text (b : Block) : ℕ → List UInt8 → Prop
  | p, [] => b p = 0
  | p, c :: l => b p = c ∧ c ≠ 0 ∧ Text b (p + 1) l

/-- The text from here on, if it is no longer than this. -/
def read (b : Block) : ℕ → ℕ → List UInt8
  | 0, _ => []
  | n + 1, p => if b p = 0 then [] else b p :: read b n (p + 1)

/-- `while (!stop(*p)) p++`, over so many bytes at most. -/
def scan (stop : UInt8 → Bool) (b : Block) : ℕ → ℕ → Option ℕ
  | 0, _ => none
  | n + 1, p => if stop (b p) then some p else scan stop b n (p + 1)

theorem Text.nul_free (h : Text b p l) : (0 : UInt8) ∉ l := by
  induction l generalizing p with
  | nil => exact List.not_mem_nil
  | cons c l ih =>
    obtain ⟨-, hc, hl⟩ := h
    exact List.not_mem_cons_of_ne_of_not_mem hc.symm (ih hl)

theorem Text.end_eq (h : Text b p l) : b (p + l.length) = 0 := by
  induction l generalizing p with
  | nil => exact h
  | cons c l ih =>
    have := ih h.2.2
    rwa [Nat.add_right_comm] at this

/-- There is no NUL before its end. -/
theorem Text.ne_zero {k : ℕ} (h : Text b p l) (hk : k < l.length) : b (p + k) ≠ 0 := by
  induction l generalizing p k with
  | nil => exact absurd hk (Nat.not_lt_zero k)
  | cons c l ih =>
    cases k with
    | zero => exact h.1.trans_ne h.2.1
    | succ k =>
      rw [← Nat.add_assoc, Nat.add_right_comm]
      exact ih h.2.2 (Nat.lt_of_succ_lt_succ hk)

/-- Only the bytes it stands on matter. -/
theorem Text.congr (h : Text b p l) (hb : ∀ i, p ≤ i → i ≤ p + l.length → b' i = b i) :
    Text b' p l := by
  induction l generalizing p with
  | nil => exact (hb p le_rfl (Nat.le_add_right p _)).trans h
  | cons c l ih =>
    obtain ⟨hp, hc, hl⟩ := h
    refine ⟨(hb p le_rfl (Nat.le_add_right p _)).trans hp, hc, ih hl fun i hi hi' => ?_⟩
    refine hb i (Nat.le_of_succ_le hi) (hi'.trans_eq ?_)
    rw [List.length_cons, Nat.add_right_comm, Nat.add_assoc]

/-- **Text is read back.** -/
theorem Text.read_eq (h : Text b p l) (hn : l.length ≤ n) : read b n p = l := by
  induction l generalizing p n with
  | nil =>
    cases n with
    | zero => rfl
    | succ n => exact if_pos h
  | cons c l ih =>
    obtain ⟨hp, hc, hl⟩ := h
    cases n with
    | zero => exact absurd hn (Nat.not_succ_le_zero _)
    | succ n =>
      rw [read, if_neg (by rw [hp]; exact hc), hp, ih hl (Nat.le_of_succ_le_succ hn)]

/-- The text behind a stretch of itself. -/
theorem Text.drop (h : Text b p (u ++ v)) : Text b (p + u.length) v := by
  induction u generalizing p with
  | nil => exact h
  | cons c u ih =>
    have := ih h.2.2
    rwa [Nat.add_right_comm] at this

/-- A text is its characters, wherever they stand. -/
theorem Text.get (h : Text b p (u ++ c :: v)) : b (p + u.length) = c := h.drop.1

/-- Text stands wherever its characters do. -/
theorem Text.intro (hl : (0 : UInt8) ∉ l) (hb : ∀ i (hi : i < l.length), b (p + i) = l[i])
    (hend : b (p + l.length) = 0) : Text b p l := by
  induction l generalizing p with
  | nil => exact hend
  | cons c l ih =>
    obtain ⟨hc, hl⟩ := not_or.mp (mt List.mem_cons.mpr hl)
    refine ⟨hb 0 (Nat.succ_pos _), fun h => hc h.symm, ih hl (fun i hi => ?_) ?_⟩
    · have := hb (i + 1) (Nat.succ_lt_succ hi)
      rwa [List.getElem_cons_succ, ← Nat.add_assoc, Nat.add_right_comm] at this
    · rwa [List.length_cons, ← Nat.add_assoc, Nat.add_right_comm] at hend

/-- **A NUL cuts a text short.** -/
theorem Text.cut (h : Text b p (u ++ v)) : Text (Function.update b (p + u.length) 0) p u := by
  induction u generalizing p with
  | nil => exact Function.update_self p 0 b
  | cons c u ih =>
    obtain ⟨hp, hc, hl⟩ := h
    refine ⟨?_, hc, ?_⟩
    · rw [Function.update_of_ne (by rw [List.length_cons]; omega), hp]
    · have := ih hl
      rwa [Nat.add_right_comm] at this

/-- What stands elsewhere is not touched by a byte written here. -/
theorem Text.update (h : Text b p l) (hq : q < p ∨ p + l.length < q) :
    Text (Function.update b q c) p l :=
  h.congr fun i hi hi' => Function.update_of_ne (by omega) _ _

/-! ## Bytes in a block -/

/-- **These bytes stand here**, whatever comes after them. -/
def Spans (b : Block) : ℕ → List UInt8 → Prop
  | _, [] => True
  | p, c :: l => b p = c ∧ Spans b (p + 1) l

theorem Spans.congr (h : Spans b p l) (hb : ∀ i, p ≤ i → i < p + l.length → b' i = b i) :
    Spans b' p l := by
  induction l generalizing p with
  | nil => trivial
  | cons c l ih =>
    obtain ⟨hp, hl⟩ := h
    refine ⟨(hb p le_rfl (Nat.lt_add_of_pos_right (Nat.succ_pos _))).trans hp,
      ih hl fun i hi hi' => ?_⟩
    refine hb i (Nat.le_of_succ_le hi) (hi'.trans_eq ?_)
    rw [List.length_cons, Nat.add_right_comm, Nat.add_assoc]

/-- One more byte behind them. -/
theorem Spans.concat (h : Spans b p l) (hc : b (p + l.length) = c) : Spans b p (l ++ [c]) := by
  induction l generalizing p with
  | nil => exact ⟨hc, trivial⟩
  | cons d l ih =>
    refine ⟨h.1, ih h.2 ?_⟩
    rwa [List.length_cons, ← Nat.add_assoc, Nat.add_right_comm] at hc

/-- Fewer of them. -/
theorem Spans.take (h : Spans b p l) (n : ℕ) : Spans b p (l.take n) := by
  induction l generalizing p n with
  | nil =>
    rw [List.take_nil]
    trivial
  | cons c l ih =>
    cases n with
    | zero => trivial
    | succ n => exact ⟨h.1, ih h.2 n⟩

/-- A text is its bytes. -/
theorem Text.spans (h : Text b p l) : Spans b p l := by
  induction l generalizing p with
  | nil => trivial
  | cons c l ih => exact ⟨h.1, ih h.2.2⟩

/-! ## Bytes stored -/

/-- **The block with these bytes at this place.** -/
def put (b : Block) (p : ℕ) (l : List UInt8) : Block := fun i =>
  if i < p then b i else l.getD (i - p) (b i)

/-- So many bytes from here on. -/
def bytes (b : Block) (p n : ℕ) : List UInt8 := (List.range n).map fun i => b (p + i)

@[simp] theorem length_bytes (b : Block) (p n : ℕ) : (b.bytes p n).length = n := by
  rw [bytes, List.length_map, List.length_range]

/-- Some bytes, and the ones behind them. -/
theorem bytes_add (b : Block) (p k n : ℕ) :
    b.bytes p (k + n) = b.bytes p k ++ b.bytes (p + k) n := by
  rw [bytes, List.range_add, List.map_append, List.map_map]
  refine congrArg (b.bytes p k ++ ·) (List.map_congr_left fun i _ => ?_)
  rw [Function.comp_apply, Nat.add_assoc]

theorem bytes_succ (b : Block) (p n : ℕ) : b.bytes p (n + 1) = b p :: b.bytes (p + 1) n := by
  rw [Nat.add_comm, bytes_add]
  rfl

theorem spans_bytes (b : Block) (p n : ℕ) : b.Spans p (b.bytes p n) := by
  induction n generalizing p with
  | zero => trivial
  | succ n ih =>
    rw [bytes_succ]
    exact ⟨rfl, ih (p + 1)⟩

@[simp] theorem put_nil : b.put p [] = b := by
  ext i
  rw [put, List.getD_nil, ite_self]

theorem put_of_off {i : ℕ} (h : i < p ∨ p + l.length ≤ i) : b.put p l i = b i := by
  rw [put]
  rcases h with hlt | hge
  · rw [if_pos hlt]
  · rw [if_neg (by omega), List.getD_eq_default _ _ (by omega)]

theorem put_add {i : ℕ} : b.put p l (p + i) = l.getD i (b (p + i)) := by
  rw [put, if_neg (Nat.not_lt.mpr (Nat.le_add_right p i)), Nat.add_sub_cancel_left]

/-- **One more byte behind those that were stored.** -/
theorem update_put : Function.update (b.put p l) (p + l.length) c = b.put p (l ++ [c]) := by
  ext i
  by_cases hi : i = p + l.length
  · rw [hi, Function.update_self, put_add, List.getD_append_right _ _ _ _ le_rfl, Nat.sub_self]
    rfl
  · rw [Function.update_of_ne hi, put, put]
    by_cases hp : i < p
    · rw [if_pos hp, if_pos hp]
    · rw [if_neg hp, if_neg hp]
      rcases Nat.lt_or_ge (i - p) l.length with hlt | hge
      · rw [List.getD_append _ _ _ _ hlt]
      · rw [List.getD_eq_default _ _ hge, List.getD_eq_default]
        rw [List.length_append, List.length_singleton]
        omega

/-- What was stored is there. -/
theorem bytes_put {k : ℕ} (hk : k ≤ l.length) : (b.put p l).bytes p k = l.take k := by
  refine List.ext_getElem ?_ fun i hi hi' => ?_
  · rw [bytes, List.length_map, List.length_range, List.length_take, Nat.min_eq_left hk]
  · rw [List.length_take] at hi'
    simp only [bytes, List.getElem_map, List.getElem_range, put_add]
    rw [List.getD_eq_getElem _ _ (by omega), List.getElem_take]

/-! ## Walks -/

/-- **A walk stops where the list says.** -/
theorem scan_eq (hu : ∀ i < u.length, stop (b (p + i)) = false)
    (hq : stop (b (p + u.length)) = true)
    (hn : u.length < n) : scan stop b n p = some (p + u.length) := by
  induction u generalizing p n with
  | nil =>
    obtain ⟨n, rfl⟩ := Nat.exists_eq_succ_of_ne_zero (Nat.ne_of_gt hn)
    exact if_pos hq
  | cons c u ih =>
    obtain ⟨n, rfl⟩ := Nat.exists_eq_succ_of_ne_zero (Nat.ne_of_gt (Nat.zero_lt_of_lt hn))
    have h0 : stop (b p) = false := hu 0 (Nat.succ_pos _)
    have hu' : ∀ i < u.length, stop (b (p + 1 + i)) = false := fun i hi => by
      have := hu (i + 1) (Nat.succ_lt_succ hi)
      rwa [Nat.add_comm i, ← Nat.add_assoc] at this
    have hq' : stop (b (p + 1 + u.length)) = true := by
      rwa [List.length_cons, Nat.add_comm u.length, ← Nat.add_assoc] at hq
    rw [scan, if_neg (by rw [h0]; exact Bool.false_ne_true), ih hu' hq' (Nat.lt_of_succ_lt_succ hn),
      List.length_cons, Nat.add_assoc, Nat.add_comm 1]

/-- **A walk over a text** stops at the first byte of its kind, or at the NUL. -/
theorem Text.scan_eq (h : Text b p (u ++ v)) (hu : ∀ c ∈ u, stop c = false)
    (hv : ∀ c w, v = c :: w → stop c = true) (h0 : v = [] → stop 0 = true) (hn : u.length < n) :
    scan stop b n p = some (p + u.length) := by
  refine Block.scan_eq (fun i hi => ?_) ?_ hn
  · have hsplit : u ++ v = u.take i ++ u[i] :: (u.drop (i + 1) ++ v) := by
      rw [← List.cons_append, List.getElem_cons_drop, ← List.append_assoc, List.take_append_drop]
    rw [hsplit] at h
    have hget := h.get
    rw [List.length_take_of_le hi.le] at hget
    rw [hget]
    exact hu _ (List.getElem_mem hi)
  · have hv' := h.drop
    cases v with
    | nil =>
      rw [show b (p + u.length) = 0 from hv']
      exact h0 rfl
    | cons c w =>
      rw [hv'.1]
      exact hv c w rfl

/-- A walk over a text for as long as its bytes are of one kind. -/
theorem Text.scan_while (h : Text b p l) (stop keep : UInt8 → Bool) (hs : ∀ c ∈ l, stop c = !keep c)
    (h0 : stop 0 = true) (hn : l.length < n) :
    scan stop b n p = some (p + (l.takeWhile keep).length) := by
  have hsub : l.takeWhile keep ⊆ l := (List.takeWhile_prefix keep).subset
  rw [← List.takeWhile_append_dropWhile (p := keep) (l := l)] at h
  refine h.scan_eq (fun c hc => ?_) (fun c w hw => ?_) (fun _ => h0) ?_
  · rw [hs c (hsub hc), List.all_eq_true.mp List.all_takeWhile c hc, Bool.not_true]
  · have hc : c ∈ l := (List.dropWhile_suffix keep).subset (hw ▸ List.mem_cons_self)
    have := List.head_dropWhile_not keep (l := l) (hw ▸ List.cons_ne_nil c w)
    simp only [hw, List.head_cons] at this
    rw [hs c hc, this, Bool.not_false]
  · exact (List.takeWhile_prefix keep).length_le.trans_lt hn

/-- What is left of a text behind such a walk. -/
theorem Text.dropWhile (h : Text b p l) (keep : UInt8 → Bool) :
    Text b (p + (l.takeWhile keep).length) (l.dropWhile keep) := by
  rw [← List.takeWhile_append_dropWhile (p := keep) (l := l)] at h
  exact h.drop

end Block

end Machinery
