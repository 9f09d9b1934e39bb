import Emu68Common.Machinery.Text
import Emu68Common.Machinery.Path

/-!
# Machinery/Words — longs kept in a block of bytes

An allocator keeps its books in the very memory it hands out: a size before a block, a link in a
free one.  A **book** is a list of longs with the places they stand at, and a block keeps it when
they all stand there (`Kept`); what survives a write is then a matter of places alone (`Off`).

    long m a          the long at `a`, its high byte first
    setLong m a v     a long written
    links l z         the book of a chain through the nodes of `l` that ends in `z`
-/

namespace Machinery

/-- Two stretches of memory, each a start and a length, that do not meet. -/
def Apart (a n b k : ℕ) : Prop := a + n ≤ b ∨ b + k ≤ a

theorem Apart.symm {a n b k : ℕ} (h : Apart a n b k) : Apart b k a n := Or.symm h

/-- Parts of stretches that do not meet do not meet. -/
theorem Apart.mono {a n b k a' n' b' k' : ℕ} (h : Apart a n b k) (ha : a ≤ a')
    (ha' : a' + n' ≤ a + n) (hb : b ≤ b') (hb' : b' + k' ≤ b + k) : Apart a' n' b' k' :=
  h.imp (fun h => ha'.trans (h.trans hb)) fun h => hb'.trans (h.trans ha)

namespace Block

variable {m m' : Block} {a b v i n : ℕ}

/-! ## Longs -/

/-- The long at an address. -/
def long (m : Block) (a : ℕ) : ℕ :=
  (((m a).toNat * 256 + (m (a + 1)).toNat) * 256 + (m (a + 2)).toNat) * 256 + (m (a + 3)).toNat

/-- A long written. -/
def setLong (m : Block) (a v : ℕ) : Block := fun i =>
  if i = a then UInt8.ofNat (v / 2 ^ 24)
  else if i = a + 1 then UInt8.ofNat (v / 2 ^ 16)
  else if i = a + 2 then UInt8.ofNat (v / 2 ^ 8)
  else if i = a + 3 then UInt8.ofNat v
  else m i

theorem long_setLong (m : Block) (a : ℕ) (hv : v < 2 ^ 32) : (m.setLong a v).long a = v := by
  have h₁ : a + 1 ≠ a := Nat.succ_ne_self a
  have h₂ : a + 2 ≠ a ∧ a + 2 ≠ a + 1 := ⟨by omega, by omega⟩
  have h₃ : a + 3 ≠ a ∧ a + 3 ≠ a + 1 ∧ a + 3 ≠ a + 2 := ⟨by omega, by omega, by omega⟩
  simp only [long, setLong, if_pos, if_neg h₁, if_neg h₂.1, if_neg h₂.2, if_neg h₃.1, if_neg h₃.2.1,
    if_neg h₃.2.2, UInt8.toNat_ofNat']
  omega

/-- Only its own bytes are written. -/
theorem setLong_of_off (h : i < a ∨ a + 4 ≤ i) : m.setLong a v i = m i := by
  have h₀ : i ≠ a ∧ i ≠ a + 1 ∧ i ≠ a + 2 ∧ i ≠ a + 3 := by omega
  rw [setLong, if_neg h₀.1, if_neg h₀.2.1, if_neg h₀.2.2.1, if_neg h₀.2.2.2]

/-- A long is its four bytes. -/
theorem long_congr (h : ∀ i, a ≤ i → i < a + 4 → m' i = m i) : m'.long a = m.long a := by
  rw [long, long, h a (by omega) (by omega), h (a + 1) (by omega) (by omega),
    h (a + 2) (by omega) (by omega), h (a + 3) (by omega) (by omega)]

end Block

/-! ## Books -/

/-- **A book**: places and the longs that stand there. -/
abbrev Book : Type := List (ℕ × ℕ)

/-- No long of a book touches this stretch. -/
def Book.Off (book : Book) (a n : ℕ) : Prop := ∀ e ∈ book, Apart e.1 4 a n

namespace Block

variable {m m' : Block} {a b v i n : ℕ} {book book' : Book}

/-- **The block keeps the book.** -/
def Kept (m : Block) (book : Book) : Prop := ∀ e ∈ book, m.long e.1 = e.2

theorem kept_append : Kept m (book ++ book') ↔ Kept m book ∧ Kept m book' := List.forall_mem_append

theorem kept_cons {e : ℕ × ℕ} : Kept m (e :: book) ↔ m.long e.1 = e.2 ∧ Kept m book :=
  List.forall_mem_cons

theorem Kept.of_subset (h : Kept m book) (hs : book' ⊆ book) : Kept m book' :=
  fun e he => h e (hs he)

/-- Only the bytes of its longs matter. -/
theorem Kept.congr (h : Kept m book) (hm : ∀ e ∈ book, ∀ i, e.1 ≤ i → i < e.1 + 4 → m' i = m i) :
    Kept m' book :=
  fun e he => (long_congr (hm e he)).trans (h e he)

/-- **What is written elsewhere** leaves a book as it is. -/
theorem Kept.of_off (h : Kept m book) (hoff : book.Off a n)
    (hm : ∀ i, i < a ∨ a + n ≤ i → m' i = m i) : Kept m' book :=
  h.congr fun e he i hi hi' => hm i (by rcases hoff e he with h | h <;> omega)

/-- **A long entered** into the book. -/
theorem Kept.enter (h : Kept m book) (hoff : book.Off a 4) (hv : v < 2 ^ 32) :
    Kept (m.setLong a v) ((a, v) :: book) :=
  kept_cons.mpr ⟨long_setLong m a hv, h.of_off hoff fun _ hi => setLong_of_off hi⟩

end Block

namespace Book

variable {book book' : Book} {a n a' n' : ℕ}

theorem off_cons {e : ℕ × ℕ} : Off (e :: book) a n ↔ Apart e.1 4 a n ∧ book.Off a n :=
  List.forall_mem_cons

theorem off_append : Off (book ++ book') a n ↔ book.Off a n ∧ book'.Off a n :=
  List.forall_mem_append

theorem Off.mono (h : book.Off a n) (ha : a ≤ a') (hn : a' + n' ≤ a + n) : book.Off a' n' :=
  fun e he => (h e he).mono le_rfl le_rfl ha hn

end Book

/-! ## Chains -/

/-- The links of a chain. -/
def links : List ℕ → ℕ → Book
  | [], _ => []
  | a :: l, z => (a, l.headD z) :: links l z

theorem links_append (l l' : List ℕ) (z : ℕ) :
    links (l ++ l') z = links l (l'.headD z) ++ links l' z := by
  induction l with
  | nil => rfl
  | cons a l ih =>
    have hhead : (l ++ l').headD z = l.headD (l'.headD z) := by cases l <;> rfl
    rw [List.cons_append, links, links, ih, hhead, List.cons_append]

theorem mem_of_mem_links {l : List ℕ} {z : ℕ} {e : ℕ × ℕ} (h : e ∈ links l z) : e.1 ∈ l := by
  induction l with
  | nil => exact absurd h List.not_mem_nil
  | cons a l ih =>
    rcases List.mem_cons.mp h with rfl | h
    · exact List.mem_cons_self
    · exact List.mem_cons_of_mem a (ih h)

/-- Where a node's link leads; NULL leads nowhere. -/
def Block.next (m : Block) (a : ℕ) : Option ℕ := if a = 0 then none else some (m.long a)

/-- **A chain is walked** by its links. -/
theorem path_of_kept {m : Block} {l : List ℕ} (h : m.Kept (links l 0)) (h0 : ∀ a ∈ l, a ≠ 0) :
    Path m.next (l.headD 0) 0 l := by
  induction l with
  | nil => exact .nil 0
  | cons a l ih =>
    obtain ⟨ha, hl⟩ := Block.kept_cons.mp h
    have hnext : m.next a = some (l.headD 0) := by
      rw [Block.next, if_neg (h0 a List.mem_cons_self), ha]
    exact .cons hnext (ih hl fun b hb => h0 b (List.mem_cons_of_mem a hb))

/-! ## Rows -/

/-- `n` places, `step` bytes from one to the next. -/
def row (step : ℕ) : ℕ → ℕ → List ℕ
  | 0, _ => []
  | n + 1, a => a :: row step n (a + step)

theorem mem_row {step n a p : ℕ} : p ∈ row step n a ↔ ∃ i < n, p = a + i * step := by
  induction n generalizing a with
  | zero => exact ⟨fun h => absurd h List.not_mem_nil,
    fun ⟨i, hi, _⟩ => absurd hi (Nat.not_lt_zero i)⟩
  | succ n ih =>
    rw [row, List.mem_cons, ih]
    constructor
    · rintro (rfl | ⟨i, hi, rfl⟩)
      · exact ⟨0, Nat.succ_pos n, by omega⟩
      · exact ⟨i + 1, Nat.succ_lt_succ hi, by rw [Nat.succ_mul]; omega⟩
    · rintro ⟨i, hi, rfl⟩
      cases i with
      | zero => exact Or.inl (by omega)
      | succ i => exact Or.inr ⟨i, Nat.lt_of_succ_lt_succ hi, by rw [Nat.succ_mul]; omega⟩

/-- The cells of a row lie in it. -/
theorem row_within {step n a p : ℕ} (h : p ∈ row step n a) : a ≤ p ∧ p + step ≤ a + n * step := by
  obtain ⟨i, hi, rfl⟩ := mem_row.mp h
  have := Nat.mul_le_mul_right step (Nat.succ_le_of_lt hi)
  rw [Nat.succ_mul] at this
  omega

/-- The cells of a row do not meet. -/
theorem row_apart {step n a p q : ℕ} (hp : p ∈ row step n a) (hq : q ∈ row step n a) (hne : p ≠ q) :
    Apart p step q step := by
  obtain ⟨i, -, rfl⟩ := mem_row.mp hp
  obtain ⟨j, -, rfl⟩ := mem_row.mp hq
  rcases Nat.lt_trichotomy i j with h | rfl | h
  · have := Nat.mul_le_mul_right step (Nat.succ_le_of_lt h)
    rw [Nat.succ_mul] at this
    exact Or.inl (by omega)
  · exact absurd rfl hne
  · have := Nat.mul_le_mul_right step (Nat.succ_le_of_lt h)
    rw [Nat.succ_mul] at this
    exact Or.inr (by omega)

theorem row_nodup {step n a : ℕ} (h : 0 < step) : (row step n a).Nodup := by
  induction n generalizing a with
  | zero => exact List.nodup_nil
  | succ n ih =>
    refine List.nodup_cons.mpr ⟨fun hmem => ?_, ih⟩
    have := (row_within hmem).1
    omega

/-! ## Masks -/

/-- **Clearing the low bits** of a number rounds it down. -/
theorem land_mask {w k y : ℕ} (hk : k ≤ w) (hy : y < 2 ^ w) :
    y &&& (2 ^ w - 2 ^ k) = y / 2 ^ k * 2 ^ k := by
  refine Nat.eq_of_testBit_eq fun i => ?_
  have hpos : 0 < 2 ^ k := Nat.two_pow_pos k
  have hle : 2 ^ k ≤ 2 ^ w := Nat.pow_le_pow_right (by decide) hk
  have hmask : 2 ^ w - 2 ^ k = 2 ^ w - ((2 ^ k - 1) + 1) := by omega
  rw [Nat.testBit_and, hmask, Nat.testBit_two_pow_sub_succ (by omega), Nat.testBit_two_pow_sub_one,
    Nat.testBit_mul_two_pow, Nat.testBit_div_two_pow]
  by_cases hik : i < k
  · rw [decide_eq_true hik, decide_eq_false (Nat.not_le.mpr hik), Bool.not_true, Bool.and_false,
      Bool.and_false, Bool.false_and]
  · rw [decide_eq_false hik, decide_eq_true (Nat.not_lt.mp hik), Bool.not_false, Bool.and_true,
      Bool.true_and, Nat.sub_add_cancel (Nat.not_lt.mp hik)]
    by_cases hiw : i < w
    · rw [decide_eq_true hiw, Bool.and_true]
    · rw [decide_eq_false hiw, Bool.and_false, Nat.testBit_lt_two_pow
        (hy.trans_le (Nat.pow_le_pow_right (by decide) (Nat.not_lt.mp hiw)))]

end Machinery
