import Mathlib.Data.BitVec
import Mathlib.Data.Set.Basic
import Mathlib.Order.Interval.Set.Basic
import Mathlib.Tactic

/-!
# Machinery/Memory — a flat big-endian byte memory

A memory is a total map from `w`-bit addresses to bytes, and addresses wrap.  Every store, whatever
its width, is one `store` of a run of bytes; a long is four bytes, most significant first.  Two
facts carry the developments above:

* `writeLongs_readLongs` — loading a run of longs and storing them elsewhere stores exactly the
  bytes that were read, so registers disappear from the account of a block move;
* `store_of_not_inRun` — a store leaves everything off its own run alone.
-/

namespace Machinery

/-- A byte memory over `w`-bit addresses. -/
abbrev Mem (w : ℕ) : Type := BitVec w → BitVec 8

namespace Mem

variable {w : ℕ}

/-! ## Runs of addresses -/

/-- `x` is one of the `k` addresses from `a` on, counted around the top of the address space. -/
def InRun (a : BitVec w) (k : ℕ) (x : BitVec w) : Prop := (x - a).toNat < k

instance (a : BitVec w) (k : ℕ) (x : BitVec w) : Decidable (InRun a k x) :=
  inferInstanceAs (Decidable (_ < _))

/-- **Two runs share no address.** -/
def Apart (a : BitVec w) (k : ℕ) (b : BitVec w) (l : ℕ) : Prop :=
  ∀ x, InRun a k x → ¬ InRun b l x

theorem Apart.symm {a b : BitVec w} {k l : ℕ} (h : Apart a k b l) : Apart b l a k :=
  fun x hb ha => h x ha hb

/-- The offset of an address `i` above `a` is `i`. -/
theorem add_ofNat_sub (a : BitVec w) (i : ℕ) : a + BitVec.ofNat w i - a = BitVec.ofNat w i := by
  rw [BitVec.add_comm, BitVec.add_sub_cancel]

theorem toNat_add_ofNat_sub {i : ℕ} (a : BitVec w) (h : i < 2 ^ w) :
    (a + BitVec.ofNat w i - a).toNat = i := by
  rw [add_ofNat_sub, BitVec.toNat_ofNat, Nat.mod_eq_of_lt h]

theorem inRun_add {a : BitVec w} {k i : ℕ} (hi : i < k) (hw : i < 2 ^ w) :
    InRun a k (a + BitVec.ofNat w i) := by
  rw [InRun, toNat_add_ofNat_sub a hw]
  exact hi

/-- An address is its offset above any base. -/
theorem add_offset (a x : BitVec w) : a + BitVec.ofNat w (x - a).toNat = x := by
  rw [BitVec.ofNat_toNat, BitVec.setWidth_eq, BitVec.add_comm, BitVec.sub_add_cancel]

theorem InRun.exists_offset {a x : BitVec w} {k : ℕ} (h : InRun a k x) :
    ∃ i, i < k ∧ x = a + BitVec.ofNat w i :=
  ⟨(x - a).toNat, h, (add_offset a x).symm⟩

/-! ## Stores -/

/-- **The one store**: `k` bytes from `a` on become `f 0, f 1, …`. -/
def store (m : Mem w) (a : BitVec w) (k : ℕ) (f : ℕ → BitVec 8) : Mem w :=
  fun x => if InRun a k x then f (x - a).toNat else m x

theorem store_of_inRun {m : Mem w} {a x : BitVec w} {k : ℕ} {f : ℕ → BitVec 8}
    (h : InRun a k x) : m.store a k f x = f (x - a).toNat := if_pos h

theorem store_of_not_inRun {m : Mem w} {a x : BitVec w} {k : ℕ} {f : ℕ → BitVec 8}
    (h : ¬ InRun a k x) : m.store a k f x = m x := if_neg h

@[simp] theorem store_zero (m : Mem w) (a : BitVec w) (f : ℕ → BitVec 8) : m.store a 0 f = m :=
  funext fun _ => if_neg (Nat.not_lt_zero _)

theorem store_congr {m : Mem w} {a : BitVec w} {k : ℕ} {f g : ℕ → BitVec 8}
    (h : ∀ i < k, f i = g i) : m.store a k f = m.store a k g := by
  funext x
  by_cases hx : InRun a k x
  · rw [store_of_inRun hx, store_of_inRun hx, h _ hx]
  · rw [store_of_not_inRun hx, store_of_not_inRun hx]

/-- **Two adjacent stores are one**, as long as the run does not lap the address space. -/
theorem store_store_adjacent (m : Mem w) (a : BitVec w) {k l : ℕ} (f g : ℕ → BitVec 8)
    (h : k + l ≤ 2 ^ w) :
    (m.store a k f).store (a + BitVec.ofNat w k) l g
      = m.store a (k + l) (fun i => if i < k then f i else g (i - k)) := by
  rcases Nat.eq_zero_or_pos l with rfl | hl
  · rw [store_zero]
    exact store_congr fun i hi => (if_pos hi).symm
  have hk : k < 2 ^ w := by omega
  funext x
  obtain ⟨i, hi, rfl⟩ : ∃ i, i < 2 ^ w ∧ x = a + BitVec.ofNat w i :=
    ⟨(x - a).toNat, (x - a).isLt, (add_offset a x).symm⟩
  -- the offset above the second base is `i - k`, counted around the top
  have hsub : (a + BitVec.ofNat w i - (a + BitVec.ofNat w k)).toNat = (2 ^ w - k + i) % 2 ^ w := by
    have : a + BitVec.ofNat w i - (a + BitVec.ofNat w k) = BitVec.ofNat w i - BitVec.ofNat w k := by
      ring
    rw [this, BitVec.toNat_sub, BitVec.toNat_ofNat, BitVec.toNat_ofNat, Nat.mod_eq_of_lt hk,
      Nat.mod_eq_of_lt hi]
  simp only [store, InRun, hsub, toNat_add_ofNat_sub a hi]
  by_cases hik : i < k
  · have hlap : (2 ^ w - k + i) % 2 ^ w = 2 ^ w - k + i := Nat.mod_eq_of_lt (by omega)
    rw [if_neg (by omega), if_pos hik, if_pos (by omega), if_pos hik]
  · have hoff : (2 ^ w - k + i) % 2 ^ w = i - k := by
      rw [show 2 ^ w - k + i = (i - k) + 2 ^ w by omega, Nat.add_mod_right,
        Nat.mod_eq_of_lt (by omega)]
    rw [hoff, if_neg hik, if_neg hik]
    by_cases hil : i - k < l
    · rw [if_pos hil, if_pos (by omega)]
    · rw [if_neg hil, if_neg (by omega)]

/-! ## Longs -/

/-- The `i`-th byte of a long in memory order, most significant first. -/
def longByte (v : BitVec 32) (i : ℕ) : BitVec 8 := v.extractLsb' (24 - 8 * i) 8

/-- The long at `a`: four bytes, most significant first. -/
def readLong (m : Mem w) (a : BitVec w) : BitVec 32 :=
  m a ++ m (a + 1) ++ m (a + 2) ++ m (a + 3)

/-- A long stored at `a`. -/
def writeLong (m : Mem w) (a : BitVec w) (v : BitVec 32) : Mem w := m.store a 4 (longByte v)

/-- A byte stored at `a`. -/
def writeByte (m : Mem w) (a : BitVec w) (b : BitVec 8) : Mem w := m.store a 1 fun _ => b

/-- The bytes of a long read from memory are the bytes it was read from. -/
theorem longByte_readLong (m : Mem w) (a : BitVec w) :
    ∀ i < 4, longByte (m.readLong a) i = m (a + BitVec.ofNat w i) := by
  intro i hi
  obtain rfl | rfl | rfl | rfl : i = 0 ∨ i = 1 ∨ i = 2 ∨ i = 3 := by omega
  all_goals
    refine BitVec.eq_of_getLsbD_eq fun j hj => ?_
    rw [longByte, BitVec.getLsbD_extractLsb', readLong]
    simp only [BitVec.getLsbD_append, hj, decide_true, Bool.true_and]
  · rw [if_neg (by omega), if_neg (by omega), if_neg (by omega)]
    congr 2
    · simp
    · omega
  · rw [if_neg (by omega), if_neg (by omega), if_pos (by omega)]
    congr 2
    omega
  · rw [if_neg (by omega), if_pos (by omega)]
    congr 2
    omega
  · rw [if_pos (by omega)]
    congr 2
    omega

theorem eq_of_longByte {u v : BitVec 32} (h : ∀ i < 4, longByte u i = longByte v i) : u = v := by
  refine BitVec.eq_of_getLsbD_eq fun j hj => ?_
  have hb := h (3 - j / 8) (by omega)
  have hj8 : 24 - 8 * (3 - j / 8) + j % 8 = j := by omega
  have hbit := congrArg (fun b : BitVec 8 => b.getLsbD (j % 8)) hb
  simpa [longByte, BitVec.getLsbD_extractLsb', Nat.mod_lt, hj8] using hbit

/-- **A long is determined by its four bytes in memory.** -/
theorem readLong_eq_iff {m : Mem w} {a : BitVec w} {v : BitVec 32} :
    m.readLong a = v ↔ ∀ i < 4, m (a + BitVec.ofNat w i) = longByte v i := by
  constructor
  · rintro rfl i hi
    exact (longByte_readLong m a i hi).symm
  · exact fun h => eq_of_longByte fun i hi => (longByte_readLong m a i hi).trans (h i hi)

/-- Two memories that agree on the four bytes at `a` hold the same long there. -/
theorem readLong_congr {m m' : Mem w} {a : BitVec w}
    (h : ∀ i < 4, m (a + BitVec.ofNat w i) = m' (a + BitVec.ofNat w i)) :
    m.readLong a = m'.readLong a :=
  readLong_eq_iff.mpr fun i hi => (h i hi).trans (longByte_readLong m' a i hi).symm

/-- Storing a long that was read stores the bytes it was read from. -/
theorem writeLong_readLong (m m' : Mem w) (a b : BitVec w) :
    m'.writeLong a (m.readLong b) = m'.store a 4 fun i => m (b + BitVec.ofNat w i) :=
  store_congr fun i hi => longByte_readLong m b i hi

/-! ## Runs of longs -/

/-- `k` consecutive longs from `a` up. -/
def readLongs (m : Mem w) (a : BitVec w) : ℕ → List (BitVec 32)
  | 0 => []
  | k + 1 => m.readLong a :: readLongs m (a + 4) k

/-- Consecutive longs stored from `a` up. -/
def writeLongs (m : Mem w) (a : BitVec w) : List (BitVec 32) → Mem w
  | [] => m
  | v :: vs => writeLongs (m.writeLong a v) (a + 4) vs

/-- Longs stored below `a`, the last of the list first and highest. -/
def pushLongs (m : Mem w) (a : BitVec w) : List (BitVec 32) → Mem w
  | [] => m
  | v :: vs => (pushLongs m a vs).writeLong (a - BitVec.ofNat w (4 * (vs.length + 1))) v

@[simp] theorem length_readLongs (m : Mem w) (a : BitVec w) (k : ℕ) :
    (m.readLongs a k).length = k := by
  induction k generalizing a with
  | zero => rfl
  | succ k ih => rw [readLongs, List.length_cons, ih]

/-- **Longs carried through registers are bytes copied.** -/
theorem writeLongs_readLongs (m m' : Mem w) (a b : BitVec w) {k : ℕ} (h : 4 * k ≤ 2 ^ w) :
    m'.writeLongs a (m.readLongs b k) = m'.store a (4 * k) fun i => m (b + BitVec.ofNat w i) := by
  induction k generalizing a b m' with
  | zero => rw [readLongs, writeLongs, Nat.mul_zero, store_zero]
  | succ k ih =>
    have h4 : (4 : BitVec w) = BitVec.ofNat w 4 := rfl
    rw [readLongs, writeLongs, ih _ _ _ (by omega), writeLong_readLong, h4,
      store_store_adjacent _ _ _ _ (by omega), show 4 + 4 * k = 4 * (k + 1) by omega]
    refine store_congr fun i hi => ?_
    by_cases hi4 : i < 4
    · rw [if_pos hi4]
    · rw [if_neg hi4, BitVec.add_assoc, ← BitVec.ofNat_add, show 4 + (i - 4) = i by omega]

/-- The bytes a run of longs stands for in memory. -/
def longBytes (vs : List (BitVec 32)) (i : ℕ) : BitVec 8 := longByte (vs.getD (i / 4) 0) (i % 4)

/-- **Storing longs upwards is one store of their bytes.** -/
theorem writeLongs_eq_store (m : Mem w) (a : BitVec w) (vs : List (BitVec 32))
    (h : 4 * vs.length ≤ 2 ^ w) :
    m.writeLongs a vs = m.store a (4 * vs.length) (longBytes vs) := by
  induction vs generalizing a m with
  | nil => rw [writeLongs, List.length_nil, Nat.mul_zero, store_zero]
  | cons v vs ih =>
    have h4 : (4 : BitVec w) = BitVec.ofNat w 4 := rfl
    rw [List.length_cons] at h ⊢
    rw [writeLongs, ih _ _ (by omega), writeLong, h4, store_store_adjacent _ _ _ _ (by omega),
      show 4 + 4 * vs.length = 4 * (vs.length + 1) by omega]
    refine store_congr fun i hi => ?_
    by_cases hi4 : i < 4
    · rw [if_pos hi4, longBytes, Nat.div_eq_of_lt hi4, Nat.mod_eq_of_lt hi4]
      rfl
    · rw [if_neg hi4, longBytes, longBytes, show i / 4 = (i - 4) / 4 + 1 by omega,
        show i % 4 = (i - 4) % 4 by omega]
      rfl

/-- **…and so is storing them downwards**: the order of the stores does not show. -/
theorem pushLongs_eq_writeLongs (m : Mem w) (a : BitVec w) (vs : List (BitVec 32))
    (h : 4 * vs.length ≤ 2 ^ w) :
    m.pushLongs a vs = m.writeLongs (a - BitVec.ofNat w (4 * vs.length)) vs := by
  induction vs with
  | nil => rfl
  | cons v vs ih =>
    rw [List.length_cons] at h ⊢
    have hbase : a - BitVec.ofNat w (4 * (vs.length + 1)) + BitVec.ofNat w 4
        = a - BitVec.ofNat w (4 * vs.length) := by
      rw [show 4 * (vs.length + 1) = 4 * vs.length + 4 by omega, BitVec.ofNat_add]
      ring
    have h4 : (4 : BitVec w) = BitVec.ofNat w 4 := rfl
    rw [pushLongs, ih (by omega), writeLongs, h4, hbase]
    generalize hb : a - BitVec.ofNat w (4 * (vs.length + 1)) = b at hbase ⊢
    rw [← hbase, writeLongs_eq_store _ _ _ (by omega), writeLongs_eq_store _ _ _ (by omega)]
    -- the two stores are adjacent, so they commute
    rcases Nat.eq_zero_or_pos vs.length with h0 | hpos
    · rw [h0, Nat.mul_zero, store_zero, store_zero]
    funext x
    by_cases hx : InRun b 4 x
    · have hoff : ¬ InRun (b + BitVec.ofNat w 4) (4 * vs.length) x := by
        obtain ⟨i, hi, rfl⟩ := hx.exists_offset
        have hd : b + BitVec.ofNat w i - (b + BitVec.ofNat w 4)
            = BitVec.ofNat w i - BitVec.ofNat w 4 := by ring
        rw [InRun, hd, BitVec.toNat_sub, BitVec.toNat_ofNat, BitVec.toNat_ofNat,
          Nat.mod_eq_of_lt (show 4 < 2 ^ w by omega), Nat.mod_eq_of_lt (show i < 2 ^ w by omega),
          Nat.mod_eq_of_lt (by omega)]
        omega
      rw [store_of_not_inRun hoff, writeLong, writeLong, store_of_inRun hx, store_of_inRun hx]
    · by_cases hx' : InRun (b + BitVec.ofNat w 4) (4 * vs.length) x
      · rw [writeLong, store_of_not_inRun hx, store_of_inRun hx', store_of_inRun hx']
      · rw [writeLong, store_of_not_inRun hx, store_of_not_inRun hx', store_of_not_inRun hx',
          writeLong, store_of_not_inRun hx]

/-- **Longs read back where longs were stored.** -/
theorem readLongs_eq_of_bytes {m : Mem w} {a : BitVec w} {vs : List (BitVec 32)}
    (h : ∀ i < 4 * vs.length, m (a + BitVec.ofNat w i) = longBytes vs i) :
    m.readLongs a vs.length = vs := by
  induction vs generalizing a with
  | nil => rfl
  | cons v vs ih =>
    rw [List.length_cons] at h
    have hv : m.readLong a = v := readLong_eq_iff.mpr fun i hi => by
      rw [h i (by omega), longBytes, Nat.div_eq_of_lt hi, Nat.mod_eq_of_lt hi]
      rfl
    have hvs : m.readLongs (a + 4) vs.length = vs := ih fun i hi => by
      have := h (4 + i) (by omega)
      rw [longBytes, show (4 + i) / 4 = i / 4 + 1 by omega, show (4 + i) % 4 = i % 4 by omega,
        BitVec.ofNat_add, ← BitVec.add_assoc] at this
      exact this
    rw [List.length_cons, readLongs, hv, hvs]

end Mem

end Machinery
