import Emu68Common.Machinery.Compare
import Emu68Common.Machinery.Guarded
import Emu68Common.Machinery.Memory

/-!
# Memory/Memcmp — `memcmp` compares, long-aligned or not

The compare over memory of which only some bytes may be read.  The long loop moves both pointers
past bytes that are the same on either side and nothing else (`longLoop_eq`), so the byte loop,
which takes over where it stops, comes to the difference that it would have come to from the start.

    s1  ··· same ··· a  ··· cnt bytes ···          a, b, cnt: what the long loop hands over
    s2  ··· same ··· b  ··· cnt bytes ···
-/

namespace Memcmp

open Machinery

/-- A 32-bit address. -/
abbrev Addr : Type := BitVec 32

/-! ## The source -/

/-- `*la`, where the bytes of `R` may be read. -/
def longAt (R : Addr → Bool) (m : Mem 32) (la : Addr) : Option (BitVec 32) :=
  if R la && R (la + 1) && R (la + 2) && R (la + 3) then some (m.readLong la) else none

/-- `while (cnt >= sizeof(ULONG) && *la == *lb)`: `la`, `lb` and `cnt` after it. -/
def longLoop (R : Addr → Bool) (m : Mem 32) : Addr → Addr → ℕ → Option (Addr × Addr × ℕ)
  | la, lb, cnt + 4 => do
    let x ← longAt R m la
    let y ← longAt R m lb
    if x = y then longLoop R m (la + 4) (lb + 4) cnt else return (la, lb, cnt + 4)
  | la, lb, cnt => return (la, lb, cnt)

/-- `while (cnt)` -/
def byteLoop (R : Addr → Bool) (m : Mem 32) : Addr → Addr → ℕ → Option ℤ
  | _, _, 0 => return 0
  | a, b, cnt + 1 => do
    let x ← fetch R m a
    let y ← fetch R m b
    if x ≠ y then return x.toNat - y.toNat
    byteLoop R m (a + 1) (b + 1) cnt

/-- **`memcmp(s1, s2, n)`**; nothing, if it reads a byte that is not of `R`. -/
def memcmp (R : Addr → Bool) (m : Mem 32) (s1 s2 : Addr) (n : BitVec 32) : Option ℤ := do
  let cnt := n.toNat
  if (s1 ||| s2) &&& 3 = 0 then
    let (a, b, cnt) ← longLoop R m s1 s2 cnt
    byteLoop R m a b cnt
  else
    byteLoop R m s1 s2 cnt

/-! ## The bytes of a region -/

variable {R : Addr → Bool} {m m' : Mem 32} {a b la lb s1 s2 s1' s2' : Addr} {n : BitVec 32}
  {cnt k : ℕ}

/-- The bytes of a region. -/
def bytes (m : Mem 32) (a : Addr) (n : ℕ) : List (BitVec 8) :=
  (List.range n).map fun i => m (a + BitVec.ofNat 32 i)

/-- All of a region may be read. -/
def Readable (R : Addr → Bool) (a : Addr) (n : ℕ) : Prop :=
  ∀ i < n, R (a + BitVec.ofNat 32 i) = true

theorem bytes_eq_iff : bytes m a k = bytes m' b k ↔
    ∀ i < k, m (a + BitVec.ofNat 32 i) = m' (b + BitVec.ofNat 32 i) := by
  rw [bytes, bytes, List.map_inj_left]
  exact forall_congr' fun i => by rw [List.mem_range]

theorem bytes_add (m : Mem 32) (a : Addr) (k n : ℕ) :
    bytes m a (k + n) = bytes m a k ++ bytes m (a + BitVec.ofNat 32 k) n := by
  rw [bytes, List.range_add, List.map_append, List.map_map]
  refine congrArg (bytes m a k ++ ·) (List.map_congr_left fun i _ => ?_)
  rw [Function.comp_apply, BitVec.ofNat_add, BitVec.add_assoc]

theorem bytes_succ (m : Mem 32) (a : Addr) (n : ℕ) :
    bytes m a (n + 1) = m a :: bytes m (a + 1) n := by
  rw [Nat.add_comm, bytes_add]
  exact congrArg (m · :: bytes m (a + 1) n) (BitVec.add_zero a)

theorem bytes_long (m : Mem 32) (la : Addr) (n : ℕ) :
    bytes m la (n + 4) = bytes m la 4 ++ bytes m (la + 4) n := by
  rw [Nat.add_comm]
  exact bytes_add m la 4 n

theorem Readable.add (h : Readable R a (cnt + k)) : Readable R (a + BitVec.ofNat 32 k) cnt := by
  intro i hi
  rw [BitVec.add_assoc, ← BitVec.ofNat_add]
  exact h (k + i) (by omega)

theorem Readable.head (h : Readable R a (cnt + 1)) : R a = true := by
  have hzero := h 0 (Nat.succ_pos cnt)
  rwa [show a + BitVec.ofNat 32 0 = a from BitVec.add_zero a] at hzero

theorem longAt_eq (h : Readable R la (cnt + 4)) : longAt R m la = some (m.readLong la) := by
  have h0 : R la = true := h.head
  have h1 : R (la + 1) = true := h 1 (by omega)
  have h2 : R (la + 2) = true := h 2 (by omega)
  have h3 : R (la + 3) = true := h 3 (by omega)
  exact if_pos (by rw [h0, h1, h2, h3]; rfl)

/-- **Equal longs are four equal bytes.** -/
theorem bytes_of_readLong (h : m.readLong la = m.readLong lb) : bytes m la 4 = bytes m lb 4 := by
  refine bytes_eq_iff.mpr fun i hi => ?_
  rw [← Mem.longByte_readLong m la i hi, h, Mem.longByte_readLong m lb i hi]

/-! ## The loops -/

/-- **The byte loop returns the difference of the two regions.** -/
theorem byteLoop_eq (ha : Readable R a cnt) (hb : Readable R b cnt) :
    byteLoop R m a b cnt = some (difference BitVec.toNat (bytes m a cnt) (bytes m b cnt)) := by
  induction cnt generalizing a b with
  | zero => rfl
  | succ cnt ih =>
    rw [byteLoop, fetch_eq ha.head, fetch_eq hb.head, bytes_succ, bytes_succ]
    by_cases hne : m a = m b
    · rw [hne, difference_cons_self]
      exact (if_neg (not_not_intro rfl)).trans (ih ha.add hb.add)
    · rw [difference_cons_ne hne]
      simp [hne]

/-- **The long loop moves past equal bytes**, and what it leaves may still be read. -/
theorem longLoop_eq (ha : Readable R la cnt) (hb : Readable R lb cnt) :
    ∃ u a b cnt', longLoop R m la lb cnt = some (a, b, cnt') ∧
      bytes m la cnt = u ++ bytes m a cnt' ∧ bytes m lb cnt = u ++ bytes m b cnt' ∧
      Readable R a cnt' ∧ Readable R b cnt' := by
  fun_induction longLoop R m la lb cnt with
  | case1 la lb cnt ih =>
    rw [longAt_eq ha, longAt_eq hb]
    by_cases heq : m.readLong la = m.readLong lb
    · obtain ⟨u, a, b, cnt', hrun, hu, hu', hread, hread'⟩ := ih (ha.add (k := 4)) (hb.add (k := 4))
      refine ⟨bytes m la 4 ++ u, a, b, cnt', ?_, ?_, ?_, hread, hread'⟩
      · simpa [heq] using hrun
      · rw [List.append_assoc, ← hu]
        exact bytes_long m la cnt
      · rw [List.append_assoc, ← hu', bytes_of_readLong heq]
        exact bytes_long m lb cnt
    · exact ⟨[], la, lb, cnt + 4, by simp [heq], rfl, rfl, ha, hb⟩
  | case2 la lb cnt => exact ⟨[], la, lb, cnt, rfl, rfl, rfl, ha, hb⟩

/-- **`memcmp` returns the difference of the two regions**, wherever they start. -/
theorem memcmp_eq (ha : Readable R s1 n.toNat) (hb : Readable R s2 n.toNat) :
    memcmp R m s1 s2 n
      = some (difference BitVec.toNat (bytes m s1 n.toNat) (bytes m s2 n.toNat)) := by
  rw [memcmp]
  split
  · obtain ⟨u, a, b, cnt, hrun, hu, hu', hread, hread'⟩ := longLoop_eq (m := m) ha hb
    rw [hrun, hu, hu', difference_append]
    exact byteLoop_eq hread hread'
  · exact byteLoop_eq ha hb

/-! ## The two regions -/

/-- The bytes of the two regions, and no other. -/
def regions (s1 s2 : Addr) (n : BitVec 32) (x : Addr) : Bool :=
  decide (Mem.InRun s1 n.toNat x) || decide (Mem.InRun s2 n.toNat x)

theorem readable_left (s1 s2 : Addr) (n : BitVec 32) : Readable (regions s1 s2 n) s1 n.toNat := by
  intro i hi
  rw [regions, decide_eq_true (Mem.inRun_add hi (hi.trans n.isLt)), Bool.true_or]

theorem readable_right (s1 s2 : Addr) (n : BitVec 32) : Readable (regions s1 s2 n) s2 n.toNat := by
  intro i hi
  rw [regions, decide_eq_true (Mem.inRun_add hi (hi.trans n.isLt)), Bool.or_true]

/-- **`memcmp` compares**: it reads the two regions only, and returns `0` if they are equal and the
difference of the first two bytes that differ otherwise; where the regions start has no part in
it. -/
theorem memcmp_compares (m : Mem 32) (s1 s2 : Addr) (n : BitVec 32) :
    ∃ r, memcmp (regions s1 s2 n) m s1 s2 n = some r ∧
      ((∀ i < n.toNat, m (s1 + BitVec.ofNat 32 i) = m (s2 + BitVec.ofNat 32 i)) → r = 0) ∧
      (∀ k < n.toNat, (∀ i < k, m (s1 + BitVec.ofNat 32 i) = m (s2 + BitVec.ofNat 32 i)) →
        m (s1 + BitVec.ofNat 32 k) ≠ m (s2 + BitVec.ofNat 32 k) →
        r = (m (s1 + BitVec.ofNat 32 k)).toNat - (m (s2 + BitVec.ofNat 32 k)).toNat) ∧
      ∀ m' s1' s2',
        (∀ i < n.toNat, m' (s1' + BitVec.ofNat 32 i) = m (s1 + BitVec.ofNat 32 i)) →
        (∀ i < n.toNat, m' (s2' + BitVec.ofNat 32 i) = m (s2 + BitVec.ofNat 32 i)) →
        memcmp (regions s1' s2' n) m' s1' s2' n = some r := by
  refine ⟨_, memcmp_eq (readable_left s1 s2 n) (readable_right s1 s2 n), fun heq => ?_,
    fun k hk heq hne => ?_, fun m' s1' s2' h1 h2 => ?_⟩
  · rw [bytes_eq_iff.mpr heq, difference_self]
  · obtain ⟨rest, hrest⟩ := Nat.exists_eq_add_of_lt hk
    rw [hrest, Nat.add_assoc, bytes_add, bytes_add m s2, bytes_eq_iff.mpr heq, difference_append,
      bytes_succ, bytes_succ, difference_cons_ne hne]
  · rw [memcmp_eq (readable_left s1' s2' n) (readable_right s1' s2' n), bytes_eq_iff.mpr h1,
      bytes_eq_iff.mpr h2]

theorem memcmp_compares_last : memcmp (regions 0x1000 0x2000 7)
    (fun a => if a = 0x2006 then 0xFF else 0x41) 0x1000 0x2000 7 = some (-190) := by
  obtain ⟨r, hrun, -, hfirst, -⟩ :=
    memcmp_compares (fun a => if a = 0x2006 then 0xFF else 0x41) 0x1000 0x2000 7
  rw [hrun, hfirst 6 (by decide) (by decide) (by decide)]
  rfl

end Memcmp
