import Emu68Common.Machinery.Memory

/-!
# Machinery/Blit — filling a region, and moving one onto another, piece by piece

`patched m a f P` is the memory `m` with exactly the bytes at the offsets in `P` from `a` replaced
by what `f` has for them, and each store of the right bytes enlarges `P` by its piece
(`store_patched`).  `moved m dst src P` is the memory `m` with exactly the bytes at the offsets in
`P` moved from `src` to `dst`.  A move done in pieces passes through such memories only, provided
each piece is still intact where it is read (`moved_of_intact`), and then each store enlarges `P` by
the piece (`store_moved`).  Which order of pieces keeps them intact is the whole question of an
overlapping move:

* upwards, when no source address lies among the bytes already written below (`intact_up`);
* downwards, when none lies among those already written above (`intact_down`).
-/

namespace Machinery

namespace Mem

variable {w : ℕ} {m : Mem w} {dst src : BitVec w}

/-! ## Filling -/

open Classical in
/-- **`m` with the bytes at the offsets of `P` from `a` replaced** by those of `f`. -/
noncomputable def patched (m : Mem w) (a : BitVec w) (f : ℕ → BitVec 8) (P : Set ℕ) : Mem w :=
  fun x => if (x - a).toNat ∈ P then f (x - a).toNat else m x

section Patched

variable {a : BitVec w} {f : ℕ → BitVec 8} {P : Set ℕ}

theorem patched_of_mem {x : BitVec w} (h : (x - a).toNat ∈ P) :
    m.patched a f P x = f (x - a).toNat := if_pos h

theorem patched_of_notMem {x : BitVec w} (h : (x - a).toNat ∉ P) : m.patched a f P x = m x :=
  if_neg h

@[simp] theorem patched_empty : m.patched a f ∅ = m :=
  funext fun _ => patched_of_notMem (Set.notMem_empty _)

/-- **A piece stored with its own bytes** is in place, whatever else was before it. -/
theorem store_patched {g : ℕ → BitVec 8} {o k : ℕ} (h : o + k ≤ 2 ^ w)
    (hg : ∀ i < k, g i = f (o + i)) :
    (m.patched a f P).store (a + BitVec.ofNat w o) k g = m.patched a f (P ∪ Set.Ico o (o + k)) := by
  rcases Nat.eq_zero_or_pos k with rfl | hk
  · rw [store_zero, Nat.add_zero, Set.Ico_self, Set.union_empty]
  funext x
  obtain ⟨i, hi, rfl⟩ : ∃ i, i < 2 ^ w ∧ x = a + BitVec.ofNat w i :=
    ⟨(x - a).toNat, (x - a).isLt, (add_offset a x).symm⟩
  have hsub : (a + BitVec.ofNat w i - (a + BitVec.ofNat w o)).toNat = (2 ^ w - o + i) % 2 ^ w := by
    have : a + BitVec.ofNat w i - (a + BitVec.ofNat w o) = BitVec.ofNat w i - BitVec.ofNat w o := by
      ring
    rw [this, BitVec.toNat_sub, BitVec.toNat_ofNat, BitVec.toNat_ofNat,
      Nat.mod_eq_of_lt (show o < 2 ^ w by omega), Nat.mod_eq_of_lt hi]
  have ha : (a + BitVec.ofNat w i - a).toNat = i := toNat_add_ofNat_sub a hi
  by_cases hmem : i ∈ Set.Ico o (o + k)
  · have hoff : (2 ^ w - o + i) % 2 ^ w = i - o := by
      rw [show 2 ^ w - o + i = (i - o) + 2 ^ w by have := hmem.1; omega, Nat.add_mod_right,
        Nat.mod_eq_of_lt (by omega)]
    have hik : i - o < k := by have := hmem.2; omega
    rw [store_of_inRun (by rw [InRun, hsub, hoff]; exact hik), hsub, hoff, hg _ hik,
      patched_of_mem (by rw [ha]; exact Or.inr hmem), ha, Nat.add_sub_cancel' hmem.1]
  · have hoff : ¬ InRun (a + BitVec.ofNat w o) k (a + BitVec.ofNat w i) := by
      rw [InRun, hsub]
      rcases Nat.lt_or_ge i o with hio | hio
      · rw [Nat.mod_eq_of_lt (by omega)]
        omega
      · rw [show 2 ^ w - o + i = (i - o) + 2 ^ w by omega, Nat.add_mod_right,
          Nat.mod_eq_of_lt (by omega)]
        exact fun hlt => hmem ⟨hio, by omega⟩
    rw [store_of_not_inRun hoff]
    by_cases hP : i ∈ P
    · rw [patched_of_mem (by rwa [ha]), patched_of_mem (by rw [ha]; exact Or.inl hP)]
    · rw [patched_of_notMem (by rwa [ha]),
        patched_of_notMem (by rw [ha]; exact fun h => h.elim hP hmem)]

/-- A region filled reads as it should, at every offset. -/
theorem patched_apply {n i : ℕ} (hi : i < n) (hw : n ≤ 2 ^ w) :
    m.patched a f (Set.Ico 0 n) (a + BitVec.ofNat w i) = f i := by
  have ha := toNat_add_ofNat_sub a (show i < 2 ^ w by omega)
  rw [patched_of_mem (by rw [ha]; exact ⟨Nat.zero_le _, hi⟩), ha]

/-- …and every address outside it as before. -/
theorem patched_apply_off {n : ℕ} (hP : P ⊆ Set.Ico 0 n) {x : BitVec w} (h : ¬ InRun a n x) :
    m.patched a f P x = m x :=
  patched_of_notMem fun hmem => h (hP hmem).2

end Patched

/-! ## Moving -/

open Classical in
/-- **`m` with the bytes at the offsets of `P` moved** from `src` to `dst`. -/
noncomputable def moved (m : Mem w) (dst src : BitVec w) (P : Set ℕ) : Mem w :=
  fun x => if (x - dst).toNat ∈ P then m (src + (x - dst)) else m x

theorem moved_of_mem {P : Set ℕ} {x : BitVec w} (h : (x - dst).toNat ∈ P) :
    m.moved dst src P x = m (src + (x - dst)) := if_pos h

theorem moved_of_notMem {P : Set ℕ} {x : BitVec w} (h : (x - dst).toNat ∉ P) :
    m.moved dst src P x = m x := if_neg h

@[simp] theorem moved_empty : m.moved dst src ∅ = m :=
  funext fun _ => moved_of_notMem (Set.notMem_empty _)

/-- A region moved onto itself stays as it is. -/
theorem moved_self (P : Set ℕ) : m.moved dst dst P = m := by
  funext x
  by_cases hx : (x - dst).toNat ∈ P
  · rw [moved_of_mem hx, add_sub_cancel]
  · exact moved_of_notMem hx

/-- Moving is filling with the bytes of the source. -/
theorem moved_eq_patched (P : Set ℕ) :
    m.moved dst src P = m.patched dst (fun i => m (src + BitVec.ofNat w i)) P := by
  funext x
  by_cases hx : (x - dst).toNat ∈ P
  · rw [moved_of_mem hx, patched_of_mem hx, BitVec.ofNat_toNat, BitVec.setWidth_eq]
  · rw [moved_of_notMem hx, patched_of_notMem hx]

/-- **A piece stored with its original bytes is moved**, whatever else was moved before it. -/
theorem store_moved (P : Set ℕ) {o k : ℕ} (h : o + k ≤ 2 ^ w) :
    (m.moved dst src P).store (dst + BitVec.ofNat w o) k (fun i => m (src + BitVec.ofNat w (o + i)))
      = m.moved dst src (P ∪ Set.Ico o (o + k)) := by
  rw [moved_eq_patched, moved_eq_patched]
  exact store_patched h fun _ _ => rfl

/-- **A piece is intact** where no address it is read from has been moved onto. -/
def Intact (dst src : BitVec w) (P : Set ℕ) (o k : ℕ) : Prop :=
  ∀ i < k, (src + BitVec.ofNat w (o + i) - dst).toNat ∉ P

theorem moved_of_intact {P : Set ℕ} {o k : ℕ} (h : Intact dst src P o k) :
    ∀ i < k, m.moved dst src P (src + BitVec.ofNat w (o + i)) = m (src + BitVec.ofNat w (o + i)) :=
  fun i hi => moved_of_notMem (h i hi)

/-- **Reading a piece where it is intact and storing it moves it.** -/
theorem store_moved_of_intact {P : Set ℕ} {o k : ℕ} (h : o + k ≤ 2 ^ w)
    (hP : Intact dst src P o k) :
    (m.moved dst src P).store (dst + BitVec.ofNat w o) k
        (fun i => m.moved dst src P (src + BitVec.ofNat w o + BitVec.ofNat w i))
      = m.moved dst src (P ∪ Set.Ico o (o + k)) := by
  rw [← store_moved P h]
  refine store_congr fun i hi => ?_
  rw [BitVec.add_assoc, ← BitVec.ofNat_add, moved_of_intact hP i hi]

/-- The offset of a source byte above `dst`, when `dst` lies below the source. -/
theorem toNat_src_sub_dst_of_lt {o : ℕ} (hlt : dst.toNat < src.toNat)
    (ho : src.toNat + o < 2 ^ w) :
    (src + BitVec.ofNat w o - dst).toNat = src.toNat - dst.toNat + o := by
  rw [BitVec.toNat_sub, BitVec.toNat_add, BitVec.toNat_ofNat,
    Nat.mod_eq_of_lt (show o < 2 ^ w by omega),
    Nat.mod_eq_of_lt ho, show 2 ^ w - dst.toNat + (src.toNat + o)
      = (src.toNat - dst.toNat + o) + 2 ^ w by omega, Nat.add_mod_right,
    Nat.mod_eq_of_lt (by omega)]

/-- The same, when that source byte lies below `dst`: the offset has wrapped. -/
theorem toNat_src_sub_dst_of_wrap {o : ℕ} (hlt : src.toNat + o < dst.toNat) :
    (src + BitVec.ofNat w o - dst).toNat = 2 ^ w - (dst.toNat - src.toNat - o) := by
  have := dst.isLt
  rw [BitVec.toNat_sub, BitVec.toNat_add, BitVec.toNat_ofNat,
    Nat.mod_eq_of_lt (show o < 2 ^ w by omega),
    Nat.mod_eq_of_lt (show src.toNat + o < 2 ^ w by omega), Nat.mod_eq_of_lt (by omega)]
  omega

/-- The same, when that source byte lies at or above `dst`. -/
theorem toNat_src_sub_dst_of_ge {o : ℕ} (hle : dst.toNat ≤ src.toNat + o)
    (ho : src.toNat + o < 2 ^ w) :
    (src + BitVec.ofNat w o - dst).toNat = src.toNat + o - dst.toNat := by
  rw [BitVec.toNat_sub, BitVec.toNat_add, BitVec.toNat_ofNat,
    Nat.mod_eq_of_lt (show o < 2 ^ w by omega),
    Nat.mod_eq_of_lt ho, show 2 ^ w - dst.toNat + (src.toNat + o)
      = (src.toNat + o - dst.toNat) + 2 ^ w by omega, Nat.add_mod_right,
    Nat.mod_eq_of_lt (by omega)]

/-- **Upwards is safe** when `dst` lies below the source or past its end. -/
theorem intact_up {n o k : ℕ} (hs : src.toNat + n < 2 ^ w)
    (hd : dst.toNat < src.toNat ∨ src.toNat + n ≤ dst.toNat) (hd' : dst.toNat + n < 2 ^ w)
    (ho : o + k ≤ n) : Intact dst src (Set.Ico 0 o) o k := by
  intro i hi hmem
  rcases hd with hlt | hge
  · rw [toNat_src_sub_dst_of_lt hlt (by omega)] at hmem
    have := hmem.2
    omega
  · rw [toNat_src_sub_dst_of_wrap (by omega)] at hmem
    have := hmem.2
    omega

/-- **Downwards is safe** when `dst` lies above the start of the source. -/
theorem intact_down {n o k : ℕ} (hs : src.toNat + n < 2 ^ w) (hd : src.toNat < dst.toNat)
    (hd' : dst.toNat + n < 2 ^ w) (ho : o + k ≤ n) :
    Intact dst src (Set.Ico (o + k) n) o k := by
  intro i hi hmem
  by_cases hge : dst.toNat ≤ src.toNat + (o + i)
  · rw [toNat_src_sub_dst_of_ge hge (by omega)] at hmem
    have := hmem.1
    omega
  · rw [toNat_src_sub_dst_of_wrap (by omega)] at hmem
    have := hmem.2
    omega

/-- A finished move reads as the source did, at every offset moved. -/
theorem moved_apply_dst {n i : ℕ} (hi : i < n) (hw : n ≤ 2 ^ w) :
    m.moved dst src (Set.Ico 0 n) (dst + BitVec.ofNat w i) = m (src + BitVec.ofNat w i) := by
  rw [moved_eq_patched, patched_apply hi hw]

/-- …and leaves every address outside the destination alone. -/
theorem moved_apply_off {lo n : ℕ} {x : BitVec w} (h : ¬ InRun dst n x) :
    m.moved dst src (Set.Ico lo n) x = m x :=
  moved_of_notMem fun hmem => h hmem.2

end Mem

end Machinery
