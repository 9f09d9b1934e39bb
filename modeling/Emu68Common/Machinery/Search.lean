import Mathlib.Data.List.Infix
import Mathlib.Order.Bounds.Basic

/-!
# Machinery/Search — a tag looked for in one pass

What matters of the elements gone by is the longest beginning of the tag they end with (`Longest`).
When the tag's first element does not recur in it, two such beginnings cannot stand one inside the
other (`not_inner`), so a mismatch leaves at most the first element, and no table of shorter
matches is needed (`Longest.advance`).  The pass stops exactly when the tag is there
(`seek_eq_none`), and may be cut anywhere (`seek_append`).

    tag        t₀ t₁ t₂ ··· t_m ···
    gone by    ··· t₀ t₁ t₂ | c          m = 3 before `c`
-/

namespace Machinery

variable {α : Type*} {tag u w : List α} {c : α} {j k m : ℕ}

/-! ## The longest match -/

/-- **So much of the tag stands at the end**, and no more. -/
def Longest (tag w : List α) (m : ℕ) : Prop :=
  IsGreatest {j | j ≤ tag.length ∧ tag.take j <:+ w} m

/-- The tag's first element does not recur in it. -/
def Fresh (tag : List α) : Prop := ∀ c ∈ tag.head?, c ∉ tag.tail

theorem longest_nil (tag : List α) : Longest tag [] 0 := by
  refine ⟨⟨Nat.zero_le _, List.nil_suffix⟩, fun j hj => ?_⟩
  have hlen := hj.2.length_le
  rw [List.length_take, Nat.min_eq_left hj.1] at hlen
  exact hlen

/-- The whole tag stands at the end when all of it matches. -/
theorem Longest.eq_length (h : Longest tag w m) : m = tag.length ↔ tag <:+ w := by
  constructor
  · rintro rfl
    simpa using h.1.2
  · exact fun hw => le_antisymm h.1.1 (h.2 ⟨le_rfl, by simpa using hw⟩)

/-- One element more matches when it is the tag's next one. -/
theorem take_succ_suffix (hj : j < tag.length) :
    tag.take (j + 1) <:+ w ++ [c] ↔ tag[j]? = some c ∧ tag.take j <:+ w := by
  rw [List.take_succ_eq_append_getElem hj, List.getElem?_eq_getElem hj, List.suffix_concat_iff]
  constructor
  · rintro (h | ⟨t, ht, hw⟩)
    · exact absurd h (List.append_ne_nil_of_right_ne_nil _ (List.cons_ne_nil _ _))
    · obtain ⟨rfl, hc⟩ := List.append_inj' ht rfl
      exact ⟨congrArg some (List.head_eq_of_cons_eq hc), hw⟩
  · rintro ⟨hc, hw⟩
    exact Or.inr ⟨_, by rw [Option.some.inj hc], hw⟩

/-- **No beginning of the tag ends inside a longer one.** -/
theorem Fresh.not_inner (h : Fresh tag) (hj : 0 < j) (hjk : j < k) (hk : k ≤ tag.length)
    (hjw : tag.take j <:+ w) (hkw : tag.take k <:+ w) : False := by
  have hlenj : (tag.take j).length = j := by
    rw [List.length_take]
    omega
  have hlenk : (tag.take k).length = k := by
    rw [List.length_take]
    omega
  obtain ⟨t, ht⟩ := List.suffix_of_suffix_length_le hjw hkw (by omega)
  cases tag with
  | nil => exact absurd (hjk.trans_le hk) (Nat.not_lt_zero j)
  | cons a tag =>
    -- the first element of the shorter one stands behind the first of the longer one
    obtain ⟨j, rfl⟩ := Nat.exists_eq_succ_of_ne_zero hj.ne'
    obtain ⟨k, rfl⟩ := Nat.exists_eq_succ_of_ne_zero (hj.trans hjk).ne'
    rw [List.take_succ_cons, List.take_succ_cons] at ht
    cases t with
    | nil =>
      have hlen := congrArg List.length ht
      rw [List.take_succ_cons] at hlenj hlenk
      rw [List.nil_append, hlenj, hlenk] at hlen
      omega
    | cons b t =>
      have hmem : a ∈ tag.take k := by
        rw [← List.tail_eq_of_cons_eq ht]
        exact List.mem_append_right t List.mem_cons_self
      exact h a rfl (List.mem_of_mem_take hmem)

/-! ## The pass -/

variable [DecidableEq α]

/-- One element on: another one matched, or the first one again, or none. -/
def advance (tag : List α) (m : ℕ) (c : α) : ℕ :=
  if tag[m]? = some c then m + 1 else if tag.head? = some c then 1 else 0

/-- **The pass**: nothing once the tag is there, what is matched at the end otherwise. -/
def seek (tag : List α) : ℕ → List α → Option ℕ
  | m, [] => some m
  | m, c :: w =>
    if advance tag m c = tag.length then none else seek tag (advance tag m c) w

theorem seek_append (tag u w : List α) (m : ℕ) :
    seek tag m (u ++ w) = (seek tag m u).bind fun m => seek tag m w := by
  induction u generalizing m with
  | nil => rfl
  | cons c u ih =>
    rw [List.cons_append, seek, seek]
    split
    · rfl
    · exact ih _

/-- **One element on, the match is the longest again.** -/
theorem Longest.advance (h : Longest tag w m) (hfresh : Fresh tag) (hm : m < tag.length) :
    Longest tag (w ++ [c]) (advance tag m c) := by
  have hpos : 0 < tag.length := Nat.zero_lt_of_lt hm
  have hhead : tag.head? = tag[0]? := List.head?_eq_getElem? ..
  -- a match of `j + 1` elements was one of `j`, and those are not inside the longest one
  have hprev : ∀ j, j + 1 ≤ tag.length → tag.take (j + 1) <:+ w ++ [c] →
      tag[j]? = some c ∧ (j = m ∨ j = 0) := by
    intro j hj hw
    obtain ⟨hc, hw⟩ := (take_succ_suffix hj).mp hw
    refine ⟨hc, ?_⟩
    by_contra hne
    obtain ⟨hne, hne0⟩ := not_or.mp hne
    have hlt : j < m := lt_of_le_of_ne (h.2 ⟨Nat.le_of_succ_le hj, hw⟩) hne
    exact hfresh.not_inner (Nat.pos_of_ne_zero hne0) hlt h.1.1 hw h.1.2
  rw [Machinery.advance]
  split_ifs with hnext hfirst
  · refine ⟨⟨hm, (take_succ_suffix hm).mpr ⟨hnext, h.1.2⟩⟩, fun j hj => ?_⟩
    cases j with
    | zero => exact Nat.zero_le _
    | succ j =>
      have := (hprev j hj.1 hj.2).2
      omega
  · rw [hhead] at hfirst
    refine ⟨⟨hpos, (take_succ_suffix hpos).mpr ⟨hfirst, List.nil_suffix⟩⟩, fun j hj => ?_⟩
    cases j with
    | zero => exact Nat.zero_le _
    | succ j =>
      obtain ⟨hc, rfl | rfl⟩ := hprev j hj.1 hj.2
      · exact absurd hc hnext
      · exact le_rfl
  · rw [hhead] at hfirst
    refine ⟨⟨Nat.zero_le _, List.nil_suffix⟩, fun j hj => ?_⟩
    cases j with
    | zero => exact le_rfl
    | succ j =>
      obtain ⟨hc, rfl | rfl⟩ := hprev j hj.1 hj.2
      · exact absurd hc hnext
      · exact absurd hc hfirst

/-- **The pass stops exactly when the tag is there.** -/
theorem seek_eq_none (hfresh : Fresh tag) (h : Longest tag u m) (hm : m < tag.length)
    (hu : ¬ tag <:+: u) : seek tag m w = none ↔ tag <:+: u ++ w := by
  induction w generalizing u m with
  | nil =>
    rw [List.append_nil]
    exact iff_of_false nofun hu
  | cons c w ih =>
    have hnext := h.advance (c := c) hfresh hm
    rw [seek, List.append_cons]
    split_ifs with hfound
    · exact iff_of_true rfl ((hnext.eq_length.mp hfound).isInfix.trans
        (List.prefix_append ..).isInfix)
    · refine ih hnext (lt_of_le_of_ne hnext.1.1 hfound) fun hin => ?_
      rcases List.infix_concat_iff.mp hin with hsuf | hin
      · exact hfound (hnext.eq_length.mpr hsuf)
      · exact hu hin

/-- **From nothing matched.** -/
theorem seek_zero (hfresh : Fresh tag) (hne : tag ≠ []) (w : List α) :
    seek tag 0 w = none ↔ tag <:+: w :=
  seek_eq_none hfresh (longest_nil tag) (List.length_pos_iff.mpr hne)
    fun h => hne (List.infix_nil.mp h)

end Machinery
