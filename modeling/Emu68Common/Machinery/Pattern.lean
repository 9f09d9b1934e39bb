import Mathlib.Data.List.TakeWhile
import Mathlib.Data.List.Basic

/-!
# Machinery/Pattern — searching a text for a pattern, greedy and with groups

The regular expressions of a log reducer are chains: a character of some kind, as many of a kind as
there are, the end of the text.  A pattern is the list of its links (`Atom`); its matches are tried
in a fixed order, the longest repetition first (`results`), and the first one that works is the
match.  Where a repetition is followed by a character it cannot contain, there is only one way to
match it (`results_many_one`).

    results r l   the groups of every match at the front of `l`, in the order they are tried
    search r l    the groups of the first match anywhere in `l`
-/

namespace Machinery

namespace Pattern

variable {α : Type*}

/-! ## Patterns -/

/-- **A link of a pattern**: one character; as many as there are but no fewer than so many, kept as
a group or not; a condition on what comes next. -/
inductive Atom (α : Type*) where
  | one (p : α → Bool)
  | many (least : ℕ) (p : α → Bool) (grouped : Bool)
  | ahead (q : List α → Bool)

/-- The characters of a literal. -/
def lit [BEq α] (s : List α) : List (Atom α) := s.map fun c => .one (· == c)

/-- The ways to split off a repetition, the longest first. -/
def splits (least : ℕ) (p : α → Bool) (l : List α) : List (List α × List α) :=
  let n := (l.takeWhile p).length
  (List.range (n + 1 - least)).map fun i => (l.take (n - i), l.drop (n - i))

/-- **The matches at the front of a text**, each with its groups, in the order they are tried. -/
def results : List (Atom α) → List α → List (List (List α))
  | [], _ => [[]]
  | .one _ :: _, [] => []
  | .one p :: r, c :: l => if p c then results r l else []
  | .many least p grouped :: r, l => (splits least p l).flatMap fun s =>
      (results r s.2).map fun groups => if grouped then s.1 :: groups else groups
  | .ahead q :: r, l => if q l then results r l else []

/-- `re.match`. -/
def matchFront (r : List (Atom α)) (l : List α) : Option (List (List α)) := (results r l).head?

/-- **`re.search`**: the first place with a match. -/
def search (r : List (Atom α)) : List α → Option (List (List α))
  | [] => matchFront r []
  | c :: l => match matchFront r (c :: l) with
    | some groups => some groups
    | none => search r l

/-! ## Where a pattern cannot but match -/

section Results

variable {p q : α → Bool} {r : List (Atom α)} {k : ℕ} {c : α} {l w : List α} {grouped : Bool}

@[simp] theorem results_nil (l : List α) : results [] l = [[]] := rfl

theorem results_one (hc : p c = true) : results (.one p :: r) (c :: l) = results r l := if_pos hc

theorem results_one_of_not (hc : p c = false) : results (.one p :: r) (c :: l) = [] :=
  if_neg (hc ▸ Bool.false_ne_true)

theorem results_many : results (.many k p grouped :: r) l = (splits k p l).flatMap fun s =>
    (results r s.2).map fun groups => if grouped then s.1 :: groups else groups := rfl

theorem results_lit [BEq α] [LawfulBEq α] (s : List α) :
    results (lit s ++ r) (s ++ l) = results r l := by
  induction s with
  | nil => rfl
  | cons c s ih => exact (results_one (beq_self_eq_true c)).trans ih

theorem results_ahead_of_not {a : List α → Bool} (ha : a l = false) :
    results (.ahead a :: r) l = [] := if_neg (ha ▸ Bool.false_ne_true)

/-- **A repetition that must be taken whole**: what stands behind it ends it, and the rest of the
pattern does not match from any of its own characters on. -/
theorem results_many_whole {g : Bool} (hw : ∀ d ∈ w, p d = true)
    (hl : ∀ d ∈ l.head?, p d = false) (hk : k ≤ w.length)
    (hfail : ∀ c v, (∀ d ∈ c :: v, p d = true) → results r (c :: v ++ l) = []) :
    results (.many k p g :: r) (w ++ l) =
      (results r l).map fun groups => if g then w :: groups else groups := by
  have hn : (w ++ l).takeWhile p = w := by
    rw [List.takeWhile_append_of_pos hw]
    cases l with
    | nil => rw [List.takeWhile_nil, List.append_nil]
    | cons c l =>
      rw [List.takeWhile_cons_of_neg (hl c rfl ▸ Bool.false_ne_true), List.append_nil]
  have hrange : List.range (w.length + 1 - k) = 0 :: (List.range (w.length - k)).map Nat.succ := by
    rw [Nat.succ_sub hk, List.range_succ_eq_map]
  rw [results_many, splits, hn, hrange, List.map_cons, List.flatMap_cons, Nat.sub_zero,
    List.drop_left, List.take_left]
  -- any shorter repetition leaves one of its own characters in front
  have hshort : (((List.range (w.length - k)).map Nat.succ).map fun i =>
      ((w ++ l).take (w.length - i), (w ++ l).drop (w.length - i))).flatMap (fun s =>
        (results r s.2).map fun groups => if g then s.1 :: groups else groups) = [] := by
    rw [List.flatMap_eq_nil_iff]
    intro s hs
    obtain ⟨i, hi, rfl⟩ := List.mem_map.mp hs
    obtain ⟨j, hj, rfl⟩ := List.mem_map.mp hi
    have hlt : w.length - (j + 1) < w.length := by
      have := List.mem_range.mp hj
      omega
    rw [List.map_eq_nil_iff]
    change results r ((w ++ l).drop (w.length - (j + 1))) = []
    rw [List.drop_append_of_le_length hlt.le, List.drop_eq_getElem_cons hlt]
    refine hfail _ _ fun d hd => hw d ?_
    rcases List.mem_cons.mp hd with rfl | hd
    · exact List.getElem_mem hlt
    · exact List.mem_of_mem_drop hd
  rw [hshort, List.append_nil]

/-- **A repetition up to a character it cannot contain**: it is matched whole, or not at all. -/
theorem results_many_one {g : Bool} (hw : ∀ d ∈ w, p d = true) (hc : p c = false)
    (hpq : ∀ d, p d = true → q d = false) (hk : k ≤ w.length) :
    results (.many k p g :: .one q :: r) (w ++ c :: l) =
      (results (.one q :: r) (c :: l)).map fun groups => if g then w :: groups else groups :=
  results_many_whole hw (fun _ hd => Option.some.inj hd ▸ hc) hk fun d _ hd =>
    results_one_of_not (hpq d (hd d List.mem_cons_self))

/-- A repetition up to a literal that does not go on with it. -/
theorem results_many_lit [BEq α] [LawfulBEq α] {s : List α} (hw : ∀ d ∈ w, p d = true)
    (hc : p c = false) (hk : k ≤ w.length) :
    results (.many k p grouped :: (lit (c :: s) ++ r)) (w ++ ((c :: s) ++ l)) =
      (results r l).map fun groups => if grouped then w :: groups else groups := by
  have hpq : ∀ d, p d = true → (d == c) = false := fun d hd =>
    beq_false_of_ne fun h => Bool.false_ne_true (hc.symm.trans (h ▸ hd))
  have h := results_many_one (r := lit s ++ r) (l := s ++ l) (g := grouped) hw hc hpq hk
  rwa [results_one (p := (· == c)) (beq_self_eq_true c), results_lit] at h

/-- A repetition that ends where the literal behind it does not begin. -/
theorem results_many_lit_of_ne [BEq α] [LawfulBEq α] {s : List α} {d : α}
    (hw : ∀ d ∈ w, p d = true) (hd : p d = false) (hc : p c = false) (hdc : d ≠ c)
    (hk : k ≤ w.length) :
    results (.many k p grouped :: (lit (c :: s) ++ r)) (w ++ d :: l) = [] := by
  have hpq : ∀ d, p d = true → (d == c) = false := fun d hd =>
    beq_false_of_ne fun h => Bool.false_ne_true (hc.symm.trans (h ▸ hd))
  have h := results_many_one (r := lit s ++ r) (l := l) (g := grouped) hw hd hpq hk
  rwa [results_one_of_not (p := (· == c)) (beq_false_of_ne hdc), List.map_nil] at h

/-- A repetition that cannot begin. -/
theorem results_many_of_not (hc : p c = false) :
    results (.many (k + 1) p grouped :: r) (c :: l) = [] := by
  rw [results_many, splits, List.takeWhile_cons_of_neg (hc ▸ Bool.false_ne_true), List.length_nil,
    Nat.zero_add, Nat.sub_eq_zero_of_le (Nat.le_add_left 1 k)]
  rfl

/-- A repetition of nothing. -/
theorem results_many_none (hc : p c = false) : results (.many 0 p grouped :: r) (c :: l) =
    (results r (c :: l)).map fun groups => if grouped then [] :: groups else groups := by
  rw [results_many, splits, List.takeWhile_cons_of_neg (hc ▸ Bool.false_ne_true)]
  exact List.append_nil _

/-- A repetition up to another one, of characters it cannot contain. -/
theorem results_many_many {g g' : Bool} {k' : ℕ} (hw : ∀ d ∈ w, p d = true) (hc : p c = false)
    (hpq : ∀ d, p d = true → q d = false) (hk : k ≤ w.length) :
    results (.many k p g :: .many (k' + 1) q g' :: r) (w ++ c :: l) =
      (results (.many (k' + 1) q g' :: r) (c :: l)).map fun groups =>
        if g then w :: groups else groups :=
  results_many_whole hw (fun _ hd => Option.some.inj hd ▸ hc) hk fun d _ hd =>
    results_many_of_not (hpq d (hd d List.mem_cons_self))

/-- **A group of whatever is left**, up to the end. -/
theorem results_rest {a : List α → Bool} (hl : ∀ d ∈ l, p d = true) (ha : a [] = true) :
    (results [.many 0 p true, .ahead a] l).head? = some [l] := by
  have hn : l.takeWhile p = l := List.takeWhile_eq_self_iff.mpr hl
  rw [results_many, splits, hn, Nat.sub_zero, List.range_succ_eq_map, List.map_cons,
    List.flatMap_cons,
    Nat.sub_zero, List.drop_length, List.take_length, results, if_pos ha]
  rfl

theorem search_of_results {groups : List (List α)} {rest : List (List (List α))}
    (h : results r l = groups :: rest) : search r l = some groups := by
  cases l with
  | nil => rw [search, matchFront, h, List.head?_cons]
  | cons c l => rw [search, matchFront, h, List.head?_cons]

theorem search_cons_of_not (h : results r (c :: l) = []) : search r (c :: l) = search r l := by
  rw [search, matchFront, h, List.head?_nil]

/-- A pattern that starts with a character is not found where there is none of them. -/
theorem search_none (hl : ∀ d ∈ l, q d = false) : search (.one q :: r) l = none := by
  induction l with
  | nil => rfl
  | cons c l ih =>
    rw [search_cons_of_not (results_one_of_not (hl c List.mem_cons_self))]
    exact ih fun d hd => hl d (List.mem_cons_of_mem c hd)

/-! ## What a match says -/

theorem exists_of_one (h : results (.one p :: r) l ≠ []) :
    ∃ c t, l = c :: t ∧ p c = true ∧ results r t ≠ [] := by
  cases l with
  | nil => exact absurd rfl h
  | cons c t =>
    cases hc : p c with
    | false => exact absurd (results_one_of_not hc) h
    | true => exact ⟨c, t, rfl, hc, results_one hc ▸ h⟩

theorem exists_of_lit [BEq α] [LawfulBEq α] {s : List α} (h : results (lit s ++ r) l ≠ []) :
    ∃ t, l = s ++ t ∧ results r t ≠ [] := by
  induction s generalizing l with
  | nil => exact ⟨l, rfl, h⟩
  | cons d s ih =>
    obtain ⟨c, t, rfl, hc, ht⟩ := exists_of_one h
    obtain ⟨t', rfl, ht'⟩ := ih ht
    exact ⟨t', by rw [eq_of_beq hc, List.cons_append], ht'⟩

/-- A repetition that is split off is one. -/
theorem of_mem_splits {s : List α × List α} (h : s ∈ splits k p l) :
    l = s.1 ++ s.2 ∧ k ≤ s.1.length ∧ ∀ d ∈ s.1, p d = true := by
  obtain ⟨i, hi, rfl⟩ := List.mem_map.mp h
  have hi := List.mem_range.mp hi
  have hprefix := List.takeWhile_prefix p (l := l)
  refine ⟨(List.take_append_drop _ l).symm, ?_, fun d hd => ?_⟩
  · rw [List.length_take]
    have := hprefix.length_le
    omega
  · have hd : d ∈ l.take (l.takeWhile p).length := List.take_subset_take_left l (Nat.sub_le _ i) hd
    rw [← List.prefix_iff_eq_take.mp hprefix] at hd
    exact List.mem_takeWhile_imp hd

theorem exists_of_many (h : results (.many k p grouped :: r) l ≠ []) :
    ∃ w t, l = w ++ t ∧ k ≤ w.length ∧ (∀ d ∈ w, p d = true) ∧ results r t ≠ [] := by
  obtain ⟨groups, hgroups⟩ := List.exists_mem_of_ne_nil _ h
  obtain ⟨s, hsplit, hmem⟩ := List.mem_flatMap.mp hgroups
  obtain ⟨hl, hk, hw⟩ := of_mem_splits hsplit
  obtain ⟨rest, hrest, -⟩ := List.mem_map.mp hmem
  exact ⟨s.1, s.2, hl, hk, hw, List.ne_nil_of_mem hrest⟩

theorem of_ahead {a : List α → Bool} (h : results (.ahead a :: r) l ≠ []) : a l = true := by
  by_contra ha
  exact h (if_neg ha)

end Results

end Pattern

end Machinery
