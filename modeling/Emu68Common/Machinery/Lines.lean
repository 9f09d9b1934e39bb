import Mathlib.Data.List.DropRight

/-!
# Machinery/Lines — the lines of a text, and what a line says around a mark

A text is cut after every newline (`lines`); a reader that takes at most so many characters at a
time takes it line by line as long as no line is longer (`stretch_eq`).  A line is read by
stripping blanks from its ends (`strip`) and by looking for its first mark.

    lines nl l       the lines of a text, each with the newline it ends in
    stretch nl n l   what is taken at once: up to a newline, up to so many, up to the end
    strip p l        the text without what surrounds it
-/

namespace Machinery

variable {α : Type*} {p q : α → Bool} {l l' : List α} {ls : List (List α)} {n : ℕ}

/-! ## Lines -/

section Lines

variable [DecidableEq α] {nl : α}

/-- **The lines of a text**, each with the newline it ends in. -/
def lines (nl : α) : List α → List (List α)
  | [] => []
  | c :: cs =>
    if c = nl then [c] :: lines nl cs
    else match lines nl cs with
      | [] => [[c]]
      | l :: ls => (c :: l) :: ls

/-- **What is taken at once**: up to a newline, up to so many characters, up to the end. -/
def stretch (nl : α) : ℕ → List α → List α
  | 0, _ => []
  | _ + 1, [] => []
  | n + 1, c :: cs => if c = nl then [c] else c :: stretch nl n cs

theorem lines_eq_nil : lines nl l = [] ↔ l = [] := by
  refine ⟨fun h => ?_, fun h => by rw [h, lines]⟩
  cases l with
  | nil => rfl
  | cons c cs =>
    rw [lines] at h
    split at h
    · exact absurd h (List.cons_ne_nil _ _)
    · split at h <;> exact absurd h (List.cons_ne_nil _ _)

/-- **A reader that has room for the line takes the line**, and leaves the other lines. -/
theorem stretch_eq (h : lines nl l = l' :: ls) (hn : l'.length ≤ n) :
    stretch nl n l = l' ∧ lines nl (l.drop l'.length) = ls := by
  induction l generalizing l' n with
  | nil => exact absurd h.symm (List.cons_ne_nil _ _)
  | cons c cs ih =>
    rw [lines] at h
    split at h
    case isTrue hc =>
      obtain ⟨rfl, rfl⟩ := List.cons.inj h
      obtain ⟨n, rfl⟩ := Nat.exists_eq_add_of_le' hn
      exact ⟨if_pos hc, rfl⟩
    case isFalse hc =>
      split at h
      case h_1 hcs =>
        obtain ⟨rfl, rfl⟩ := List.cons.inj h
        obtain ⟨n, rfl⟩ := Nat.exists_eq_add_of_le' hn
        obtain rfl := lines_eq_nil.mp hcs
        refine ⟨?_, rfl⟩
        rw [List.length_singleton, stretch, if_neg hc]
        cases n <;> rfl
      case h_2 l ls' hcs =>
        obtain ⟨rfl, rfl⟩ := List.cons.inj h
        obtain ⟨n, rfl⟩ := Nat.exists_eq_add_of_le' (Nat.zero_lt_of_lt hn)
        obtain ⟨hs, hd⟩ := ih hcs (Nat.le_of_succ_le_succ hn)
        exact ⟨by rw [stretch, if_neg hc, hs], hd⟩

/-- **The lines are the text**, in order. -/
theorem flatten_lines (nl : α) (l : List α) : (lines nl l).flatten = l := by
  induction l with
  | nil => rfl
  | cons c cs ih =>
    rw [lines]
    split
    · rw [List.flatten_cons, ih, List.singleton_append]
    · split
      case h_1 hcs => rw [lines_eq_nil.mp hcs, List.flatten_singleton]
      case h_2 hcs => rw [List.flatten_cons, List.cons_append, ← List.flatten_cons, ← hcs, ih]

/-- **What ends in its only newline is a line.** -/
theorem lines_line (h : nl ∉ l) (l' : List α) :
    lines nl (l ++ [nl] ++ l') = (l ++ [nl]) :: lines nl l' := by
  induction l with
  | nil => exact if_pos rfl
  | cons c cs ih =>
    obtain ⟨hc, hcs⟩ := not_or.mp (mt List.mem_cons.mpr h)
    rw [List.cons_append, List.cons_append, lines, if_neg (Ne.symm hc), ih hcs]

/-- A line has no other characters than the text. -/
theorem mem_of_mem_lines {c : α} (h : l' ∈ lines nl l) (hc : c ∈ l') : c ∈ l := by
  rw [← flatten_lines nl l]
  exact List.mem_flatten.mpr ⟨l', h, hc⟩

/-- No line is empty. -/
theorem ne_nil_of_mem_lines (h : l' ∈ lines nl l) : l' ≠ [] := by
  induction l generalizing l' with
  | nil => exact absurd h List.not_mem_nil
  | cons d cs ih =>
    rw [lines] at h
    split at h
    case isTrue =>
      rcases List.mem_cons.mp h with rfl | h
      · exact List.cons_ne_nil _ _
      · exact ih h
    case isFalse =>
      split at h
      case h_1 =>
        obtain rfl := List.mem_singleton.mp h
        exact List.cons_ne_nil _ _
      case h_2 l ls' hcs =>
        rcases List.mem_cons.mp h with rfl | h
        · exact List.cons_ne_nil _ _
        · exact ih (hcs ▸ List.mem_cons_of_mem _ h)

end Lines

/-! ## Stripping -/

/-- **The text without what surrounds it.** -/
def strip (p : α → Bool) (l : List α) : List α := (l.dropWhile p).rdropWhile p

/-- Where dropping stopped. -/
theorem dropWhile_head {c : α} {cs : List α} (h : l.dropWhile p = c :: cs) : p c = false := by
  have := List.head_dropWhile_not p (l := l) (h ▸ List.cons_ne_nil c cs)
  simpa only [h, List.head_cons] using this

/-- What the shorter walk drops, the longer one drops too. -/
theorem dropWhile_dropWhile (h : ∀ c, q c = true → p c = true) :
    (l.dropWhile q).dropWhile p = l.dropWhile p := by
  induction l with
  | nil => rfl
  | cons c l ih =>
    by_cases hq : q c = true
    · rw [List.dropWhile_cons_of_pos hq, ih, List.dropWhile_cons_of_pos (h c hq)]
    · rw [List.dropWhile_cons_of_neg hq]

/-- **What comes before a mark is stripped in either order**: the line first or the field first,
when no blank is a mark. -/
theorem dropWhile_takeWhile (h : ∀ c, q c = true → p c = true) :
    (l.takeWhile p).dropWhile q = (l.dropWhile q).takeWhile p := by
  induction l with
  | nil => rfl
  | cons c l ih =>
    by_cases hq : q c = true
    · rw [List.takeWhile_cons_of_pos (h c hq), List.dropWhile_cons_of_pos hq, ih,
        List.dropWhile_cons_of_pos hq]
    · rw [List.dropWhile_cons_of_neg hq]
      by_cases hp : p c = true
      · rw [List.takeWhile_cons_of_pos hp, List.dropWhile_cons_of_neg hq]
      · rw [List.takeWhile_cons_of_neg hp, List.dropWhile_nil]

/-- A walk over all of `l` and none of what follows. -/
theorem dropWhile_append_stop {l v : List α} (hl : ∀ c ∈ l, p c = true)
    (hv : ∀ c ∈ v.head?, p c = false) : (l ++ v).dropWhile p = v := by
  rw [List.dropWhile_append_of_pos hl]
  cases v with
  | nil => rfl
  | cons c v => rw [List.dropWhile_cons_of_neg (by rw [hv c rfl]; exact Bool.false_ne_true)]

theorem takeWhile_append_stop {l v : List α} (hl : ∀ c ∈ l, p c = true)
    (hv : ∀ c ∈ v.head?, p c = false) : (l ++ v).takeWhile p = l := by
  rw [List.takeWhile_append_of_pos hl]
  cases v with
  | nil => rw [List.takeWhile_nil, List.append_nil]
  | cons c v =>
    rw [List.takeWhile_cons_of_neg (by rw [hv c rfl]; exact Bool.false_ne_true), List.append_nil]

/-- **Text that neither starts nor ends with a blank**, and is there. -/
structure Bare (p : α → Bool) (l : List α) : Prop where
  ne_nil : l ≠ []
  first : ∀ c ∈ l.head?, p c = false
  last : ∀ c ∈ l.getLast?, p c = false

/-- **What blanks surround is what is left of it.** -/
theorem strip_surrounded {u l v : List α} (h : Bare p l) (hu : ∀ c ∈ u, p c = true)
    (hv : ∀ c ∈ v, p c = true) : strip p (u ++ l ++ v) = l := by
  have hhead : ∀ c ∈ (l ++ v).head?, p c = false := fun c hc => by
    rw [List.head?_append_of_ne_nil _ h.ne_nil] at hc
    exact h.first c hc
  rw [strip, List.append_assoc, dropWhile_append_stop hu hhead, List.rdropWhile,
    List.reverse_append, dropWhile_append_stop (fun c hc => hv c (List.mem_reverse.mp hc)),
    List.reverse_reverse]
  rw [List.head?_reverse]
  exact h.last

end Machinery
