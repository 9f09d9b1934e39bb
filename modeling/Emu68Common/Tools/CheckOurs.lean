import Emu68Common.Machinery.Search
import Emu68Common.Machinery.Text

/-!
# Tools/CheckOurs — `check_ours`, whose build a file is

The file comes in the pieces `Read()` makes of it, and `matched` goes from one piece into the next;
the scan is therefore one pass over the whole content (`readLoop_eq`), and finds the tag wherever
it is.

    what `Read()` returns     some piece        so many bytes
                              some []           the end of the file
                              none              an error
-/

namespace CheckOurs

open Machinery

variable {tag : CString} {chunks : List (List UInt8)} {matched : ℕ}

/-! ## The source -/

/-- What is returned. -/
def RETURN_OK : ℕ := 0
def RETURN_WARN : ℕ := 5
def RETURN_ERROR : ℕ := 10

/-- `tag[i]`, its NUL behind it. -/
def tagAt (tag : CString) (i : ℕ) : UInt8 := tag.bytes.getD i 0

/-- `for (i = 0; i < got && !found; i++)`: `found` and `matched` after it. -/
def scanLoop (tag : CString) : List UInt8 → ℕ → Bool × ℕ
  | [], matched => (false, matched)
  | c :: buf, matched =>
    let matched :=
      if c = tagAt tag matched then matched + 1
      else if c = tagAt tag 0 then 1 else 0
    if tagAt tag matched = 0 then (true, matched) else scanLoop tag buf matched

/-- `while (!found && (got = Read(fh, buf, sizeof(buf))) > 0)`: `found` after it.  Behind its last
piece the file is at its end. -/
def readLoop (tag : CString) : List (Option (List UInt8)) → ℕ → Bool
  | [], _ => false
  | none :: _, _ => false
  | some buf :: reads, matched =>
    if buf.length > 0 then
      let (found, matched) := scanLoop tag buf matched
      if found then true else readLoop tag reads matched
    else
      false

/-- **`check_ours(path, tag)`** for a file that `Open()` finds or not. -/
def checkOurs (fh : Option (List (Option (List UInt8)))) (tag : CString) : ℕ :=
  match fh with
  | none => RETURN_ERROR
  | some reads => if readLoop tag reads 0 then RETURN_OK else RETURN_WARN

/-- **A tag**: not empty, and its first character does not recur in it. -/
structure Tag extends CString where
  nonempty : bytes ≠ []
  fresh : Fresh bytes

/-- The tags of `main`. -/
def lwipAmiga : Tag where
  bytes := "lwip-amiga".toList.map Char.toUInt8
  nul_free := by decide
  nonempty := by decide
  fresh := by
    rintro c ⟨rfl⟩
    decide

def bcmpcie : Tag where
  bytes := "bcmpcie".toList.map Char.toUInt8
  nul_free := by decide
  nonempty := by decide
  fresh := by
    rintro c ⟨rfl⟩
    decide

/-! ## One pass -/

/-- A character of the tag is never its NUL. -/
theorem tagAt_eq_zero (h : matched ≤ tag.bytes.length) :
    tagAt tag matched = 0 ↔ matched = tag.bytes.length := by
  refine ⟨fun hzero => ?_, fun heq => ?_⟩
  · by_contra hne
    have hlt := lt_of_le_of_ne h hne
    rw [tagAt, List.getD_eq_getElem _ _ hlt] at hzero
    exact tag.nul_free (hzero ▸ List.getElem_mem hlt)
  · rw [heq, tagAt, List.getD_eq_default _ _ le_rfl]

theorem eq_tagAt {c : UInt8} (h : matched < tag.bytes.length) :
    c = tagAt tag matched ↔ tag.bytes[matched]? = some c := by
  rw [tagAt, List.getD_eq_getElem _ _ h, List.getElem?_eq_getElem h, Option.some.injEq]
  exact eq_comm

/-- The loop over one buffer takes the pass through it. -/
theorem scanLoop_eq (buf : List UInt8) (h : matched < tag.bytes.length) :
    (scanLoop tag buf matched).1 = (seek tag.bytes matched buf).isNone ∧
      ∀ m ∈ seek tag.bytes matched buf,
        (scanLoop tag buf matched).2 = m ∧ m < tag.bytes.length := by
  induction buf generalizing matched with
  | nil => exact ⟨rfl, fun m hm => ⟨Option.some.inj hm, Option.some.inj hm ▸ h⟩⟩
  | cons c buf ih =>
    have hpos : 0 < tag.bytes.length := Nat.zero_lt_of_lt h
    have hstep : (if c = tagAt tag matched then matched + 1 else if c = tagAt tag 0 then 1 else 0)
        = advance tag.bytes matched c := by
      rw [advance, List.head?_eq_getElem?]
      simp only [eq_tagAt h, eq_tagAt hpos]
    have hle : advance tag.bytes matched c ≤ tag.bytes.length := by
      rw [advance]
      split_ifs <;> omega
    rw [scanLoop, hstep, seek]
    simp only [tagAt_eq_zero hle]
    split_ifs with hfound
    · exact ⟨rfl, fun m hm => absurd hm (Option.not_mem_none m)⟩
    · exact ih (lt_of_le_of_ne hle hfound)

/-- **The pieces are one pass over the content.** -/
theorem readLoop_eq (h : matched < tag.bytes.length) (hchunks : ∀ chunk ∈ chunks, chunk ≠ []) :
    readLoop tag (chunks.map some) matched = (seek tag.bytes matched chunks.flatten).isNone := by
  induction chunks generalizing matched with
  | nil => rfl
  | cons chunk chunks ih =>
    obtain ⟨hchunk, hrest⟩ := List.forall_mem_cons.mp hchunks
    obtain ⟨hfound, hmatched⟩ := scanLoop_eq chunk h
    rw [List.map_cons, readLoop, if_pos (List.length_pos_iff.mpr hchunk), List.flatten_cons,
      seek_append]
    cases hseek : seek tag.bytes matched chunk with
    | none =>
      rw [hseek] at hfound
      simp [hfound]
    | some m =>
      rw [hseek] at hfound hmatched
      obtain ⟨hm, hlt⟩ := hmatched m rfl
      simp only [hfound, hm, Option.isNone_some, Option.bind_some]
      exact ih hlt hrest

/-- **The scan finds a tag exactly when it is there**, however `Read()` splits the file. -/
theorem check_ours_iff (tag : Tag) (hchunks : ∀ chunk ∈ chunks, chunk ≠ [] ∧ chunk.length ≤ 4096) :
    (checkOurs (some (chunks.map some)) tag.toCString = RETURN_OK ↔
      tag.bytes <:+: chunks.flatten) ∧
    (¬ tag.bytes <:+: chunks.flatten →
      checkOurs (some (chunks.map some)) tag.toCString = RETURN_WARN) := by
  have hrun : readLoop tag.toCString (chunks.map some) 0 = _ :=
    readLoop_eq (List.length_pos_iff.mpr tag.nonempty) fun chunk h => (hchunks chunk h).1
  have hseek := seek_zero tag.fresh tag.nonempty chunks.flatten
  rw [checkOurs, hrun, ← hseek]
  cases seek tag.bytes 0 chunks.flatten <;> simp [RETURN_OK, RETURN_WARN]

theorem check_ours_iff_split :
    checkOurs (some ([[0, 98, 99, 109], [112, 99, 98], [99, 109, 112, 99, 105, 101]].map some))
      bcmpcie.toCString = RETURN_OK :=
  (check_ours_iff bcmpcie (by decide)).1.mpr (by decide)

end CheckOurs
