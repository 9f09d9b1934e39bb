import Emu68Common.Prefs.Split
import Mathlib.Data.List.GetD

/-!
# Prefs/File — `prefs_next`, a prefs file line by line

`prefs_next` reads lines into the 300 bytes of its `struct prefs_file` until `prefs_split` finds a
setting in one.  The pointers it hands out go into those bytes, and the caller may cut up what they
point at before the next call.  `calls_yield_settings`: the calls answer with the settings of the
file's lines, in order, and with FALSE from then on.

    Dos                      dos.library, as far as `FGets` goes
    prefs_next dos n f       one call, if `n` rounds are enough for it
    calls dos cut n k f      what `k` calls answer, with the caller's writes between them
    settings file            what the lines of the file say
-/

namespace Prefs

open Machinery

/-! ## dos.library -/

/-- `FGets(fh, buf, buflen)`: it takes bytes up to a newline, up to `buflen - 1` of them or up to
the end of the file, and ends them in a NUL; at the end of the file it returns NULL. -/
structure Dos where
  fGets : List UInt8 → Block → ℕ → Option (List UInt8 × Block)
  fGets_eof : ∀ buf len, fGets [] buf len = none
  fGets_line : ∀ rest buf len, rest ≠ [] → 1 < len → ∃ buf',
    fGets rest buf len = some (rest.drop (stretch 0x0a (len - 1) rest).length, buf') ∧
      (∀ i (hi : i < (stretch 0x0a (len - 1) rest).length),
        buf' i = (stretch 0x0a (len - 1) rest)[i]) ∧
      buf' (stretch 0x0a (len - 1) rest).length = 0

/-- `struct prefs_file`: what is left of the file behind `fh`, and `line`. -/
structure PrefsFile where
  rest : List UInt8
  line : Block

/-- `sizeof(f->line)`. -/
def lineSize : ℕ := 300

/-- `prefs_next(f, &key, &val)`, if so many rounds of its loop are enough. -/
def prefsNext (dos : Dos) : ℕ → PrefsFile → Option (PrefsFile × Option (ℕ × ℕ))
  | 0, _ => none
  | n + 1, f =>
    match dos.fGets f.rest f.line lineSize with
    | none => some (f, none)
    | some (rest, line) =>
      match prefsSplit lineSize line 0 with
      | none => none
      | some (line, some (key, val)) => some (⟨rest, line⟩, some (key, val))
      | some (line, none) => prefsNext dos n ⟨rest, line⟩

/-- What the caller reads through the two pointers. -/
def answer (f : PrefsFile) : Option (ℕ × ℕ) → Option Setting
  | none => none
  | some (key, val) => some (f.line.read lineSize key, f.line.read lineSize val)

/-- **So many calls in a row**, and what each answers; after the answer the caller may write what
it likes into the line. -/
def calls (dos : Dos) (cut : ℕ → Block → Block) (n : ℕ) : ℕ → PrefsFile →
    Option (List (Option Setting))
  | 0, _ => some []
  | k + 1, f =>
    match prefsNext dos n f with
    | none => none
    | some (f, r) => (calls dos cut n k ⟨f.rest, cut k f.line⟩).map (answer f r :: ·)

/-- **What a file says**, line by line. -/
def settings (file : List UInt8) : List Setting := (lines 0x0a file).filterMap setting

/-- The lines fit, and there is no NUL in them. -/
structure Fits (file : List UInt8) : Prop where
  nul_free : (0 : UInt8) ∉ file
  short : ∀ l ∈ lines 0x0a file, l.length ≤ lineSize - 1

section Calls

variable {file l : List UInt8} {ls : List (List UInt8)} {key val : List UInt8} {n k : ℕ}

/-! ## One call -/

/-- The halves are no longer than the line. -/
theorem setting_length (h : setting l = some (key, val)) :
    key.length ≤ l.length ∧ val.length ≤ l.length := by
  have hstrip : ∀ l : List UInt8, (strip isBlank l).length ≤ l.length := fun l =>
    (List.rdropWhile_prefix _ _).length_le.trans (List.dropWhile_suffix _).length_le
  have htext : (l.takeWhile fun c => !isEol c).length ≤ l.length :=
    (List.takeWhile_prefix _).length_le
  rw [setting] at h
  generalize (l.takeWhile fun c => !isEol c) = text at *
  split at h
  · cases h
  · split at h
    · cases h
    · split at h
      case h_1 => cases h
      case h_2 after hd =>
        have hafter : after.length ≤ text.length := by
          have := (List.dropWhile_suffix (· != 0x3d) (l := text)).length_le
          rw [hd, List.length_cons] at this
          exact Nat.le_of_succ_le this
        dsimp only at h
        split at h
        · cases h
        · cases h
          exact ⟨((hstrip _).trans (List.takeWhile_prefix _).length_le).trans htext,
            ((hstrip _).trans hafter).trans htext⟩

/-- What a line's pointers stand at is what the caller reads. -/
theorem answer_eq {f : PrefsFile} {r : Option (ℕ × ℕ)} (h : Holds f.line r (setting l))
    (hl : l.length ≤ lineSize - 1) : answer f r = setting l := by
  cases hs : setting l with
  | none =>
    cases r with
    | none => rfl
    | some r =>
      rw [hs] at h
      exact False.elim h
  | some s =>
    cases r with
    | none =>
      rw [hs] at h
      exact False.elim h
    | some r =>
      rw [hs] at h
      obtain ⟨hk, hv⟩ := setting_length hs
      have hsize : lineSize - 1 ≤ lineSize := Nat.sub_le _ _
      exact congrArg some (Prod.ext (h.1.read_eq (hk.trans (hl.trans hsize)))
        (h.2.read_eq (hv.trans (hl.trans hsize))))

/-- `FGets` brings the next line. -/
theorem fGets_eq (dos : Dos) (line : Block) (hf : Fits file)
    (hls : lines 0x0a file = l :: ls) : ∃ line',
    dos.fGets file line lineSize = some (file.drop l.length, line') ∧ line'.Text 0 l := by
  have hmem : l ∈ lines 0x0a file := hls ▸ List.mem_cons_self
  have hne : file ≠ [] := fun h => by
    rw [lines_eq_nil.mpr h] at hls
    cases hls
  obtain ⟨line', hget, htext, hend⟩ := dos.fGets_line file line lineSize hne (by decide)
  rw [(stretch_eq hls (hf.short l hmem)).1] at hget htext hend
  refine ⟨line', hget, Block.Text.intro (fun h0 => hf.nul_free (mem_of_mem_lines hmem h0))
    (fun i hi => ?_) ?_⟩
  · rw [Nat.zero_add]
    exact htext i hi
  · rwa [Nat.zero_add]

/-- The file behind its first line. -/
theorem Fits.tail (hf : Fits file) (hls : lines 0x0a file = l :: ls) :
    lines 0x0a (file.drop l.length) = ls ∧ Fits (file.drop l.length) ∧
      (file.drop l.length).length < file.length := by
  have hmem : l ∈ lines 0x0a file := hls ▸ List.mem_cons_self
  have hd := (stretch_eq hls le_rfl).2
  have hpos : 0 < l.length := List.length_pos_iff.mpr (ne_nil_of_mem_lines hmem)
  have hlen : 0 < file.length :=
    List.length_pos_iff.mpr fun h => by rw [lines_eq_nil.mpr h] at hls; cases hls
  refine ⟨hd, ⟨fun h0 => hf.nul_free (List.mem_of_mem_drop h0), fun l' hl' => ?_⟩, ?_⟩
  · rw [hd] at hl'
    exact hf.short l' (hls ▸ List.mem_cons_of_mem _ hl')
  · rw [List.length_drop]
    omega

/-- **One call answers with the first setting of what is left**, and leaves the rest of them. -/
theorem prefsNext_eq (dos : Dos) (line : Block) (hf : Fits file) (hn : file.length < n) : ∃ f r,
    prefsNext dos n ⟨file, line⟩ = some (f, r) ∧ answer f r = (settings file).head? ∧
      settings f.rest = (settings file).tail ∧ Fits f.rest ∧ f.rest.length ≤ file.length := by
  induction n generalizing file line with
  | zero => exact absurd hn (Nat.not_lt_zero _)
  | succ n ih =>
    cases hls : lines 0x0a file with
    | nil =>
      obtain rfl := lines_eq_nil.mp hls
      exact ⟨⟨[], line⟩, none, by rw [prefsNext, dos.fGets_eof], rfl, rfl, hf, le_rfl⟩
    | cons l ls =>
      obtain ⟨line', hget, htext⟩ := fGets_eq dos line hf hls
      obtain ⟨hd, hf', hlt⟩ := hf.tail hls
      have hl : l.length ≤ lineSize - 1 := hf.short l (hls ▸ List.mem_cons_self)
      obtain ⟨line'', r, hsplit, hr⟩ := prefsSplit_eq htext (n := lineSize)
        (Nat.lt_of_le_of_lt hl (by decide))
      have hsettings : settings file =
          (setting l).toList ++ settings (file.drop l.length) := by
        rw [settings, hls, settings, hd, List.filterMap_cons]
        cases setting l <;> rfl
      cases r with
      | none =>
        have hnone : setting l = none := (answer_eq (f := ⟨[], line''⟩) hr hl).symm
        obtain ⟨f, r, hcall, ha, hs, hfit, hle⟩ := ih line'' hf' (by omega)
        rw [hnone, Option.toList_none, List.nil_append] at hsettings
        rw [hsettings]
        refine ⟨f, r, ?_, ha, hs, hfit, hle.trans hlt.le⟩
        rw [prefsNext, hget]
        simp only [hsplit]
        exact hcall
      | some r =>
        have ha := answer_eq (f := ⟨file.drop l.length, line''⟩) hr hl
        cases hs : setting l with
        | none =>
          rw [hs] at hr
          exact False.elim hr
        | some s =>
          rw [hs, Option.toList_some, List.singleton_append] at hsettings
          rw [hsettings]
          refine ⟨⟨file.drop l.length, line''⟩, some r, ?_, ha.trans hs, rfl, hf', hlt.le⟩
          rw [prefsNext, hget]
          simp only [hsplit]

/-! ## Many calls -/

/-- **A prefs file yields its settings**: in the order of the file, each once, and FALSE after the
last, whatever the caller writes into the line between two calls. -/
theorem calls_yield_settings (dos : Dos) (cut : ℕ → Block → Block) (file : List UInt8)
    (line : Block) (n k : ℕ)
    (hf : Fits file) (hn : file.length < n) :
    calls dos cut n k ⟨file, line⟩ = some ((List.range k).map fun i => (settings file)[i]?) := by
  induction k generalizing file line with
  | zero => rfl
  | succ k ih =>
    obtain ⟨f, r, hcall, ha, hs, hf', hle⟩ := prefsNext_eq dos line hf hn
    rw [calls, hcall]
    simp only
    rw [ih f.rest (cut k f.line) hf' (by omega), hs, ha, Option.map_some, List.range_succ_eq_map,
      List.map_cons, List.map_map, List.head?_eq_getElem?]
    simp only [Function.comp_def, List.getElem?_tail, Nat.succ_eq_add_one]

/-- A dos.library that writes nothing but the line and its NUL. -/
def plainDos : Dos where
  fGets rest buf len :=
    if rest = [] then none
    else
      let got := stretch 0x0a (len - 1) rest
      some (rest.drop got.length, fun i => if i = got.length then 0 else got.getD i (buf i))
  fGets_eof _ _ := if_pos rfl
  fGets_line rest buf len hne _ := by
    refine ⟨_, if_neg hne, fun i hi => ?_, if_pos rfl⟩
    rw [if_neg (Nat.ne_of_lt hi), List.getD_eq_getElem _ _ hi]

/-- A comment, a setting, and a setting without a newline behind it, read by a caller that fills the
line with `=` after each call. -/
theorem calls_yield_settings_three :
    calls plainDos (fun _ _ _ => 0x3d) 30 3 ⟨"# no = 1\n a = b\r\n\nc=\td ".toUTF8.toList,
      fun _ => 0⟩ =
      some [some ([0x61], [0x62]), some ([0x63], [0x64]), none] :=
  (calls_yield_settings plainDos (fun _ _ _ => 0x3d) _ (fun _ => 0) 30 3
    ⟨by decide +kernel, by decide +kernel⟩ (by decide +kernel)).trans (by decide +kernel)

end Calls

end Prefs
