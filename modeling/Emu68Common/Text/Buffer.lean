import Emu68Common.Text.Live

/-!
# Text/Buffer — printing into a buffer of a given size

`_VSNPrintf` and `_SNPrintfArgs` hand the engine a `putch` that counts every character and stores it
while there is room.  After any part of the output the count is its length and the buffer has as
much of it as fits (`FmtBuf.after`), so at the end the buffer has the first `bufsize - 1` characters
and a NUL behind them, and the length comes back whatever was cut off (`snprintf_exact`).

    FmtBuf                       `struct fmt_buf`, and the memory its cursor points into
    output n mem fmt cells       the full output
    printed mem b k s            the memory with `s` printed to `b`, `k` bytes long
-/

namespace Printf

open Machinery

variable {σ : Type} {mem : Block} {n buffer bufsize : ℕ} {s : List UInt8}

/-! ## The front ends -/

/-- Argument cells from here on: what a `va_list` still has, or what stands in an array. -/
abbrev Cells : Type := ℕ → BitVec 32

/-- `fmt_next_va`: `va_arg(ap, ULONG)`. -/
def fmtNextVa (ap : Cells) : BitVec 32 × Cells := (ap 0, fun i => ap (i + 1))

/-- `fmt_next_vec`: `*args++`. -/
def fmtNextVec (args : Cells) : BitVec 32 × Cells := (args 0, fun i => args (i + 1))

/-- `fmt_vformat`. -/
def fmtVformat (putch : UInt8 → σ → σ) (mem : σ → Block) (n : ℕ) (out : σ) (fmt : CString)
    (ap : Cells) : Option σ :=
  (liveCore ⟨putch, fmtNextVa, mem⟩ n fmt.bytes out ap).map Prod.fst

/-- `fmt_aformat`. -/
def fmtAformat (putch : UInt8 → σ → σ) (mem : σ → Block) (n : ℕ) (out : σ) (fmt : CString)
    (args : Cells) : Option σ :=
  (liveCore ⟨putch, fmtNextVec, mem⟩ n fmt.bytes out args).map Prod.fst

/-- **`struct fmt_buf`**, with memory: `room` is how many characters can still be stored, the
terminator's slot excluded. -/
structure FmtBuf where
  mem : Block
  cursor : ℕ
  room : ℕ
  length : ℤ

/-- `fmt_buf_putch`. -/
def fmtBufPutch (c : UInt8) (b : FmtBuf) : FmtBuf :=
  let b := { b with length := long (b.length + 1) }
  if 0 < b.room then
    { b with mem := Function.update b.mem b.cursor c, cursor := b.cursor + 1, room := b.room - 1 }
  else b

/-- `fmt_buf_init`. -/
def fmtBufInit (mem : Block) (buffer bufsize : ℕ) : FmtBuf :=
  ⟨mem, buffer, if buffer ≠ 0 ∧ bufsize ≠ 0 then bufsize - 1 else 0, 0⟩

/-- `fmt_buf_done`: the length, and the memory with the terminator. -/
def fmtBufDone (b : FmtBuf) (buffer bufsize : ℕ) : ℤ × Block :=
  (b.length, if buffer ≠ 0 ∧ bufsize ≠ 0 then Function.update b.mem b.cursor 0 else b.mem)

/-- **`_VSNPrintf(buffer, bufsize, fmt, args)`**: what it returns, and the memory it leaves. -/
def vsnPrintf (n : ℕ) (mem : Block) (buffer bufsize : ℕ) (fmt : Option CString) (args : Cells) :
    Option (ℤ × Block) := do
  let b := fmtBufInit mem buffer bufsize
  let b ← match fmt with
    | some fmt => fmtVformat fmtBufPutch FmtBuf.mem n b fmt args
    | none => some b
  return fmtBufDone b buffer bufsize

/-- **`_SNPrintfArgs(buffer, bufsize, fmt, args)`.** -/
def snPrintfArgs (n : ℕ) (mem : Block) (buffer bufsize : ℕ) (fmt : Option CString)
    (args : Cells) : Option (ℤ × Block) := do
  let b := fmtBufInit mem buffer bufsize
  let b ← match fmt with
    | some fmt => fmtAformat fmtBufPutch FmtBuf.mem n b fmt args
    | none => some b
  return fmtBufDone b buffer bufsize

/-! ## The full output -/

/-- A front end that keeps all of the output, and leaves memory alone. -/
def keeper (mem : Block) : Engine (List UInt8) Cells := ⟨fun c out => out ++ [c], fmtNextVa, mem⟩

/-- **The full output** of a format, nothing for `NULL`. -/
def output (n : ℕ) (mem : Block) (fmt : Option CString) (cells : Cells) : Option (List UInt8) :=
  match fmt with
  | some fmt => (fmtCore (keeper mem) n fmt.bytes [] cells).map Prod.fst
  | none => some []

/-- Off the buffer, if there is one. -/
def OffBuffer (buffer bufsize : ℕ) (i : ℕ) : Prop :=
  buffer = 0 ∨ i < buffer ∨ buffer + bufsize ≤ i

/-- **No string argument lies in the buffer.** -/
def Away (n : ℕ) (mem : Block) (fmt : Option CString) (cells : Cells) (buffer bufsize : ℕ) : Prop :=
  ∀ f ∈ fmt, NoAlias (keeper mem) (OffBuffer buffer bufsize) n f.bytes cells

theorem Away.mono {fmt : Option CString} {cells : Cells} {size : ℕ}
    (h : Away n mem fmt cells buffer bufsize) (hsize : size ≤ bufsize) :
    Away n mem fmt cells buffer size :=
  fun f hf => (h f hf).mono fun _ hoff => hoff.imp_right fun hout =>
    hout.imp_right (Nat.add_le_add_left hsize buffer).trans

/-! ## What the buffer has -/

/-- **The front end's state after some output**: what fits is stored, all of it is counted. -/
def FmtBuf.after (mem : Block) (buffer room : ℕ) (t : List UInt8) : FmtBuf where
  mem := mem.put buffer (t.take room)
  cursor := buffer + (t.take room).length
  room := room - t.length
  length := long t.length

theorem long_succ (z : ℤ) : long (long z + 1) = long (z + 1) := Int.bmod_add_bmod

/-- **One more character**: it is stored if it fits, and counted. -/
theorem fmtBufPutch_after (mem : Block) (buffer room : ℕ) (t : List UInt8) (c : UInt8) :
    fmtBufPutch c (.after mem buffer room t) = .after mem buffer room (t ++ [c]) := by
  have hlen : (t ++ [c]).length = t.length + 1 := List.length_append
  rw [fmtBufPutch, FmtBuf.after, FmtBuf.after, hlen]
  dsimp only
  rw [long_succ, Nat.cast_succ]
  by_cases hroom : t.length < room
  · have hfits : t.take room = t := List.take_of_length_le hroom.le
    have hfits' : (t ++ [c]).take room = t ++ [c] := List.take_of_length_le (by omega)
    rw [if_pos (Nat.sub_pos_of_lt hroom), hfits, hfits', Block.update_put, hlen, Nat.sub_sub,
      Nat.add_assoc]
  · have hfull : (t ++ [c]).take room = t.take room :=
      List.take_append_of_le_length (Nat.le_of_not_lt hroom)
    rw [if_neg (by omega), hfull, Nat.sub_eq_zero_of_le (Nat.le_of_not_lt hroom),
      Nat.sub_eq_zero_of_le (by omega)]

/-- Nothing has been put out yet. -/
theorem fmtBufInit_eq (mem : Block) (buffer bufsize : ℕ) : fmtBufInit mem buffer bufsize
    = .after mem buffer (if buffer ≠ 0 ∧ bufsize ≠ 0 then bufsize - 1 else 0) [] := by
  rw [fmtBufInit, FmtBuf.after, List.take_nil, Block.put_nil]
  rfl

/-- **The memory with this printed to a buffer of this size.** -/
def printed (mem : Block) (buffer bufsize : ℕ) (s : List UInt8) : Block :=
  if buffer ≠ 0 ∧ bufsize ≠ 0 then mem.put buffer (s.take (bufsize - 1) ++ [0]) else mem

theorem fmtBufDone_after (hL : s.length < 2 ^ 31) : fmtBufDone
    (.after mem buffer (if buffer ≠ 0 ∧ bufsize ≠ 0 then bufsize - 1 else 0) s) buffer bufsize
      = ((s.length : ℤ), printed mem buffer bufsize s) := by
  rw [fmtBufDone, printed, FmtBuf.after]
  dsimp only
  rw [long_eq (by omega) (by omega)]
  by_cases hb : buffer ≠ 0 ∧ bufsize ≠ 0
  · simp only [if_pos hb]
    rw [Block.update_put]
  · simp only [if_neg hb]
    rw [List.take_zero, Block.put_nil]

/-- **The front end follows the one that keeps everything.** -/
theorem fmt_buf_follows (mem : Block) (buffer bufsize : ℕ) :
    Live.Follows ⟨fmtBufPutch, fmtNextVa, FmtBuf.mem⟩ (keeper mem)
      (.after mem buffer (if buffer ≠ 0 ∧ bufsize ≠ 0 then bufsize - 1 else 0))
      (OffBuffer buffer bufsize) where
  putch c t := fmtBufPutch_after mem buffer _ t c
  next := rfl
  mem t i hi := by
    by_cases hb : buffer ≠ 0 ∧ bufsize ≠ 0
    · rw [if_pos hb]
      have hle := List.length_take_le (bufsize - 1) t
      exact Block.put_of_off ((hi.resolve_left hb.1).imp_right fun h => by omega)
    · rw [if_neg hb, FmtBuf.after, List.take_zero, Block.put_nil]
      rfl

/-- **`_VSNPrintf` prints the output to the buffer.** -/
theorem vsnprintf_eq {fmt : Option CString} {args : Cells} (hs : output n mem fmt args = some s)
    (hL : s.length < 2 ^ 31) (hno : Away n mem fmt args buffer bufsize) :
    vsnPrintf n mem buffer bufsize fmt args
      = some ((s.length : ℤ), printed mem buffer bufsize s) := by
  unfold vsnPrintf
  rw [fmtBufInit_eq]
  cases fmt with
  | none =>
    obtain rfl := Option.some.inj hs
    exact congrArg some (fmtBufDone_after hL)
  | some f =>
    obtain ⟨⟨t, rest⟩, hcore, rfl⟩ := Option.map_eq_some_iff.mp hs
    have hlive := liveCore_eq (t := []) (fmt_buf_follows mem buffer bufsize) (hno f rfl)
    rw [hcore] at hlive
    dsimp only
    rw [fmtVformat, hlive]
    exact congrArg some (fmtBufDone_after hL)

/-- An array of cells is taken like a `va_list`. -/
theorem snprintfArgs_eq (n : ℕ) (mem : Block) (buffer bufsize : ℕ) (fmt : Option CString)
    (args : Cells) : snPrintfArgs n mem buffer bufsize fmt args
      = vsnPrintf n mem buffer bufsize fmt args := rfl

/-- **What a buffer of some size has**: as much as fits, a NUL behind it, nothing beyond. -/
theorem printed_spec (mem : Block) (s : List UInt8) (hb : buffer ≠ 0) (hk : bufsize ≠ 0) :
    (printed mem buffer bufsize s).bytes buffer (min s.length (bufsize - 1))
        = s.take (bufsize - 1) ∧
      printed mem buffer bufsize s (buffer + min s.length (bufsize - 1)) = 0 ∧
      ∀ i, i < buffer ∨ buffer + min s.length (bufsize - 1) < i →
        printed mem buffer bufsize s i = mem i := by
  have hlen : (s.take (bufsize - 1)).length = min s.length (bufsize - 1) :=
    List.length_take.trans (min_comm _ _)
  rw [printed, if_pos ⟨hb, hk⟩]
  refine ⟨?_, ?_, fun i hi => Block.put_of_off (hi.imp_right fun h => ?_)⟩
  · rw [Block.bytes_put, ← hlen, List.take_left]
    rw [List.length_append, hlen]
    exact Nat.le_add_right _ _
  · rw [Block.put_add, ← hlen, List.getD_append_right _ _ _ _ le_rfl, Nat.sub_self]
    rfl
  · rw [List.length_append, hlen]
    exact h

/-- **The buffer front ends are C99 `snprintf`**: the length of the whole output comes back; as much
of it as fits is stored, with a NUL behind it, and nothing else; without a buffer nothing is; and a
smaller buffer has a prefix of it, for the same length. -/
theorem snprintf_exact {fmt : Option CString} {args : Cells}
    (hs : output n mem fmt args = some s) (hL : s.length < 2 ^ 31)
    (hno : Away n mem fmt args buffer bufsize) : ∃ mem',
    vsnPrintf n mem buffer bufsize fmt args = some ((s.length : ℤ), mem') ∧
      snPrintfArgs n mem buffer bufsize fmt args = some ((s.length : ℤ), mem') ∧
      (buffer ≠ 0 → bufsize ≠ 0 →
        mem'.bytes buffer (min s.length (bufsize - 1)) = s.take (bufsize - 1) ∧
        mem' (buffer + min s.length (bufsize - 1)) = 0 ∧
        ∀ i, i < buffer ∨ buffer + min s.length (bufsize - 1) < i → mem' i = mem i) ∧
      (buffer = 0 ∨ bufsize = 0 → mem' = mem) ∧
      ∀ size ≤ bufsize, ∃ mem'',
        vsnPrintf n mem buffer size fmt args = some ((s.length : ℤ), mem'') ∧
        snPrintfArgs n mem buffer size fmt args = some ((s.length : ℤ), mem'') ∧
        (buffer ≠ 0 → size ≠ 0 → mem''.bytes buffer (min s.length (size - 1)) <+:
          mem'.bytes buffer (min s.length (bufsize - 1))) := by
  have hcall := vsnprintf_eq hs hL hno
  refine ⟨_, hcall, hcall, printed_spec mem s, fun hb => if_neg fun hboth => ?_,
    fun size hsize => ?_⟩
  · exact hb.elim hboth.1 hboth.2
  · have hsmall := vsnprintf_eq hs hL (hno.mono hsize)
    refine ⟨_, hsmall, hsmall, fun hb hk => ?_⟩
    rw [(printed_spec mem s hb hk).1, (printed_spec mem s hb (by omega)).1]
    exact List.take_prefix_take_left (Nat.sub_le_sub_right hsize 1)

/-- `"ab%s"`. -/
def sampleFormat : CString := ⟨['a', 'b', '%', 's'].map Char.toUInt8, by decide⟩

/-- `"xyz"` at 16. -/
def sampleText : Block := Block.put (fun _ => 0) 16 (['x', 'y', 'z'].map Char.toUInt8)

/-- Five bytes at 32 cut the last character off. -/
theorem snprintf_exact_cut : ∃ mem',
    vsnPrintf 16 sampleText 32 5 (some sampleFormat) (fun _ => 16) = some (5, mem') ∧
      mem'.bytes 32 4 = ['a', 'b', 'x', 'y'].map Char.toUInt8 ∧ mem' 36 = 0 := by
  have hs : output 16 sampleText (some sampleFormat) (fun _ => 16)
      = some (['a', 'b', 'x', 'y', 'z'].map Char.toUInt8) := by decide +kernel
  have hno : Away 16 sampleText (some sampleFormat) (fun _ => 16) 32 5 := by
    rintro f hf
    obtain rfl := Option.some.inj hf
    have htext : sampleText.Text 16 (['x', 'y', 'z'].map Char.toUInt8) :=
      ⟨rfl, by decide, rfl, by decide, rfl, by decide, rfl⟩
    refine ⟨fun _ _ => LenOff.of_text htext (by decide) (fun j _ hj => ?_) (Nat.zero_le _), trivial⟩
    exact .inr (.inl (hj.trans_lt (by decide)))
  obtain ⟨mem', hcall, -, hbytes, -, -⟩ := snprintf_exact hs (by decide) hno
  obtain ⟨htext, hnul, -⟩ := hbytes (by decide) (by decide)
  exact ⟨mem', hcall, htext, hnul⟩

end Printf
