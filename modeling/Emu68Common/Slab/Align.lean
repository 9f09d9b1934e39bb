import Emu68Common.Slab.Exec

/-!
# Slab/Align — where the objects of a cache are aligned

An object stands a multiple of the object size above its slab's data, and the object size is a
multiple of the alignment, so the data decides.  `dma_alloc` is asked for the alignment;
`pool_alloc` is not, and puts its size before the data: a multiple of 8 and 4.  Objects of no size
stand as their slab's data does, too.

    pool_alloc   raw: 8 ∣ raw      data = raw + 4         never 8 ∣ data
    dma_alloc    raw: any          obj_align ∣ data
-/

namespace Slab

open Machinery Dma

/-! ## Objects -/

variable {k : Geometry} {w : World} {slabs : List Chunk} {c : Chunk} {p a : ℕ}

/-- An object stands as its slab's data does. -/
theorem dvd_slot_iff (hk : k.Sized) (ha : a ∣ k.objAlign) (hp : p ∈ c.slots k) :
    a ∣ p ↔ a ∣ c.data k := by
  obtain ⟨i, -, rfl⟩ := mem_row.mp hp
  exact (Nat.dvd_add_iff_left ((ha.trans hk.multiple).mul_left i)).symm

/-- DMA data is aligned as asked for. -/
theorem dvd_data_of_dma (hk : k.Sized) (hw : c.Within k) (hd : k.dmaPool = true) :
    k.objAlign ∣ c.data k := ((Chunk.data_spec hk hw.data_le).2.2 hd).2

/-- **CPU-only data** stands 4 above a multiple of 8. -/
theorem data_mod_eight (h : Stacked k w slabs) (hblocks : Blocks w.held) (hc : c ∈ slabs)
    (hd : k.dmaPool = false) : c.data k % 8 = 4 := by
  have hheld := h.grant_held hc (List.mem_cons_of_mem _ List.mem_cons_self)
  obtain ⟨m, hm⟩ := hblocks.multiple _ hheld
  have hdata : c.data k = c.rawData + 4 := by rw [Chunk.data, hd]; rfl
  have hm : c.rawData = 8 * m := hm
  omega

/-- Of two powers of two, the smaller divides the larger. -/
theorem pow_two_dvd {a b : ℕ} (ha : ∃ i, a = 2 ^ i) (hb : ∃ j, b = 2 ^ j) (h : a ≤ b) : a ∣ b := by
  obtain ⟨i, rfl⟩ := ha
  obtain ⟨j, rfl⟩ := hb
  exact Nat.pow_dvd_pow 2 ((Nat.pow_le_pow_iff_right (by decide)).mp h)

/-- A place 4 above a multiple of 8 is a multiple of 1, 2 and 4. -/
theorem dvd_iff_of_mod (ha : ∃ i, a = 2 ^ i) (hp : p % 8 = 4) : a ∣ p ↔ a ≤ 4 := by
  constructor
  · refine fun hdvd => le_of_not_gt fun h4 => ?_
    have h8 : 8 ∣ a := pow_two_dvd ⟨3, rfl⟩ ha (by
      obtain ⟨i, rfl⟩ := ha
      have : 2 < i := (Nat.pow_lt_pow_iff_right (a := 2) (by decide)).mp h4
      exact Nat.pow_le_pow_right (show 0 < 2 by decide) (show 3 ≤ i from this))
    have := h8.trans hdvd
    omega
  · exact fun h4 => (pow_two_dvd ha ⟨2, rfl⟩ h4).trans (Nat.dvd_of_mod_eq_zero (by omega))

/-- **An object has the alignment `a`** if its cache is DMA-backed or `a` is at most a pointer's,
and only then. -/
theorem dvd_object_iff (h : Stacked k w slabs) (hblocks : Blocks w.held) (ha : ∃ i, a = 2 ^ i)
    (hle : a ≤ k.objAlign) (hp : p ∈ allSlots k slabs) :
    a ∣ p ↔ k.dmaPool = true ∨ a ≤ 4 := by
  obtain ⟨c, hc, hp⟩ := List.mem_flatMap.mp hp
  have hdvd : a ∣ k.objAlign := pow_two_dvd ha h.sized.align hle
  rw [dvd_slot_iff h.sized hdvd hp]
  cases hd : k.dmaPool with
  | true => exact iff_of_true (hdvd.trans (dvd_data_of_dma h.sized (h.within c hc) hd)) (Or.inl rfl)
  | false =>
    rw [dvd_iff_of_mod ha (data_mod_eight h hblocks hc hd)]
    exact ⟨Or.inr, fun h => h.resolve_left Bool.false_ne_true⟩

/-- **A seat** does, too. -/
theorem dvd_seat_iff {g : Grant} (hk : k.Sizeless) (h : Seat k g p) (ha : ∃ i, a = 2 ^ i)
    (hle : a ≤ k.objAlign) : a ∣ p ↔ k.dmaPool = true ∨ a ≤ 4 := by
  have haligned := h.aligned
  cases hd : k.dmaPool with
  | true =>
    rw [hd, if_pos rfl] at haligned
    exact iff_of_true ((pow_two_dvd ha hk.align hle).trans haligned) (Or.inl rfl)
  | false =>
    rw [hd, if_neg Bool.false_ne_true] at haligned
    rw [dvd_iff_of_mod ha haligned]
    exact ⟨Or.inr, fun h => h.resolve_left Bool.false_ne_true⟩

/-! ## Runs -/

/-- What an alignment is raised to is no less. -/
theorem le_raised (a least : ℕ) : a ≤ if a < least then least else a := by
  split <;> omega

/-- Objects of no size are set up as such. -/
theorem init_sizeless {dmaPool : Bool} {objAlign slabCapacity : ℕ} {c : Cache}
    (hc : c = slabCacheInit dmaPool 0 objAlign slabCapacity) (halign : ∃ i, objAlign = 2 ^ i)
    (hround : c.objAlign - 1 < 2 ^ 32)
    (hspan : (if dmaPool then c.objAlign - 1 + 8 else 4) < 2 ^ 32) :
    c.Sizeless := by
  have hdma : c.dmaPool = dmaPool := by rw [hc]; rfl
  have hleast : ∃ i, (if dmaPool then DMA_ALIGN_MIN else 4) = 2 ^ i := by
    cases dmaPool
    · exact ⟨2, rfl⟩
    · exact ⟨6, rfl⟩
  obtain ⟨hpow, hge⟩ := raised halign hleast
  have hmin : c.objAlign = if objAlign < if dmaPool then DMA_ALIGN_MIN else 4 then
      if dmaPool then DMA_ALIGN_MIN else 4 else objAlign := by rw [hc]; rfl
  rw [← hmin] at hpow hge
  have hsize : c.objSize = alignMask 0 (c.objAlign - 1) := by rw [hc]; rfl
  refine ⟨hpow, hsize.trans (align_mask_of_dvd hpow (by omega) (dvd_zero _)), fun hd => ?_⟩
  rw [hdma] at hd
  rw [hd, if_pos rfl] at hge hspan
  rw [DMA_ALIGN_MIN] at hge ⊢
  omega

/-- **When objects have the alignment asked for.**  In every run of a cache on Exec's memory, an
object that a call returns is a multiple of the alignment its cache was set up with exactly if the
cache is DMA-backed or the alignment is no more than a pointer's. -/
theorem object_aligned_iff {dmaPool : Bool} {objSize objAlign slabCapacity : ℕ} {c : Cache}
    (hc : c = slabCacheInit dmaPool objSize objAlign slabCapacity)
    (halign : ∃ i, objAlign = 2 ^ i)
    (hround : objSize + (c.objAlign - 1) < 2 ^ 32)
    (hspan : c.objSize * c.slabCapacity + (if dmaPool then c.objAlign - 1 + 8 else 4) < 2 ^ 32)
    (mem : Block) {s : State} (hrun : Relation.ReflTransGen ExecStep ⟨c, ⟨mem, []⟩, []⟩ s)
    {P : Pools} (hP : P.OnExec) {p : ℕ} {c' : Cache} {w' : World}
    (hcall : Calls P s (some p) c' w') :
    objAlign ∣ p ↔ dmaPool = true ∨ objAlign ≤ 4 := by
  have hdma : c.dmaPool = dmaPool := by rw [hc]; rfl
  have hle : objAlign ≤ c.objAlign := by
    rw [hc]
    exact le_raised objAlign _
  have hrun' := hrun.tail (ExecStep.call hP hcall)
  rw [← hdma]
  rcases Nat.eq_zero_or_pos objSize with rfl | hsize
  · rw [Nat.zero_add] at hround
    have hk := init_sizeless hc halign hround (by omega)
    have hstart : Strung c.toGeometry ⟨c, ⟨mem, []⟩, []⟩ [] :=
      ⟨rfl, .nil, by rw [hc]; rfl, fun _ h => absurd h List.not_mem_nil, .nil,
        fun _ h => absurd h List.not_mem_nil⟩
    obtain ⟨fs, h⟩ := hstart.run hk hrun'
    obtain ⟨g, -, hseat⟩ := h.seats p (List.mem_append_right _ List.mem_cons_self)
    exact dvd_seat_iff hk hseat halign hle
  · obtain ⟨hsized, -⟩ := init_sized hc halign hsize hround hspan
    have hstart : Partitioned ⟨c, ⟨mem, []⟩, []⟩ :=
      partitioned_of_sized hsized (by rw [hc]; rfl) (by rw [hc]; rfl) mem
    obtain ⟨hk, slabs, fs, h⟩ := partitioned_of_run hstart (ExecStep.run hrun')
    have hk : c'.toGeometry = c.toGeometry := hk
    have hblocks : Blocks w'.held := Blocks.run .nil hrun'
    have hobj := dvd_object_iff h.toStacked hblocks halign (by rw [hk]; exact hle)
      (h.mem_slots (Or.inr List.mem_cons_self))
    rwa [hk] at hobj

/-- Pools that hand out one block behind the other, 64K apart, and whole. -/
def rowOfWholes : Pools where
  ask _ n w :=
    let raw := (w.held.length + 1) * 0x10000
    if Fresh (w.held.map Grant.whole) raw (wholeSize n) then some raw else none
  asked _ _ w := w.mem
  given _ w := w.mem
  fresh _ n w raw h := by
    obtain ⟨⟨hpos, hend, hapart⟩, hraw⟩ := Option.ite_none_right_eq_some.mp h
    obtain rfl := Option.some.inj hraw
    have hle := le_wholeSize n
    refine ⟨hpos, by omega, fun g hg => (hapart g.whole (List.mem_map_of_mem hg)).mono le_rfl ?_
      le_rfl (by omega)⟩
    exact Nat.add_le_add_left (le_wholeSize g.size) g.raw
  asked_agree := rowOfBlocks.asked_agree
  given_agree := rowOfBlocks.given_agree

theorem rowOfWholes_onExec : rowOfWholes.OnExec where
  multiple _ _ _ _ h := by
    obtain ⟨-, hraw⟩ := Option.ite_none_right_eq_some.mp h
    exact Option.some.inj hraw ▸ Dvd.intro_left (_ * 0x2000) (Nat.mul_assoc _ 0x2000 8)
  fresh _ _ _ _ h := by
    obtain ⟨hfresh, hraw⟩ := Option.ite_none_right_eq_some.mp h
    exact Option.some.inj hraw ▸ hfresh
  asked_agree _ _ _ _ _ := rfl
  given_agree _ _ _ _ := rfl

/-- A CPU-only cache of two objects aligned to 16, before its first call. -/
def sixteen : State := ⟨slabCacheInit false 16 16 2, ⟨fun _ => 0, []⟩, []⟩

theorem calls_sixteen : ∃ c w, Calls rowOfWholes sixteen (some 0x20004) c w := by
  have hcall : (slabAlloc rowOfWholes sixteen.cache sixteen.world).map Prod.fst =
      some (some 0x20004) := by
    decide +kernel
  obtain ⟨⟨r, c, w⟩, hx, rfl⟩ := Option.map_eq_some_iff.mp hcall
  exact ⟨c, w, Or.inl hx⟩

/-- **Sixteen is not kept**: its first object is returned at `0x20004`. -/
theorem object_not_aligned : ∃ (s : State) (P : Pools) (p : ℕ) (c' : Cache) (w' : World),
    Relation.ReflTransGen ExecStep ⟨slabCacheInit false 16 16 2, ⟨fun _ => 0, []⟩, []⟩ s ∧
      P.OnExec ∧ Calls P s (some p) c' w' ∧ p ≠ 0 ∧ ¬16 ∣ p := by
  obtain ⟨c, w, hcall⟩ := calls_sixteen
  exact ⟨sixteen, rowOfWholes, 0x20004, c, w, .refl, rowOfWholes_onExec, hcall, by decide,
    by decide⟩

theorem object_aligned_iff_sixteen : 16 ∣ 0x20004 ↔ false = true ∨ 16 ≤ 4 := by
  obtain ⟨c, w, hcall⟩ := calls_sixteen
  exact object_aligned_iff rfl ⟨4, rfl⟩ (by decide) (by decide) (fun _ => 0)
    (Relation.ReflTransGen.refl) rowOfWholes_onExec hcall

end Slab
