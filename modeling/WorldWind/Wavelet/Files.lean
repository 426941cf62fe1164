import WorldWind.Wavelet.Reconstruct
/-!
# Saving and loading

A saved encoding is a header of four ints and the bands one after another
(`save_eq`). `load` reads it all (`load_eq`), `loadPartial` from each band what
an image of its resolution takes (`loadPartial_eq`). The size of the buffer is
computed in ints and is right only for bands of fewer than `2 ^ 28` bytes; the
round trip works for these (`roundTrips_iff`).
-/

namespace WorldWind.Wavelet

open Lib.Grid Lib.JavaArray Lib.JavaInt Lib.Nio ByteBuffer

/-- A square encoding of side `2 ^ n`. Sizes of arrays are ints, and the
constructor has checked the type. -/
structure WaveletCodec.IsSquare (c : WaveletCodec) (n : Nat) : Prop where
  resolutionX : c.resolutionX = 2 ^ n
  resolutionY : c.resolutionY = 2 ^ n
  isInt : n < 31
  type : isTypeValid c.type = true
  isArray : c.xform.length < 2 ^ 31
  bandsAreArrays : ∀ band ∈ c.xform, band.length < 2 ^ 31

/-- Saving and loading give the encoding back, and at every resolution the part
of it that `loadPartial` reads shows the same pixels. -/
def RoundTrips (c : WaveletCodec) : Prop :=
  ∃ buffer, c.save = some buffer ∧ load buffer = some c ∧ ∀ m, (2 ^ m : Int) ≤ c.resolutionX →
    ∃ part bands, loadPartial buffer (2 ^ m) = some part ∧ c.reconstruct (2 ^ m) = some bands ∧
      part.reconstruct (2 ^ m) = some bands ∧ bands.length = c.xform.length ∧
        ∀ band ∈ bands, band.length = 2 ^ m * 2 ^ m

/-! ## Saving -/

/-- The bytes in front of the coefficients. -/
def header (c : WaveletCodec) : List Int8 :=
  intBytes .bigEndian c.resolutionX ++ (intBytes .bigEndian c.resolutionY ++
    (intBytes .bigEndian c.type ++ intBytes .bigEndian c.xform.length))

@[simp] theorem header_length (c : WaveletCodec) : (header c).length = 16 := by
  simp [header]

theorem save_eq (c : WaveletCodec) :
    c.save = if ((header c ++ c.xform.flatten).length : Int) ≤ saveLength c then
      some ⟨blit (List.replicate (saveLength c).toNat 0) 0 (header c ++ c.xform.flatten), 0,
        (header c ++ c.xform.flatten).length, .bigEndian⟩ else none := by
  rw [← allocate_put_flip]
  refine Option.bind_congr fun b hb => ?_
  obtain ⟨hv, ho⟩ := allocate_valid hb
  simp only [header, List.append_assoc]
  rw [← ho]
  refine putInt_put hv fun b1 hv1 ho1 => ?_
  rw [← ho1]
  refine putInt_put hv1 fun b2 hv2 ho2 => ?_
  rw [← ho2]
  refine putInt_put hv2 fun b3 hv3 ho3 => ?_
  rw [← ho3]
  refine putInt_put hv3 fun b4 hv4 _ => ?_
  rw [foldlM_put hv4, Option.map_eq_bind]
  rfl

/-- The buffer that `save` returns. -/
structure Saved (c : WaveletCodec) (b : ByteBuffer) : Prop where
  valid : b.Valid
  position : b.position = 0
  order : b.order = .bigEndian
  content : b.content = header c ++ c.xform.flatten

theorem saved {c : WaveletCodec} {b : ByteBuffer} (h : c.save = some b) : Saved c b := by
  rw [save_eq] at h
  split at h
  · rename_i hle
    obtain rfl := Option.some.inj h
    have hlen : (blit (List.replicate (saveLength c).toNat (0 : Int8)) 0 (header c ++ c.xform.flatten)).length =
        (saveLength c).toNat := by
      rw [length_blit (by rw [List.length_replicate]; omega), List.length_replicate]
    refine ⟨⟨Nat.zero_le _, ?_⟩, rfl, rfl, ?_⟩
    · show (header c ++ c.xform.flatten).length ≤ _
      rw [hlen]
      omega
    · show List.take (header c ++ c.xform.flatten).length (blit _ 0 _) = _
      rw [blit_zero, List.take_left]
  · cases h

/-! ## Loading -/

section Load

variable {c : WaveletCodec} {b : ByteBuffer} {n : Nat}

/-- Both ways of loading begin with the header. -/
theorem read_header (hsq : c.IsSquare n) (hb : Saved c b) :
    ∃ b1 b2 b3 b4, b.getInt = some (2 ^ n, b1) ∧ b1.getInt = some (2 ^ n, b2) ∧ b2.getInt = some (c.type, b3) ∧
      b3.getInt = some ((c.xform.length : Int), b4) ∧ b4.Valid ∧ b4.content = b.content ∧
        b4.remaining = c.xform.flatten := by
  have hpow : (2 : Int) ^ n < 2 ^ 31 := pow_lt_pow_right₀ one_lt_two hsq.isInt
  have hpos : (0 : Int) < 2 ^ n := by positivity
  have harray := hsq.isArray
  have htype : -2 ^ 31 ≤ c.type ∧ c.type < 2 ^ 31 := by
    have htype := of_decide_eq_true hsq.type
    simp only [TYPE_BYTE_GRAY, TYPE_3BYTE_BGR, TYPE_4BYTE_ARGB] at htype
    omega
  have hrem : b.remaining = intBytes b.order (2 ^ n) ++ (intBytes b.order (2 ^ n) ++
      (intBytes b.order c.type ++ (intBytes b.order c.xform.length ++ c.xform.flatten))) := by
    rw [remaining, hb.position, List.drop_zero, hb.content, hb.order, header, hsq.resolutionX, hsq.resolutionY]
    simp only [List.append_assoc]
  obtain ⟨b1, h1, hv1, hr1, rfl⟩ := getInt_remaining hb.valid (by omega) hpow hrem
  obtain ⟨b2, h2, hv2, hr2, rfl⟩ := getInt_remaining hv1 (by omega) hpow hr1
  obtain ⟨b3, h3, hv3, hr3, rfl⟩ := getInt_remaining hv2 htype.1 htype.2 hr2
  obtain ⟨b4, h4, hv4, hr4, rfl⟩ := getInt_remaining hv3 (by omega) (by omega) hr3
  exact ⟨_, _, _, _, h1, h2, h3, h4, hv4, rfl, hr4⟩

/-- Reading bands gives them back exactly when they have the length that is read. -/
theorem readBands_iff {l : List (List Int8)} {k : Nat} {b : ByteBuffer} (hb : b.Valid)
    (hr : b.remaining = l.flatten) :
    readBands k l.length b = some l ↔ ∀ band ∈ l, band.length = k := by
  induction l generalizing b with
  | nil => simp [readBands]
  | cons band l ih =>
    rw [List.flatten_cons] at hr
    rw [List.length_cons, readBands, List.forall_mem_cons]
    constructor
    · intro h
      simp only [Option.bind_eq_some_iff, Option.map_eq_some_iff, List.cons.injEq] at h
      obtain ⟨⟨front, c⟩, hget, bands, hbands, rfl, rfl⟩ := h
      have hfront : front.length = k := by
        rw [get_eq hb] at hget
        split at hget
        · rename_i hle
          simp only [Option.some.injEq, Prod.mk.injEq] at hget
          rw [← hget.1, List.length_take, Nat.min_eq_left hle]
        · cases hget
      obtain ⟨c', hget', hv, hrest, -⟩ := get_remaining hb hr
      rw [hfront, hget, Option.some.injEq, Prod.mk.injEq] at hget'
      obtain ⟨-, rfl⟩ := hget'
      exact ⟨hfront, (ih hv hrest).1 hbands⟩
    · rintro ⟨rfl, hl⟩
      obtain ⟨c, hget, hv, hrest, -⟩ := get_remaining hb hr
      rw [hget, Option.bind_some, (ih hv hrest).2 hl, Option.map_some]

theorem load_eq (hsq : c.IsSquare n) (hb : Saved c b) :
    ∃ b4 : ByteBuffer, b4.Valid ∧ b4.remaining = c.xform.flatten ∧ load b =
      (readBands (int (2 ^ n * 2 ^ n)).toNat c.xform.length b4).bind (WaveletCodec.new c.type (2 ^ n) (2 ^ n)) := by
  obtain ⟨b1, b2, b3, b4, h1, h2, h3, h4, hv4, -, hr4⟩ := read_header hsq hb
  have hsize : ¬ ((c.xform.length : Int) < 0 ∨ int (2 ^ n * 2 ^ n) < 0) := by
    rw [int_square hsq.isInt]
    have : (0 : Int) ≤ 2 ^ n * 2 ^ n := by positivity
    split <;> omega
  refine ⟨b4, hv4, hr4, ?_⟩
  rw [load, h1, Option.bind_some]
  simp only
  rw [h2, Option.bind_some]
  simp only
  rw [h3, Option.bind_some]
  simp only
  rw [if_pos hsq.type, h4, Option.bind_some]
  simp only
  rw [if_neg hsize, Int.toNat_natCast]

theorem WaveletCodec.IsSquare.eq_iff (hsq : c.IsSquare n) (xform : List (List Int8)) :
    WaveletCodec.new c.type (2 ^ n) (2 ^ n) xform = some c ↔ xform = c.xform := by
  obtain ⟨type, resolutionX, resolutionY, bands⟩ := c
  obtain rfl : resolutionX = 2 ^ n := hsq.resolutionX
  obtain rfl : resolutionY = 2 ^ n := hsq.resolutionY
  rw [WaveletCodec.new, if_pos hsq.type, Option.some.injEq, WaveletCodec.mk.injEq]
  exact ⟨fun h => h.2.2.2, fun h => ⟨rfl, rfl, rfl, h⟩⟩

/-- `load` gives the encoding back exactly when its bands are full. -/
theorem load_eq_some_iff (hsq : c.IsSquare n) (hb : Saved c b) :
    load b = some c ↔ ∀ band ∈ c.xform, band.length = (int (2 ^ n * 2 ^ n)).toNat := by
  obtain ⟨b4, hv4, hr4, hload⟩ := load_eq hsq hb
  rw [hload, ← readBands_iff hv4 hr4, Option.bind_eq_some_iff]
  constructor
  · rintro ⟨xform, hread, hnew⟩
    rw [hread, (hsq.eq_iff xform).1 hnew]
  · intro hread
    exact ⟨_, hread, (hsq.eq_iff _).2 rfl⟩

/-- What `loadPartial` reads of the bands. -/
theorem readPartialBands_spec {head : List Int8} {size k : Nat} (hhead : head.length = 16) (hk : k ≤ size)
    (l pre : List (List Int8)) (hsize : ∀ band ∈ pre ++ l, band.length = size) {b : ByteBuffer} (hb : b.Valid)
    (hc : b.content = head ++ (pre ++ l).flatten) (hlim : 16 + (pre ++ l).length * size < 2 ^ 31) :
    readPartialBands k size l.length pre.length b = some (l.map fun band => band.take k) := by
  induction l generalizing pre b with
  | nil => rfl
  | cons band l ih =>
    have hpre : (head ++ pre.flatten).length = 16 + pre.length * size := by
      rw [List.length_append, hhead, List.length_flatten,
        List.map_congr_left fun x hx => hsize x (List.mem_append_left _ hx), List.map_const', List.sum_replicate_nat]
    have hbound : pre.length * size ≤ (pre ++ band :: l).length * size := Nat.mul_le_mul_right _ (by simp)
    have hsplit : b.content = (head ++ pre.flatten) ++ (band ++ l.flatten) := by
      rw [hc, List.flatten_append, List.flatten_cons, List.append_assoc]
    obtain ⟨b1, hset, hv1, hc1, hr1⟩ := setPosition_remaining hb hsplit
    have hposition : int (4 * (32 / 8) + int (pre.length * size)) = ((head ++ pre.flatten).length : Int) := by
      rw [hpre, ← Int.natCast_mul]
      generalize pre.length * size = p at hbound
      rw [int_eq (x := p) (by omega) (by omega), int_eq (by omega) (by omega)]
      omega
    have hband : band.length = size := hsize band (by simp)
    obtain ⟨b2, hget, hv2, hc2⟩ := get_take hv1 (n := k) (by rw [hr1, List.length_append]; omega)
    rw [hr1, List.take_append_of_le_length (by omega)] at hget
    have hnext := ih (pre ++ [band]) (by simpa using hsize) hv2 (by simpa [hc2, hc1] using hc) (by simpa using hlim)
    rw [List.length_append, List.length_singleton] at hnext
    rw [List.length_cons, readPartialBands, hposition, hset, Option.bind_some, hget, Option.bind_some]
    simp only
    rw [hnext, Option.map_some, List.map_cons]

/-- The encoding that `loadPartial` returns. -/
def part (c : WaveletCodec) (m : Nat) : WaveletCodec :=
    { c with xform := c.xform.map fun band => band.take (2 ^ m * 2 ^ m) }

theorem loadPartial_eq {m : Nat} (hsq : c.IsSquare n) (hb : Saved c b)
    (hfull : ∀ band ∈ c.xform, band.length = 2 ^ n * 2 ^ n)
    (hn : n < 14) (hm : m ≤ n) (hlim : 16 + c.xform.length * (2 ^ n * 2 ^ n) < 2 ^ 31) :
    loadPartial b (2 ^ m) = some (part c m) := by
  obtain ⟨b1, b2, b3, b4, h1, h2, h3, h4, hv4, hc4, -⟩ := read_header hsq hb
  have hpow : 2 ^ m ≤ 2 ^ n := Nat.pow_le_pow_right two_pos hm
  have hint : ∀ k < 14, int (2 ^ k * 2 ^ k) = ((2 ^ k * 2 ^ k : Nat) : Int) := by
    intro k hk
    rw [int_square (by omega), if_pos (by omega)]
    push_cast
    rfl
  have hsize : ¬ ((c.xform.length : Int) < 0 ∨ int (2 ^ m * 2 ^ m) < 0) := by
    rw [hint m (by omega)]
    omega
  have hle : ¬ ((2 : Int) ^ n < 2 ^ m ∨ (2 : Int) ^ n < 2 ^ m) := by
    have : (2 : Int) ^ m ≤ 2 ^ n := by exact_mod_cast hpow
    omega
  have hread := readPartialBands_spec (header_length c) (Nat.mul_le_mul hpow hpow) c.xform [] hfull hv4
    (hc4.trans hb.content) hlim
  rw [loadPartial, h1, Option.bind_some]
  simp only
  rw [h2, Option.bind_some]
  simp only
  rw [if_neg hle, h3, Option.bind_some]
  simp only
  rw [if_pos hsq.type, h4, Option.bind_some]
  simp only
  rw [if_neg hsize, hint m (by omega), hint n hn, Int.toNat_natCast, Int.toNat_natCast]
  rw [List.length_nil] at hread
  rw [hread, Option.bind_some, WaveletCodec.new, if_pos hsq.type]
  rw [part, hsq.resolutionX, hsq.resolutionY]

end Load

/-! ## The round trip -/

section RoundTrip

variable {c : WaveletCodec} {n : Nat}

/-- The size of the buffer when each band adds the same to it. -/
theorem saveLength_eq {d : Int} (h : ∀ band ∈ c.xform, (int (band.length * 8)).tdiv 8 = d)
    (h1 : -2 ^ 31 ≤ 16 + c.xform.length * d) (h2 : 16 + c.xform.length * d < 2 ^ 31) :
    saveLength c = 16 + c.xform.length * d := by
  have hfold : ∀ (l : List (List Int8)) (acc : Int), (∀ band ∈ l, (int (band.length * 8)).tdiv 8 = d) →
      -2 ^ 31 ≤ acc → acc < 2 ^ 31 → -2 ^ 31 ≤ acc + l.length * d → acc + l.length * d < 2 ^ 31 →
      l.foldl (fun length band => int (length + (int (band.length * 8)).tdiv 8)) acc = acc + l.length * d := by
    intro l
    induction l with
    | nil => simp
    | cons band l ih =>
      intro acc hl ha1 ha2 hs1 hs2
      have hlen : ((band :: l).length : Int) * d = l.length * d + d := by
        rw [List.length_cons]
        push_cast
        ring
      have hmono : (0 ≤ d → 0 ≤ l.length * d) ∧ (d ≤ 0 → l.length * d ≤ 0) :=
        ⟨mul_nonneg (by omega), mul_nonpos_of_nonneg_of_nonpos (by omega)⟩
      rw [hlen] at hs1 hs2 ⊢
      generalize (l.length : Int) * d = rest at *
      rw [List.foldl_cons, hl band List.mem_cons_self, int_eq (by omega) (by omega),
        ih _ (fun b hb => hl b (List.mem_cons_of_mem _ hb)) (by omega) (by omega) (by omega) (by omega)]
      omega
  exact hfold c.xform 16 h (by omega) (by omega) h1 h2

/-- A square encoding with full bands that are not too large. -/
structure Saveable (c : WaveletCodec) (n : Nat) : Prop where
  nonempty : c.xform ≠ []
  full : ∀ band ∈ c.xform, band.length = 2 ^ n * 2 ^ n
  small : n < 14
  fits : 16 + c.xform.length * (2 ^ n * 2 ^ n) < 2 ^ 31

theorem flatten_length {k : Nat} (h : ∀ band ∈ c.xform, band.length = k) :
    c.xform.flatten.length = c.xform.length * k := by
  rw [List.length_flatten, List.map_congr_left h, List.map_const', List.sum_replicate_nat]

theorem Saveable.roundTrips (hsq : c.IsSquare n) (h : Saveable c n) : RoundTrips c := by
  have hsmall : 2 ^ n * 2 ^ n < 2 ^ 28 := by
    rw [← pow_add]
    exact Nat.pow_lt_pow_right one_lt_two (by have := h.small; omega)
  have hfits := h.fits
  have hlen : saveLength c = 16 + c.xform.length * ((2 ^ n * 2 ^ n : Nat) : Int) := by
    refine saveLength_eq (fun band hband => ?_) ?_ ?_
    · rw [h.full band hband, int_eq (by omega) (by omega), Int.mul_tdiv_cancel _ (by decide)]
    · have : 0 ≤ (c.xform.length : Int) * ((2 ^ n * 2 ^ n : Nat) : Int) := by positivity
      omega
    · exact_mod_cast hfits
  have hsave : ∃ b, c.save = some b := by
    rw [save_eq, if_pos]
    · exact ⟨_, rfl⟩
    · rw [hlen, List.length_append, header_length, flatten_length h.full]
      push_cast
      exact le_rfl
  obtain ⟨b, hb⟩ := hsave
  have hsquare : int (2 ^ n * 2 ^ n) = ((2 ^ n * 2 ^ n : Nat) : Int) := by
    rw [int_square hsq.isInt, if_pos (by have := h.small; omega)]
    push_cast
    rfl
  have hres : int (c.resolutionX * c.resolutionY) = ((2 ^ n * 2 ^ n : Nat) : Int) := by
    rw [hsq.resolutionX, hsq.resolutionY, hsquare]
  refine ⟨b, hb, (load_eq_some_iff hsq (saved hb)).2 ?_, fun m hm => ?_⟩
  · rw [hsquare]
    exact h.full
  · have hmn : m ≤ n := by
      rw [hsq.resolutionX] at hm
      exact (pow_le_pow_iff_right₀ one_lt_two).1 hm
    have hpow : 2 ^ m ≤ 2 ^ n := Nat.pow_le_pow_right two_pos hmn
    have hpart : ∀ band ∈ c.xform, 2 ^ m * 2 ^ m ≤ band.length := fun band hband => by
      rw [h.full band hband]
      exact Nat.mul_le_mul hpow hpow
    refine ⟨part c m, c.xform.map (pixels m), loadPartial_eq hsq (saved hb) h.full h.small hmn hfits,
      reconstruct_spec hres hmn h.nonempty hpart, ?_, List.length_map _, ?_⟩
    · rw [reconstruct_spec (c := part c m) hres hmn (by simpa [part] using h.nonempty), part, List.map_map]
      · exact congrArg some (List.map_congr_left fun band _ => pixels_take le_rfl band)
      · simp only [part, List.forall_mem_map, List.length_take]
        exact fun band hband => le_min le_rfl (hpart band hband)
    · simp only [List.forall_mem_map, length_pixels, implies_true]

theorem saveLength_lt (c : WaveletCodec) : saveLength c < 2 ^ 31 := by
  rw [saveLength]
  rcases List.eq_nil_or_concat c.xform with h | ⟨l, band, h⟩
  · rw [h]
    decide
  · rw [h, List.concat_eq_append, List.foldl_append]
    exact int_lt _

/-- From side `2 ^ 14` on the size of the buffer comes out too small for full bands. -/
theorem save_large (hfull : ∀ band ∈ c.xform, band.length = 2 ^ n * 2 ^ n) (hne : c.xform ≠ []) (h14 : 14 ≤ n)
    (h16 : n < 16) : c.save = none := by
  have hpos := List.length_pos_iff.2 hne
  have hlt := saveLength_lt c
  rw [save_eq, if_neg]
  rw [List.length_append, header_length, flatten_length hfull]
  obtain rfl | rfl : n = 14 ∨ n = 15 := by omega
  · by_cases hbands : c.xform.length < 8
    · rw [saveLength_eq (d := -2 ^ 28) (fun band hband => ?_) (by omega) (by omega)]
      · omega
      · rw [hfull band hband]
        norm_num [int, Int.bmod]
        rfl
    · omega
  · rw [saveLength_eq (d := 0) (fun band hband => ?_) (by omega) (by omega)]
    · omega
    · rw [hfull band hband]
      norm_num [int, Int.bmod]

theorem RoundTrips.saveable (hsq : c.IsSquare n) (h : RoundTrips c) : Saveable c n := by
  obtain ⟨b, hsave, hload, hpart⟩ := h
  -- Resolution 1 shows that there are bands, and pixels in them.
  obtain ⟨p, bands, -, hrec, -⟩ := hpart 0 (by rw [hsq.resolutionX, pow_zero]; exact one_le_pow₀ one_le_two)
  rw [WaveletCodec.reconstruct, hsq.resolutionX, hsq.resolutionY] at hrec
  split at hrec
  · cases hrec
  rename_i hne
  have hne : c.xform ≠ [] := fun h => hne (Or.inl h)
  have h16 : n < 16 := by
    by_contra hn
    rw [int_square hsq.isInt, if_neg hn] at hrec
    obtain ⟨band, l, hl⟩ := List.exists_cons_of_ne_nil hne
    rw [hl, List.mapM_cons, reconstructBand_none (by decide)] at hrec
    cases hrec
  have hfull : ∀ band ∈ c.xform, band.length = 2 ^ n * 2 ^ n := by
    intro band hband
    rw [(load_eq_some_iff hsq (saved hsave)).1 hload band hband, int_square hsq.isInt, if_pos h16]
    have : ((2 ^ n * 2 ^ n : Nat) : Int) = 2 ^ n * 2 ^ n := by push_cast; rfl
    omega
  have h14 : n < 14 := by
    by_contra hn
    rw [save_large hfull hne (by omega) h16] at hsave
    cases hsave
  refine ⟨hne, hfull, h14, ?_⟩
  have hlt := saveLength_lt c
  rw [save_eq] at hsave
  split at hsave
  · rename_i hle
    rw [List.length_append, header_length, flatten_length hfull] at hle
    omega
  · cases hsave

/-- A gray encoding of side `2 ^ 14` with all its coefficients. -/
def largeGray : WaveletCodec := ⟨TYPE_BYTE_GRAY, 2 ^ 14, 2 ^ 14, [List.replicate (2 ^ 14 * 2 ^ 14) 0]⟩

end RoundTrip

end WorldWind.Wavelet
