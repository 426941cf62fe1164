import WorldWind.Wavelet.Accuracy
/-!
# Which images `encode` can encode

`encode` accepts widths and heights that are powers of two. The passes take the
height for the length of a row, and the layout goes on to the width, so only
square images stay in bounds. For these every coefficient is written once.
-/

namespace WorldWind.Wavelet

open Lib.Grid Lib.JavaArray Lib.JavaInt WWMath

/-! ## The cells of the layout -/

/-- The coefficients of a band in the order they are written. -/
def readCells (xRes : Nat) : List Nat := 0 :: layout xRes xRes 1

/-- Where they are written. -/
def writtenCells (xRes : Nat) : List Nat := 0 :: ((layout xRes xRes 1).zipIdx 1).map Prod.snd

/-- The assignments of `rearrange` are to these cells, in this order. -/
theorem rearrange_writes {xRes bandSize : Nat} {imageData : List ℚ} {xform : List Int8}
    (h : rearrange xRes bandSize imageData = some xform) :
    ∃ l, l.map Prod.fst = writtenCells xRes ∧ writes (List.replicate bandSize 0) l = some xform := by
  rw [rearrange] at h
  split at h
  · refine ⟨_, ?_, h⟩
    rw [List.map_cons, List.map_map]
    rfl
  · cases h

/-- A cell outside of a level's corner is in the layout of the levels from it on. -/
theorem mem_layout_of_outside {n : Nat} {rounds l j i : Nat} (hrounds : n - l ≤ rounds) (hl : l ≤ n) (hj : j < 2 ^ n)
    (hi : i < 2 ^ n) (hout : 2 ^ l ≤ j ∨ 2 ^ l ≤ i) : j * 2 ^ n + i ∈ layout (2 ^ n) rounds (2 ^ l) := by
  induction rounds generalizing l with
  | zero =>
    obtain rfl : l = n := by omega
    omega
  | succ rounds ih =>
    rcases Nat.eq_or_lt_of_le hl with rfl | hlt
    · omega
    · rw [layout, if_pos (Nat.pow_lt_pow_right one_lt_two hlt), List.mem_append]
      by_cases hin : j < 2 * 2 ^ l ∧ i < 2 * 2 ^ l
      · left
        rw [levelLayout_eq]
        simp only [List.mem_append, List.mem_map, mem_cells, Prod.exists]
        by_cases h1 : j < 2 ^ l
        · exact .inl ⟨j, i - 2 ^ l, ⟨h1, by omega⟩, by rw [Nat.add_sub_cancel' (by omega)]⟩
        · by_cases h2 : i < 2 ^ l
          · exact .inr (.inl ⟨j - 2 ^ l, i, ⟨by omega, h2⟩, by rw [Nat.add_sub_cancel' (by omega)]⟩)
          · exact .inr (.inr ⟨j - 2 ^ l, i - 2 ^ l, ⟨by omega, by omega⟩, by
              rw [Nat.add_sub_cancel' (by omega), Nat.add_sub_cancel' (by omega)]⟩)
      · right
        rw [← pow_succ'] at hin ⊢
        exact ih (by omega) hlt (by omega)

theorem length_layout_one (n : Nat) : (layout (2 ^ n) (2 ^ n) 1).length + 1 = 2 ^ n * 2 ^ n := by
  have h := length_layout (n := n) (l := 0) (show n - 0 ≤ 2 ^ n by have := n.lt_two_pow_self; omega) (Nat.zero_le n)
  simpa using h

/-- The layout of a square image lists every cell once. -/
theorem readCells_perm (n : Nat) : (readCells (2 ^ n)).Perm (List.range (2 ^ n * 2 ^ n)) := by
  have hlen : (readCells (2 ^ n)).length = 2 ^ n * 2 ^ n := by
    rw [readCells, List.length_cons, length_layout_one]
  have hsub : List.range (2 ^ n * 2 ^ n) ⊆ readCells (2 ^ n) := by
    intro p hp
    have hp : p < 2 ^ n * 2 ^ n := List.mem_range.1 hp
    have hpos : 0 < 2 ^ n := by positivity
    have hcell := Nat.div_add_mod' p (2 ^ n)
    rcases Nat.eq_zero_or_pos p with rfl | hp0
    · exact List.mem_cons_self
    · refine List.mem_cons_of_mem _ ?_
      rw [← hcell]
      refine mem_layout_of_outside (l := 0) (by have := n.lt_two_pow_self; omega) (Nat.zero_le n)
        ((Nat.div_lt_iff_lt_mul hpos).2 hp) (Nat.mod_lt _ hpos) ?_
      rw [pow_zero]
      by_contra hnot
      obtain ⟨h1, h2⟩ := not_or.1 hnot
      rw [Nat.lt_one_iff.1 (not_le.1 h1), Nat.lt_one_iff.1 (not_le.1 h2)] at hcell
      omega
  exact ((List.nodup_range.subperm hsub).perm_of_length_le (by rw [hlen, List.length_range])).symm

theorem writtenCells_eq (n : Nat) : writtenCells (2 ^ n) = List.range (2 ^ n * 2 ^ n) := by
  rw [writtenCells, List.zipIdx_map_snd, ← length_layout_one, List.range_eq_range', List.range'_succ]

/-! ## Images that are not square -/

variable {xRes yRes : Nat}

/-- The columns of a high image reach below its end. -/
theorem columnPass_high (hlt : xRes < yRes) (heven : 2 ∣ yRes) (hx : 0 < xRes) {imageData workspace : List ℚ}
    (hlen : imageData.length = xRes * yRes) : columnPass yRes xRes yRes imageData workspace = none := by
  obtain ⟨half, rfl⟩ := heven
  have hhalf : 2 * half / 2 = half := by omega
  rw [columnPass, if_neg]
  intro h
  have hcell := h (0, half - 1) (mem_cells.2 ⟨hx, by simp only [hhalf]; omega⟩)
  have hrow : (half - 1) * 2 + 1 = 2 * half - 1 := by omega
  have hle := Nat.mul_le_mul_right (2 * half) (show xRes ≤ 2 * half - 1 by omega)
  simp only [hrow, hlen] at hcell
  omega

theorem rowPass_length {xformXres xformYres : Nat} {imageData workspace l : List ℚ}
    (h : rowPass yRes xformXres xformYres imageData workspace = some l) : l.length = workspace.length := by
  rw [rowPass] at h
  split at h
  · exact writes_length h
  · cases h

theorem columnPass_length {xformXres xformYres : Nat} {imageData workspace l : List ℚ}
    (h : columnPass yRes xformXres xformYres imageData workspace = some l) : l.length = workspace.length := by
  rw [columnPass] at h
  split at h
  · exact writes_length h
  · cases h

theorem encodeLoop_high (hlt : xRes < yRes) (heven : 2 ∣ yRes) (hx : 0 < xRes) (rounds : Nat)
    {imageData workspace : List ℚ} (hlen : workspace.length = xRes * yRes) :
    encodeLoop yRes (rounds + 1) xRes yRes imageData workspace = none := by
  rw [encodeLoop, if_neg (by omega)]
  rcases hrow : rowPass yRes xRes yRes imageData workspace with _ | w
  · rfl
  · rw [Option.bind_some, columnPass_high hlt heven hx (by rw [rowPass_length hrow, hlen])]
    rfl

/-- The loop does not change the size. -/
theorem encodeLoop_length {size : Nat} : ∀ (rounds xformXres xformYres : Nat) {imageData workspace l : List ℚ},
    imageData.length = size → workspace.length = size →
    encodeLoop yRes rounds xformXres xformYres imageData workspace = some l → l.length = size := by
  intro rounds
  induction rounds with
  | zero =>
    intro _ _ _ _ _ _ _ h
    cases h
  | succ rounds ih =>
    intro xformXres xformYres imageData workspace l hdata hwork h
    rw [encodeLoop] at h
    split at h
    · rw [← Option.some.inj h, hdata]
    · obtain ⟨w, hrow, h⟩ := Option.bind_eq_some_iff.1 h
      obtain ⟨w', hcolumn, h⟩ := Option.bind_eq_some_iff.1 h
      have hlen : w'.length = size := by rw [columnPass_length hcolumn, rowPass_length hrow, hwork]
      exact ih _ _ hlen hlen h

/-- The layout of a wide image reaches below its end. -/
theorem rearrange_wide {a b : Nat} (hlt : b < a) {bandSize : Nat} {imageData : List ℚ}
    (hlen : imageData.length = 2 ^ a * 2 ^ b) : rearrange (2 ^ a) bandSize imageData = none := by
  obtain ⟨c, rfl⟩ := Nat.exists_eq_add_of_lt (Nat.zero_lt_of_lt hlt)
  rw [Nat.zero_add] at hlt hlen ⊢
  rw [rearrange, if_neg]
  rintro ⟨-, h⟩
  have hpos : 0 < 2 ^ c := by positivity
  have hcell := @mem_layout_of_outside (c + 1) (2 ^ (c + 1)) 0 (2 ^ c) 0
    (by have := (c + 1).lt_two_pow_self; omega) (Nat.zero_le _) (by rw [pow_succ]; omega) (by positivity)
    (.inl (by rw [pow_zero]; omega))
  have hle : 2 ^ (c + 1) * 2 ^ b ≤ 2 ^ c * 2 ^ (c + 1) := by
    rw [Nat.mul_comm]
    exact Nat.mul_le_mul_right _ (Nat.pow_le_pow_right two_pos (by omega))
  have := h _ hcell
  omega

theorem encodeBand_not_square {a b : Nat} (hne : a ≠ b) {samples : List UInt8}
    (hlen : samples.length = 2 ^ a * 2 ^ b) : encodeBand (2 ^ a) (2 ^ b) samples = none := by
  have hlen' : (samples.map fun x => (x.toNat : ℚ)).length = 2 ^ a * 2 ^ b := by rw [List.length_map, hlen]
  rw [encodeBand]
  rcases Nat.lt_or_gt_of_ne hne with hlt | hlt
  · obtain ⟨c, rfl⟩ := Nat.exists_eq_add_of_lt (Nat.zero_lt_of_lt hlt)
    have hrounds : 2 ^ a + 2 ^ (0 + c + 1) = (2 ^ a + 2 ^ c + 2 ^ c - 1) + 1 := by
      have ha : 0 < 2 ^ a := by positivity
      have hc : 0 < 2 ^ c := by positivity
      rw [Nat.zero_add, pow_succ]
      omega
    have hhigh := @encodeLoop_high (2 ^ a) (2 ^ (0 + c + 1)) (Nat.pow_lt_pow_right one_lt_two hlt)
      ⟨2 ^ c, by rw [Nat.zero_add, pow_succ']⟩ (by positivity) (2 ^ a + 2 ^ c + 2 ^ c - 1)
      (samples.map fun x => (x.toNat : ℚ)) (List.replicate (2 ^ a * 2 ^ (0 + c + 1)) 0)
      (by rw [List.length_replicate])
    rw [hrounds, hhigh]
    rfl
  · rw [Option.bind_eq_none_iff]
    intro l hloop
    exact rearrange_wide hlt (encodeLoop_length _ _ _ hlen' (by rw [List.length_replicate]) hloop)

/-! ## Images -/

/-- Nothing is accessed out of bounds, and of each band every coefficient is
written, once, and every byte of the codec is. -/
structure EncodesWhole (image : Image) : Prop where
  inBounds : (encode image).isSome = true
  coefficients : ∀ p < image.width * image.height, (readCells image.width).count p = 1
  bytes : ∀ p < image.width * image.height, (writtenCells image.width).count p = 1

theorem encodeBand_square {n : Nat} {samples : List UInt8} (hlen : samples.length = 2 ^ n * 2 ^ n) :
    ∃ xform, encodeBand (2 ^ n) (2 ^ n) samples = some xform := by
  rcases Nat.eq_zero_or_pos n with rfl | hn
  · obtain ⟨x, rfl⟩ := List.length_eq_one_iff.1 hlen
    exact ⟨_, encodeBand_single x⟩
  · obtain ⟨_, xform, hxform, -⟩ := encodeBand_spec hn (samples_eq_grid hlen)
    exact ⟨xform, hxform⟩

theorem encodesWhole_square {image : Image} {n : Nat} (h : image.IsSquare n) : EncodesWhole image := by
  refine ⟨?_, fun p hp => ?_, fun p hp => ?_⟩
  · have hbands : ∀ band ∈ image.bands, encodeBand (2 ^ n) (2 ^ n) band =
        some ((encodeBand (2 ^ n) (2 ^ n) band).getD []) := by
      intro band hband
      have hlen := image.samples band hband
      rw [h.width, h.height] at hlen
      obtain ⟨xform, hxform⟩ := encodeBand_square hlen
      rw [hxform, Option.getD_some]
    rw [encode_eq h, Lib.Loops.mapM_eq_map hbands]
    rfl
  · rw [h.width, h.height] at hp
    rw [h.width, (readCells_perm n).count_eq]
    exact List.count_eq_one_of_mem List.nodup_range (List.mem_range.2 hp)
  · rw [h.width, h.height] at hp
    rw [h.width, writtenCells_eq]
    exact List.count_eq_one_of_mem List.nodup_range (List.mem_range.2 hp)

/-- An image that is not square is not encoded at all. -/
theorem encode_not_square {image : Image} {a b : Nat} (ha : image.width = 2 ^ a) (hb : image.height = 2 ^ b)
    (hne : a ≠ b) : encode image = none := by
  rw [encode]
  simp only [ha, hb]
  split
  · rfl
  · split
    · rfl
    · rename_i hbands
      split
      · rfl
      · rcases hcons : image.bands with _ | ⟨band, bands⟩
        · rw [hcons] at hbands
          simp at hbands
        · have hlen := image.samples band (by rw [hcons]; exact List.mem_cons_self)
          rw [ha, hb] at hlen
          rw [List.mapM_cons, encodeBand_not_square hne hlen]
          rfl

/-- **Of the images `encode` accepts exactly the square ones are encoded.** -/
theorem encodesWhole_iff (image : Image) (hwidth : isPowerOfTwo image.width = true)
    (hheight : isPowerOfTwo image.height = true)
    (hbands : image.bands.length = 1 ∨ image.bands.length = 3 ∨ image.bands.length = 4)
    (htype : isTypeValid (getWaveletType image.imageType) = true) :
    EncodesWhole image ↔ image.width = image.height := by
  obtain ⟨a, ha⟩ : ∃ a, image.width = 2 ^ a := ⟨_, of_decide_eq_true hwidth⟩
  obtain ⟨b, hb⟩ : ∃ b, image.height = 2 ^ b := ⟨_, of_decide_eq_true hheight⟩
  constructor
  · intro h
    by_contra hne
    have hnone := encode_not_square ha hb fun hab => hne (by rw [ha, hb, hab])
    have hsome := h.inBounds
    rw [hnone] at hsome
    cases hsome
  · intro h
    exact encodesWhole_square ⟨ha, by rw [← h, ha], hbands, htype⟩

theorem encodesWhole_fourGrays : EncodesWhole fourGrays :=
  (encodesWhole_iff fourGrays (by decide) (by decide) (by decide) (by decide)).2 rfl

/-- Two pixels side by side. -/
def wideGray : Image := ⟨.byteGray, 2, 1, [[10, 20]], Nat.two_pos, Nat.one_pos, by decide, by decide⟩

/-- Its width and height are powers of two, and encoding it throws. -/
theorem wideGray_throws :
    isPowerOfTwo wideGray.width = true ∧ isPowerOfTwo wideGray.height = true ∧ ¬ EncodesWhole wideGray := by
  refine ⟨by decide, by decide, fun h => ?_⟩
  have hnone := @encode_not_square wideGray 1 0 rfl rfl (by decide)
  have hsome := h.inBounds
  rw [hnone] at hsome
  cases hsome

end WorldWind.Wavelet
