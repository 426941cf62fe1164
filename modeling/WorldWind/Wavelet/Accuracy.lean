import WorldWind.Wavelet.Reconstruct
import WorldWind.Wavelet.Transform
/-!
# How close a reconstruction is

Rounding puts each coefficient within a half of the exact one, and every level
adds three of them to what it reconstructs (`pyramid_error`). An image of one
pixel is lost, because the encoder overwrites it with its empty workspace
(`encodeBand_single`), unless it is black.
-/

namespace WorldWind.Wavelet

open Lib.Grid Lib.Haar Lib.JavaArray Lib.JavaInt Lib.Nio

/-- A square image of side `2 ^ n` of the kinds that `encode` takes. -/
structure Image.IsSquare (image : Image) (n : Nat) : Prop where
  width : image.width = 2 ^ n
  height : image.height = 2 ^ n
  numBands : image.bands.length = 1 ∨ image.bands.length = 3 ∨ image.bands.length = 4
  type : isTypeValid (getWaveletType image.imageType) = true

/-- Each pixel is within `1/2 + (3/2) n` of the sample, and equal to it if all
samples are the same. -/
structure BandAccurate (n : Nat) (samples pixels : List UInt8) : Prop where
  length : pixels.length = samples.length
  near : ∀ p, |((pixels.getD p 0).toNat : ℚ) - (samples.getD p 0).toNat| ≤ 1 / 2 + 3 / 2 * n
  constant : (∀ x ∈ samples, ∀ x' ∈ samples, x = x') → pixels = samples

/-- Encoding and reconstructing at full resolution is accurate in every band. -/
def Accurate (image : Image) (n : Nat) : Prop :=
  ∃ codec bands, encode image = some codec ∧ codec.reconstruct (2 ^ n) = some bands ∧
    List.Forall₂ (BandAccurate n) image.bands bands

/-! ## Rounding -/

theorem abs_round_sub_le (x : ℚ) : |(round x : ℚ) - x| ≤ 1 / 2 := by
  have h1 := Int.floor_le (x + 1 / 2)
  have h2 := Int.lt_floor_add_one (x + 1 / 2)
  rw [round, abs_le]
  constructor <;> linarith

theorem round_intCast (z : Int) : round z = z := by
  rw [round, Int.floor_eq_iff]
  constructor <;> norm_num

theorem quantize_zero : quantize 0 = 0 := by
  have h := round_intCast 0
  rw [Int.cast_zero] at h
  rw [quantize, h]
  rfl

/-- Clamping an integer to an interval brings it no farther from a number inside. -/
theorem abs_clamp_sub_le {lo hi z : Int} {x : ℚ} (h1 : lo ≤ x) (h2 : x ≤ hi) :
    |((max lo (min hi z) : Int) : ℚ) - x| ≤ |(z : ℚ) - x| := by
  have hle : lo ≤ hi := by exact_mod_cast h1.trans h2
  rcases le_total z lo with hz | hz
  · have hq : (z : ℚ) ≤ lo := by exact_mod_cast hz
    rw [min_eq_right (hz.trans hle), max_eq_left hz, abs_of_nonpos (by linarith), abs_of_nonpos (by linarith)]
    linarith
  rcases le_total hi z with hz' | hz'
  · have hq : (hi : ℚ) ≤ z := by exact_mod_cast hz'
    rw [min_eq_left hz', max_eq_right hle, abs_of_nonneg (by linarith), abs_of_nonneg (by linarith)]
    linarith
  · rw [min_eq_right hz', max_eq_right hz]

theorem clampSample_toNat (v : Int) : ((clampSample v).toNat : ℚ) = (max 0 (min 255 v) : Int) := by
  have h : ((clampSample v).toNat : Int) = max 0 (min 255 v) := by
    rw [clampSample, UInt8.toNat_ofNat']
    omega
  exact_mod_cast h

theorem abs_quantizeAverage_sub_le {x : ℚ} (h1 : 0 ≤ x) (h2 : x ≤ 255) :
    |(ubyte (quantizeAverage x) : ℚ) - x| ≤ |(round x : ℚ) - x| := by
  have h : (ubyte (quantizeAverage x) : Int) = max 0 (min 255 (round x)) := by
    rw [quantizeAverage, ubyte_byte]
    omega
  have hq : (ubyte (quantizeAverage x) : ℚ) = (max 0 (min 255 (round x)) : Int) := by exact_mod_cast h
  rw [hq]
  exact abs_clamp_sub_le (by simpa using h1) (by simpa using h2)

/-- A coefficient of 127.5 is cut to 127, all others to the nearest byte. -/
theorem abs_quantize_sub_le {x : ℚ} (h : |x| ≤ 255 / 2) : |((quantize x).toInt : ℚ) - x| ≤ 1 / 2 := by
  rw [abs_le] at h
  have hround := abs_le.1 (abs_round_sub_le x)
  have hlow : -128 ≤ round x := by
    have : (-129 : ℚ) < round x := by linarith
    exact_mod_cast this
  have hhigh : round x ≤ 128 := by
    have : (round x : ℚ) < 129 := by linarith
    have : round x < 129 := by exact_mod_cast this
    omega
  have hint : (quantize x).toInt = min 127 (round x) := by
    rw [quantize, Int8.toInt_ofInt_of_le (by omega) (by omega)]
    omega
  rw [hint]
  rcases le_total (round x) 127 with hle | hle
  · rw [min_eq_right hle]
    exact abs_round_sub_le x
  · have hq : (127 : ℚ) ≤ round x := by exact_mod_cast hle
    rw [min_eq_left hle, abs_le]
    push_cast
    constructor <;> linarith

/-! ## Errors add up over the levels -/

/-- The coefficients are within `e` of the exact ones for `y`. -/
structure Approximates (e : ℚ) (n : Nat) (y : Nat → Nat → ℚ) (xform : List Int8) : Prop where
  average : |(ubyte (xform.getD 0 0) : ℚ) - coarse y n 0 0| ≤ e
  horizontal : ∀ m k, m + k + 1 = n → ∀ j < 2 ^ m, ∀ i < 2 ^ m,
    |(coefficient xform (2 ^ m * 2 ^ m + (j * 2 ^ m + i)) : ℚ) - horizontal (coarse y k) j i| ≤ e
  vertical : ∀ m k, m + k + 1 = n → ∀ j < 2 ^ m, ∀ i < 2 ^ m,
    |(coefficient xform (2 ^ m * 2 ^ m + 2 ^ m * 2 ^ m + (j * 2 ^ m + i)) : ℚ) - vertical (coarse y k) j i| ≤ e
  diagonal : ∀ m k, m + k + 1 = n → ∀ j < 2 ^ m, ∀ i < 2 ^ m,
    |(coefficient xform (2 ^ m * 2 ^ m + 2 * (2 ^ m * 2 ^ m) + (j * 2 ^ m + i)) : ℚ) - diagonal (coarse y k) j i| ≤ e

theorem pyramid_error {e : ℚ} {n : Nat} {y : Nat → Nat → ℚ} {xform : List Int8} (h : Approximates e n y xform) :
    ∀ m k, m + k = n → ∀ j < 2 ^ m, ∀ i < 2 ^ m, |(pyramid xform m j i : ℚ) - coarse y k j i| ≤ e + 3 * e * m := by
  intro m
  induction m with
  | zero =>
    intro k hk j hj i hi
    obtain rfl : k = n := by omega
    obtain rfl : j = 0 := by omega
    obtain rfl : i = 0 := by omega
    simpa [pyramid] using h.average
  | succ m ih =>
    intro k hk j hj i hi
    rw [pow_succ'] at hj hi
    have hj' : j / 2 < 2 ^ m := by omega
    have hi' : i / 2 < 2 ^ m := by omega
    have haverage := ih (k + 1) (by omega) _ hj' _ hi'
    have hhorizontal := h.horizontal m k (by omega) _ hj' _ hi'
    have hvertical := h.vertical m k (by omega) _ hj' _ hi'
    have hdiagonal := h.diagonal m k (by omega) _ hj' _ hi'
    have hcast := map_quad (Int.castRingHom ℚ) (pyramid xform m (j / 2) (i / 2))
      (coefficient xform (2 ^ m * 2 ^ m + (j / 2 * 2 ^ m + i / 2)))
      (coefficient xform (2 ^ m * 2 ^ m + 2 ^ m * 2 ^ m + (j / 2 * 2 ^ m + i / 2)))
      (coefficient xform (2 ^ m * 2 ^ m + 2 * (2 ^ m * 2 ^ m) + (j / 2 * 2 ^ m + i / 2))) j i
    simp only [eq_intCast] at hcast
    rw [coarse] at haverage
    rw [pyramid, hcast, ← quad_analysis (coarse y k) j i]
    refine (abs_quad_sub_le _ _ _ _ _ _ _ _ j i).trans ?_
    push_cast
    linarith

/-! ## A band -/

section Band

variable {n : Nat} {samples : List UInt8}

/-- A sample, as the encoder reads it. -/
def sampleAt (n : Nat) (samples : List UInt8) (j i : Nat) : ℚ := ((samples.getD (j * 2 ^ n + i) 0).toNat : ℚ)

theorem sampleAt_mem (j i : Nat) : 0 ≤ sampleAt n samples j i ∧ sampleAt n samples j i ≤ 255 := by
  have h := (samples.getD (j * 2 ^ n + i) 0).toNat_lt
  refine ⟨Nat.cast_nonneg _, ?_⟩
  rw [sampleAt]
  exact_mod_cast (by omega : (samples.getD (j * 2 ^ n + i) 0).toNat ≤ 255)

theorem samples_eq_grid (hlen : samples.length = 2 ^ n * 2 ^ n) :
    (samples.map fun x => (x.toNat : ℚ)) = grid (2 ^ n * 2 ^ n) (2 ^ n) (sampleAt n samples) := by
  conv_lhs => rw [eq_grid (2 ^ n) samples hlen 0]
  exact map_grid _ _ _ _

/-- What `encode` makes of a band of more than one pixel. -/
theorem encodeBand_spec (hn : 1 ≤ n) {y : Nat → Nat → ℚ}
    (hy : (samples.map fun x => (x.toNat : ℚ)) = grid (2 ^ n * 2 ^ n) (2 ^ n) y) :
    ∃ g xform, encodeBand (2 ^ n) (2 ^ n) samples = some xform ∧ Transformed n y g ∧ Rearranged n g xform := by
  obtain ⟨g, hloop, htrans⟩ := encodeLoop_spec hn y
  obtain ⟨xform, hrearrange, hx⟩ := rearrange_spec (n := n) g
  exact ⟨g, xform, by rw [encodeBand, hy, hloop, Option.bind_some, hrearrange], htrans, hx⟩

/-- The encoder rounds averages and differences of bytes, which are in range. -/
theorem approximates_half {y g : Nat → Nat → ℚ} {xform : List Int8} (htrans : Transformed n y g)
    (hx : Rearranged n g xform) (hy : ∀ j i, 0 ≤ y j i ∧ y j i ≤ 255) : Approximates (1 / 2) n y xform := by
  have hdifferences : ∀ k j i, _ := fun k => abs_differences_le (coarse_mem k hy)
  refine ⟨?_, fun m k hmk j hj i hi => ?_, fun m k hmk j hj i hi => ?_, fun m k hmk j hj i hi => ?_⟩
  · have := coarse_mem n hy 0 0
    rw [hx.average, htrans.average]
    exact (abs_quantizeAverage_sub_le this.1 this.2).trans (abs_round_sub_le _)
  · rw [coefficient, (hx.blocks m (by omega) j hj i hi).1, htrans.horizontal m k hmk j hj i hi]
    exact abs_quantize_sub_le ((hdifferences k j i).1.trans (by norm_num))
  · rw [coefficient, (hx.blocks m (by omega) j hj i hi).2.1, htrans.vertical m k hmk j hj i hi]
    exact abs_quantize_sub_le ((hdifferences k j i).2.1.trans (by norm_num))
  · rw [coefficient, (hx.blocks m (by omega) j hj i hi).2.2, htrans.diagonal m k hmk j hj i hi]
    exact abs_quantize_sub_le ((hdifferences k j i).2.2.trans (by norm_num))

/-- A constant image has no differences, and an average that is a byte. -/
theorem approximates_zero {c : Nat} (hc : c ≤ 255) {g : Nat → Nat → ℚ} {xform : List Int8}
    (htrans : Transformed n (fun _ _ => (c : ℚ)) g) (hx : Rearranged n g xform) :
    Approximates 0 n (fun _ _ => (c : ℚ)) xform := by
  have hconst : ∀ k j i, coarse (fun _ _ => (c : ℚ)) k j i = c := fun k j i =>
    have h := coarse_mem (x := fun _ _ => (c : ℚ)) k (fun _ _ => ⟨le_rfl, le_rfl⟩) j i
    le_antisymm h.2 h.1
  have hdifferences : ∀ k j i, _ := fun k => abs_differences_le
    (coarse_mem (x := fun _ _ => (c : ℚ)) k fun _ _ => ⟨le_rfl, le_rfl⟩)
  simp only [sub_self, zero_div, abs_nonpos_iff] at hdifferences
  refine ⟨?_, fun m k hmk j hj i hi => ?_, fun m k hmk j hj i hi => ?_, fun m k hmk j hj i hi => ?_⟩
  · have hround := round_intCast (c : Int)
    rw [Int.cast_natCast] at hround
    rw [hx.average, htrans.average, hconst]
    refine (abs_quantizeAverage_sub_le (Nat.cast_nonneg c) (by exact_mod_cast hc)).trans_eq ?_
    rw [hround, Int.cast_natCast, sub_self, abs_zero]
  · rw [coefficient, (hx.blocks m (by omega) j hj i hi).1, htrans.horizontal m k hmk j hj i hi,
      (hdifferences k j i).1, quantize_zero]
    simp
  · rw [coefficient, (hx.blocks m (by omega) j hj i hi).2.1, htrans.vertical m k hmk j hj i hi,
      (hdifferences k j i).2.1, quantize_zero]
    simp
  · rw [coefficient, (hx.blocks m (by omega) j hj i hi).2.2, htrans.diagonal m k hmk j hj i hi,
      (hdifferences k j i).2.2, quantize_zero]
    simp

theorem getD_pixels (band : List Int8) {j i : Nat} (hj : j < 2 ^ n) (hi : i < 2 ^ n) :
    (pixels n band).getD (j * 2 ^ n + i) 0 = clampSample (pyramid band n j i) := by
  rw [pixels, List.getD_eq_getElem?_getD, List.getElem?_map, getElem?_cells hj hi]
  rfl

/-- A pixel is as close to a sample as what is clamped to it. -/
theorem pixel_error {e : ℚ} {y : Nat → Nat → ℚ} {xform : List Int8} (h : Approximates e n y xform) {j i : Nat}
    (hj : j < 2 ^ n) (hi : i < 2 ^ n) (hy : 0 ≤ y j i ∧ y j i ≤ 255) :
    |(((pixels n xform).getD (j * 2 ^ n + i) 0).toNat : ℚ) - y j i| ≤ e + 3 * e * n := by
  rw [getD_pixels xform hj hi, clampSample_toNat]
  exact (abs_clamp_sub_le (by simpa using hy.1) (by simpa using hy.2)).trans (pyramid_error h n 0 rfl j hj i hi)

/-- A band of more than one pixel is reconstructed accurately. -/
theorem bandAccurate (hn : 1 ≤ n) (hlen : samples.length = 2 ^ n * 2 ^ n) :
    ∃ xform, encodeBand (2 ^ n) (2 ^ n) samples = some xform ∧ xform.length = 2 ^ n * 2 ^ n ∧
      BandAccurate n samples (pixels n xform) := by
  obtain ⟨g, xform, hencode, htrans, hx⟩ := encodeBand_spec hn (samples_eq_grid hlen)
  have hcell : ∀ p < 2 ^ n * 2 ^ n, ∃ j i, j < 2 ^ n ∧ i < 2 ^ n ∧ p = j * 2 ^ n + i := fun p hp =>
    ⟨p / 2 ^ n, p % 2 ^ n, Nat.div_lt_of_lt_mul hp, Nat.mod_lt p (by positivity), (Nat.div_add_mod' p _).symm⟩
  refine ⟨xform, hencode, hx.length, by rw [length_pixels, hlen], fun p => ?_, fun hconst => ?_⟩
  · by_cases hp : p < 2 ^ n * 2 ^ n
    · obtain ⟨j, i, hj, hi, rfl⟩ := hcell p hp
      refine (pixel_error (approximates_half htrans hx sampleAt_mem) hj hi (sampleAt_mem j i)).trans_eq ?_
      ring
    · rw [List.getD_eq_getElem?_getD, List.getD_eq_getElem?_getD,
        List.getElem?_eq_none (by rw [length_pixels]; omega), List.getElem?_eq_none (by omega), sub_self, abs_zero]
      positivity
  · -- All samples are the first one.
    have hpos : 0 < samples.length := by rw [hlen]; positivity
    have hall : samples = List.replicate (2 ^ n * 2 ^ n) (samples.get ⟨0, hpos⟩) :=
      List.eq_replicate_iff.2 ⟨hlen, fun x hx => hconst x hx _ (List.getElem_mem hpos)⟩
    generalize samples.get ⟨0, hpos⟩ = v at hall
    have hv := v.toNat_lt
    obtain ⟨g', xform', hencode', htrans', hx'⟩ := encodeBand_spec hn (y := fun _ _ => (v.toNat : ℚ))
      (show (samples.map fun x => (x.toNat : ℚ)) = _ by rw [hall]; simp [grid, List.map_const'])
    obtain rfl : xform' = xform := Option.some.inj (hencode'.symm.trans hencode)
    rw [hall]
    refine List.eq_replicate_iff.2 ⟨length_pixels _, fun x hx => ?_⟩
    obtain ⟨⟨j, i⟩, hcell, rfl⟩ := List.mem_map.1 hx
    rw [mem_cells] at hcell
    have herror := pyramid_error (approximates_zero (by omega) htrans' hx') n 0 rfl j hcell.1 i hcell.2
    rw [mul_zero, zero_mul, add_zero, abs_nonpos_iff, sub_eq_zero, coarse] at herror
    have hpyramid : pyramid xform' n j i = v.toNat := by exact_mod_cast herror
    simp only [hpyramid]
    rw [clampSample, max_eq_right (by omega), min_eq_right (by omega), Int.toNat_natCast, UInt8.ofNat_toNat]

/-- The single pixel of an image is lost: the encoding is that of a black one. -/
theorem encodeBand_single (x : UInt8) : encodeBand 1 1 [x] = some [0] := by
  have hloop : encodeLoop 1 2 1 1 [(x.toNat : ℚ)] [0] = some [0] := rfl
  rw [encodeBand]
  simp only [List.map_cons, List.map_nil, Nat.mul_one, List.replicate_one]
  rw [hloop, Option.bind_some]
  decide +kernel

end Band

/-! ## An image -/

section Image

variable {image : Image} {n : Nat}

theorem encode_eq (h : image.IsSquare n) :
    encode image = (image.bands.mapM (encodeBand (2 ^ n) (2 ^ n))).map fun xform =>
      ⟨getWaveletType image.imageType, (2 : Int) ^ n, (2 : Int) ^ n, xform⟩ := by
  have hpower := WWMath.isPowerOfTwo_two_pow n
  rw [encode]
  simp only
  rw [h.width, h.height, if_neg (by simp [hpower]), if_neg (not_not.2 h.numBands), if_neg (not_not.2 h.type),
    Option.map_eq_bind]
  refine Option.bind_congr fun xform _ => ?_
  rw [WaveletCodec.new, if_pos h.type]
  push_cast
  rfl

/-- The number of pixels is an `int`. -/
theorem Image.IsSquare.lt_sixteen (h : image.IsSquare n) : n < 16 := by
  have hle := image.isArray
  rw [h.width, h.height, ← pow_add] at hle
  have := (Nat.pow_lt_pow_iff_right one_lt_two).1 hle
  omega

/-- Encoding and reconstructing an image is done band by band. -/
theorem accurate_iff_bands (h : image.IsSquare n) {f : List UInt8 → List Int8}
    (hbands : ∀ band ∈ image.bands, encodeBand (2 ^ n) (2 ^ n) band = some (f band))
    (hlen : ∀ band ∈ image.bands, (f band).length = 2 ^ n * 2 ^ n) :
    Accurate image n ↔ ∀ band ∈ image.bands, BandAccurate n band (pixels n (f band)) := by
  have hne : image.bands ≠ [] := by
    intro hnil
    have := h.numBands
    rw [hnil, List.length_nil] at this
    omega
  have hsize : int ((2 : Int) ^ n * 2 ^ n) = ((2 ^ n * 2 ^ n : Nat) : Int) := by
    rw [int_square (by have := h.lt_sixteen; omega), if_pos h.lt_sixteen]
    push_cast
    rfl
  have hencode := encode_eq h
  rw [Lib.Loops.mapM_eq_map hbands, Option.map_some] at hencode
  have hrec := reconstruct_spec (c := ⟨getWaveletType image.imageType, 2 ^ n, 2 ^ n, image.bands.map f⟩) hsize
    (le_refl n) (by simpa using hne) (by simpa using fun band hband => (hlen band hband).ge)
  simp only [List.map_map] at hrec
  have hforall : List.Forall₂ (BandAccurate n) image.bands (image.bands.map (pixels n ∘ f)) ↔
      ∀ band ∈ image.bands, BandAccurate n band (pixels n (f band)) := by
    rw [List.forall₂_map_right_iff, List.forall₂_same]
    rfl
  rw [← hforall]
  constructor
  · rintro ⟨codec, bands, hcodec, hbands', haccurate⟩
    obtain rfl := Option.some.inj (hencode.symm.trans hcodec)
    obtain rfl := Option.some.inj (hrec.symm.trans hbands')
    exact haccurate
  · intro haccurate
    exact ⟨_, _, hencode, hrec, haccurate⟩

theorem bandAccurate_single (x : UInt8) : BandAccurate 0 [x] [0] ↔ x = 0 := by
  constructor
  · intro h
    have hnear := h.near 0
    simp only [List.getD_cons_zero, UInt8.toNat_zero, Nat.cast_zero, zero_sub, abs_neg, Nat.abs_cast, mul_zero,
      add_zero] at hnear
    have hlt : (x.toNat : ℚ) < 1 := by linarith
    exact UInt8.toNat_inj.1 (Nat.lt_one_iff.1 (by exact_mod_cast hlt))
  · rintro rfl
    refine ⟨rfl, fun p => ?_, fun _ => rfl⟩
    rw [sub_self, abs_zero]
    positivity

/-- Encoding and reconstructing is accurate for every image of more than one
pixel, and of those with one pixel only for the black one. -/
theorem accurate_iff (h : image.IsSquare n) : Accurate image n ↔ 1 ≤ n ∨ ∀ band ∈ image.bands, ∀ x ∈ band, x = 0 := by
  have hlen : ∀ band ∈ image.bands, band.length = 2 ^ n * 2 ^ n := fun band hband => by
    rw [image.samples band hband, h.width, h.height]
  rcases Nat.eq_zero_or_pos n with rfl | hn
  · have hsingle : ∀ band ∈ image.bands, ∃ x, band = [x] := fun band hband =>
      List.length_eq_one_iff.1 (hlen band hband)
    have hblack : pixels 0 [0] = [0] := by decide
    rw [accurate_iff_bands h (f := fun _ => [0]) (fun band hband => by
      obtain ⟨x, rfl⟩ := hsingle band hband
      exact encodeBand_single x) fun band _ => rfl, hblack, or_iff_right (by omega)]
    refine forall₂_congr fun band hband => ?_
    obtain ⟨x, rfl⟩ := hsingle band hband
    rw [bandAccurate_single, List.forall_mem_singleton]
  · refine iff_of_true ?_ (Or.inl hn)
    have hspec : ∀ band ∈ image.bands, ∃ xform, encodeBand (2 ^ n) (2 ^ n) band = some xform ∧
        xform.length = 2 ^ n * 2 ^ n ∧ BandAccurate n band (pixels n xform) := fun band hband =>
      bandAccurate hn (hlen band hband)
    choose! f hf using hspec
    exact (accurate_iff_bands h (fun band hband => (hf band hband).1) fun band hband => (hf band hband).2.1).2
      fun band hband => (hf band hband).2.2

/-- A gray image of two by two pixels. -/
def fourGrays : Image := ⟨.byteGray, 2, 2, [[10, 20, 200, 31]], Nat.two_pos, Nat.two_pos, by decide, by decide⟩

theorem fourGrays_accurate : Accurate fourGrays 1 :=
  (accurate_iff ⟨rfl, rfl, Or.inl rfl, rfl⟩).2 (Or.inl le_rfl)

/-- A gray image of a single pixel. -/
def oneGray : Image := ⟨.byteGray, 1, 1, [[200]], Nat.one_pos, Nat.one_pos, by decide, by decide⟩

/-- It comes back black. -/
theorem oneGray_black :
    oneGray.IsSquare 0 ∧ ((encode oneGray).bind fun codec => codec.reconstruct 1) = some [[0]] ∧
      ¬ Accurate oneGray 0 := by
  have hencode : encode oneGray = some ⟨TYPE_BYTE_GRAY, 1, 1, [[0]]⟩ := by decide +kernel
  have hrec : WaveletCodec.reconstruct ⟨TYPE_BYTE_GRAY, 1, 1, [[0]]⟩ 1 = some [[0]] := by decide +kernel
  refine ⟨⟨rfl, rfl, Or.inl rfl, rfl⟩, by rw [hencode, Option.bind_some, hrec], ?_⟩
  rintro ⟨codec, bands, hcodec, hbands, haccurate⟩
  obtain rfl := Option.some.inj (hencode.symm.trans hcodec)
  obtain rfl := Option.some.inj (hrec.symm.trans hbands)
  have hband := List.forall₂_cons.1 haccurate
  exact absurd ((bandAccurate_single 200).1 hband.1) (by decide)

end Image

end WorldWind.Wavelet
