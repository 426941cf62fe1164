import WorldWind.Tiff.Geotiff
/-!
# Reading strips

`readPlanar` puts the strips of an image behind one another in a buffer and
takes the samples out of it when it has seen a strip for every row. With one
band and one row in a strip, `readPlanar_eq` says what comes out: the samples
of the bytes `appendStrip` puts together, if there are enough.
-/

namespace WorldWind.Tiff.TIFFReader

open Lib Lib.JavaArray Lib.JavaInt Lib.Nio

/-- The buffer of `cap` bytes holds `done`, and is in front of what is still zero. -/
structure Holding (order : ByteOrder) (cap : Nat) (done : List Int8) (b : ByteBuffer) : Prop where
  bytes : b.bytes = done ++ List.replicate (cap - done.length) 0
  position : b.position = done.length
  length_le : done.length ≤ cap
  order : b.order = order

/-- The bytes of a strip, as many as there is room for. -/
def appendStrip (content : List Int8) (cap : Nat) (done : List Int8) (strip : Nat × Nat) : List Int8 :=
  done ++ (content.drop strip.1).take (min strip.2 (cap - done.length))

theorem length_appendStrip_le (content : List Int8) (cap : Nat) (done : List Int8) (strip : Nat × Nat) :
    (appendStrip content cap done strip).length ≤ done.length + strip.2 := by
  rw [appendStrip, List.length_append, List.length_take]
  omega

section readStrip

variable {size : Nat} {samples : ByteBuffer → List Int} {past : Int → Int → Bool}
  {dec : ByteOrder → List Int8 → List Int}
  {fc : FileChannel} {order : ByteOrder} {height cells : Nat}

variable (fc) in
/-- A read into the buffer, once its limit is set for the strip. -/
theorem Holding.read {cap : Nat} {done : List Int8} {b : ByteBuffer} (h : Holding order cap done b)
    (hcap : cap < 2 ^ 31)
    (offset len : Nat) (hlen : len ≤ cap - done.length) :
    ∃ c, b.setLimit (int (b.position + (len : Int))) = some c ∧
      Holding order cap (done ++ (fc.content.drop offset).take len) ((fc.setPosition offset).read c).1 := by
  have hbytes : b.bytes.length = cap := by
    rw [h.bytes, List.length_append, List.length_replicate]
    have := h.length_le
    omega
  have hpos := h.position
  have hle := h.length_le
  have hint : int (b.position + (len : Int)) = ((done.length + len : Nat) : Int) := by
    rw [hpos, int_eq (by omega) (by omega), Int.natCast_add]
  refine ⟨{ b with limit := done.length + len, position := done.length }, ?_, ?_⟩
  · rw [hint, ByteBuffer.setLimit, if_pos ⟨by omega, by omega⟩, Int.toNat_natCast, hpos, Nat.min_eq_left (by omega)]
  · have hpart : ((fc.content.drop offset).take (done.length + len - done.length)) =
        (fc.content.drop offset).take len := by
      rw [Nat.add_sub_cancel_left]
    have hroom : ((fc.content.drop offset).take len).length ≤ cap - done.length :=
      (List.length_take_le _ _).trans hlen
    simp only [FileChannel.read, FileChannel.setPosition, hpart]
    refine ⟨?_, by rw [List.length_append], by rw [List.length_append]; omega, h.order⟩
    simp only [h.bytes, blit]
    rw [List.take_left, List.length_append, ← List.drop_drop, List.drop_left, List.drop_replicate, Nat.sub_sub]

variable (hpast : ∀ a b, (a > b → past a b = true) ∧ (past a b = true → a ≥ b))
  (hsamples : ∀ b : ByteBuffer, samples b = dec b.order b.remaining)

include hpast

variable (height samples fc) in
/-- One round, up to the test for the last row. -/
theorem readStrip_eq {s : Planar} {done : List Int8} (strip : Nat × Nat) (hdata : s.data = [List.replicate cells 0])
    (hband : s.band = 0) (hbuff : Holding order (cells * size) done s.buff) (hcap : cells * size < 2 ^ 31)
    (hlen : done.length + strip.2 < 2 ^ 31) :
    ∃ b, Holding order (cells * size) (appendStrip fc.content (cells * size) done strip) b ∧
      readStrip size samples past fc height 1 s (strip.1, strip.2) =
        if (height : Int) ≤ int (s.numRows + 1) then
          if (samples b.flip).length < cells then none
          else some ⟨[(samples b.flip).take cells], 1, 0, b.flip.clear⟩
        else some { s with numRows := int (s.numRows + 1), buff := b } := by
  have hle := hbuff.length_le
  have hpos := hbuff.position
  -- the length that is read, for either way to compare
  have hmin : (if past (int (s.buff.position + int strip.2)) (int (cells * size : Int)) then
      int (int (cells * size : Int) - s.buff.position) else int strip.2) =
      ((min strip.2 (cells * size - done.length) : Nat) : Int) := by
    have hbytes : int ((cells : Int) * size) = (cells * size : Nat) := by
      rw [← Int.natCast_mul]
      exact int_eq (by omega) (by omega)
    have hstrip : int (strip.2 : Int) = strip.2 := int_eq (by omega) (by omega)
    rw [hbytes, hstrip, hpos, int_eq (x := (done.length : Int) + strip.2) (by omega) (by omega),
      int_eq (x := ((cells * size : Nat) : Int) - done.length) (by omega) (by omega)]
    have hp := hpast (done.length + strip.2) (cells * size : Nat)
    split
    · rename_i h
      have := hp.2 h
      omega
    · rename_i h
      have : ¬ (done.length : Int) + strip.2 > (cells * size : Nat) := fun h' => h (hp.1 h')
      omega
  obtain ⟨c, hset, hread⟩ := hbuff.read fc hcap strip.1
    (min strip.2 (cells * size - done.length)) (Nat.min_le_right _ _)
  refine ⟨_, hread, ?_⟩
  simp only [readStrip, hdata, hband, List.getElem?_cons_zero, Option.bind_some, List.length_replicate, hmin, hset,
    Int.toNat_natCast, List.set_cons_zero]
  rw [if_neg (by omega)]

variable (samples fc) in
/-- The strips in front of the last row's. -/
theorem readStrips_eq (strips : List (Nat × Nat)) {s : Planar} (done : List Int8)
    (hdata : s.data = [List.replicate cells 0]) (hband : s.band = 0)
    (hbuff : Holding order (cells * size) done s.buff)
    (hcap : cells * size < 2 ^ 31) (hlen : done.length + (strips.map Prod.snd).sum < 2 ^ 31) {k : Nat}
    (hk : s.numRows = k) (hlast : k + strips.length < height) (hheight : height < 2 ^ 31) :
    ∃ s' : Planar, (strips.map fun p => ((p.1 : Int), (p.2 : Int))).foldlM
        (readStrip size samples past fc height 1) s = some s' ∧ s'.data = [List.replicate cells 0] ∧ s'.band = 0 ∧
      Holding order (cells * size) (strips.foldl (appendStrip fc.content (cells * size)) done) s'.buff ∧
      s'.numRows = (k + strips.length : Nat) := by
  induction strips generalizing s done k with
  | nil => exact ⟨s, rfl, hdata, hband, hbuff, hk⟩
  | cons strip strips ih =>
    rw [List.map_cons, List.sum_cons] at hlen
    rw [List.length_cons] at hlast
    have hstep := length_appendStrip_le fc.content (cells * size) done strip
    obtain ⟨b, hb, hread⟩ := readStrip_eq samples fc height hpast strip hdata hband hbuff hcap
      (by omega)
    have hnum : int (s.numRows + 1) = ((k + 1 : Nat) : Int) := by
      rw [hk]
      exact int_eq (by omega) (by omega)
    rw [hnum, if_neg (by omega)] at hread
    obtain ⟨s', hs', hd', hb', hh', hn'⟩ :=
        ih (s := { s with numRows := ((k + 1 : Nat) : Int), buff := b }) _ hdata hband hb
      (by omega) (k := k + 1) rfl (by omega)
    refine ⟨s', ?_, hd', hb', hh', by rw [hn', List.length_cons]; omega⟩
    rw [List.map_cons, List.foldlM_cons, hread]
    exact hs'

include hsamples

variable (dec) in
/-- With a strip for every row, the bytes the strips hold are taken as samples,
and a cell too few throws. -/
theorem readPlanar_eq (hdec : ∀ l, (dec order l).length = l.length / size) (hsize : 0 < size) {width : Nat}
    {strips : List (Nat × Nat)} (hstrips : strips.length = height) (hheight : 0 < height)
    (hcap : width * height * size < 2 ^ 31) (hlen : (strips.map Prod.snd).sum < 2 ^ 31)
    (hheight32 : height < 2 ^ 31) :
    readPlanar size samples past fc order width height 1 (strips.map fun p => ((p.1 : Int), (p.2 : Int))) 1 =
      let l := strips.foldl (appendStrip fc.content (width * height * size)) []
      if l.length < width * height * size then none else some [(dec order l).take (width * height)] := by
  have hcells : width * height ≤ width * height * size := Nat.le_mul_of_pos_right _ hsize
  have hint : int ((width : Int) * height) = (width * height : Nat) := by
    rw [← Int.natCast_mul]
    exact int_eq (by omega) (by omega)
  have hbytes : int ((width : Int) * height * size) = (width * height * size : Nat) := by
    rw [← Int.natCast_mul, ← Int.natCast_mul]
    exact int_eq (by omega) (by omega)
  -- the last strip is the one that completes the rows
  obtain ⟨front, last, rfl⟩ : ∃ front last, strips = front ++ [last] :=
    ⟨strips.dropLast, strips.getLast (by rintro rfl; simp at hstrips; omega), (List.dropLast_append_getLast _).symm⟩
  rw [List.length_append, List.length_singleton] at hstrips
  rw [List.map_append, List.sum_append, List.map_singleton, List.sum_singleton] at hlen
  rw [readPlanar, hint, hbytes, if_neg (by omega), ByteBuffer.allocate, if_neg (by omega), Option.bind_some,
    Int.toNat_natCast, Int.toNat_natCast, List.map_append, List.map_singleton, List.foldlM_append, List.foldl_append]
  obtain ⟨s', hs', hd', hb', hh', hn'⟩ := readStrips_eq samples fc hpast front
    (s := ⟨List.replicate (1 : Int).toNat (List.replicate (width * height) 0), 0, 0,
      ⟨List.replicate (width * height * size) 0, 0, width * height * size, order⟩⟩) [] rfl rfl
    ⟨by simp, rfl, Nat.zero_le _, rfl⟩ hcap (by simp only [List.length_nil]; omega) (k := 0) rfl (by omega) hheight32
  have hfront : ∀ (l : List (Nat × Nat)) (done : List Int8),
      (l.foldl (appendStrip fc.content (width * height * size)) done).length ≤
      done.length + (l.map Prod.snd).sum := by
    intro l
    induction l with
    | nil => intro done; simp
    | cons p l ih =>
      intro done
      have h1 := ih (appendStrip fc.content (width * height * size) done p)
      have h2 := length_appendStrip_le fc.content (width * height * size) done p
      rw [List.foldl_cons, List.map_cons, List.sum_cons]
      omega
  have hf := hfront front []
  rw [List.length_nil] at hf
  obtain ⟨b, hb, hread⟩ := readStrip_eq samples fc height hpast last hd' hb' hh' hcap
    (by omega)
  have hnum : int (s'.numRows + 1) = height := by
    rw [hn']
    exact (int_eq (by omega) (by omega)).trans (by omega)
  rw [hnum, if_pos (le_refl _)] at hread
  rw [hs']
  show Option.map _ (List.foldlM _ s' [((last.1 : Int), (last.2 : Int))]) = _
  have hflip : samples b.flip = dec order (List.foldl (appendStrip fc.content (width * height * size))
      (List.foldl (appendStrip fc.content (width * height * size)) [] front) [last]) := by
    rw [hsamples, show b.flip.order = order from hb.order, ByteBuffer.remaining, ByteBuffer.content]
    show dec order ((b.bytes.take b.position).drop 0) = _
    rw [hb.bytes, hb.position, List.take_left, List.drop_zero]
    rfl
  have hfull : (samples b.flip).length < width * height ↔
      (List.foldl (appendStrip fc.content (width * height * size))
        (List.foldl (appendStrip fc.content (width * height * size)) [] front) [last]).length <
          width * height * size := by
    rw [hflip, hdec, Nat.div_lt_iff_lt_mul hsize]
  simp only [List.foldlM_cons, hread, hfull]
  split
  · rfl
  · rw [← hflip]
    rfl

end readStrip

end WorldWind.Tiff.TIFFReader
