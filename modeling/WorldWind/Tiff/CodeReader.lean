import WorldWind.Tiff.Theorems
/-!
# `CodeReader` with Java's integers

The reader of codes as it is written: a byte is cast to an `int` with its sign, a code is
an `int` that is shifted and added to. It computes what the reader over natural numbers
does (`getCode_eq`), so successive calls return the successive fields of the bits, the
most significant bit first (`codes_eq_fields`).
-/

namespace WorldWind.Tiff.IntReader

open CodeReader Lib.Nio Lib.Bits Lib.Lzw

/-! ## The code -/

/-- The cast `(int) b`. -/
def intOf (b : Int8) : BitVec 32 := b.toBitVec.signExtend 32

/-- `cb < 0 ? 256 + cb : cb`. -/
def unsigned (cb : BitVec 32) : BitVec 32 := if cb.slt 0 then 256 + cb else cb

/-- What the loop takes from the current byte. -/
def readChunk (r : CodeReader) (b : Int8) (numBitsToRead : Nat) (returnCode : BitVec 32) :
    Nat × BitVec 32 × CodeReader :=
  if numBitsToRead ≥ 8 - r.currentBit then
    if r.currentBit = 0 then
      (numBitsToRead - 8, returnCode <<< 8 + unsigned (intOf b), { r with currentByte := r.currentByte + 1 })
    else
      (numBitsToRead - (8 - r.currentBit),
        returnCode <<< (8 - r.currentBit) + (intOf b &&& BitVec.ofNat 32 (backMask.getD (8 - r.currentBit) 0)),
        { r with currentByte := r.currentByte + 1, currentBit := 0 })
  else
    (0, returnCode <<< numBitsToRead +
      (unsigned (intOf b) &&& BitVec.ofNat 32 (0x00FF - frontMask.getD r.currentBit 0)).sshiftRight
        (8 - (r.currentBit + numBitsToRead)),
      { r with currentBit := r.currentBit + numBitsToRead })

/-- The loop. Each round reads at least one bit. -/
def readBits : Nat → Nat → BitVec 32 → CodeReader → Option (BitVec 32 × CodeReader)
  | 0, _, _, _ => none
  | rounds + 1, numBitsToRead, returnCode, r =>
    if numBitsToRead = 0 ∨ r.atEof then some (returnCode, r)
    else
      r.byteBuffer[r.currentByte]?.bind fun b =>
        let (numBitsToRead, returnCode, r) := readChunk r b numBitsToRead returnCode
        if r.currentByte = r.byteBuffer.length then some (returnCode, { r with atEof := true })
        else readBits rounds numBitsToRead returnCode r

def getCode (r : CodeReader) (numBitsToRead : Int) : Option (BitVec 32 × CodeReader) :=
  if numBitsToRead < 0 then some (0, r)
  else if r.atEof then some (-1, r)
  else readBits (numBitsToRead.toNat + 1) numBitsToRead.toNat 0 r

/-- Calls one after the other. -/
def codes : CodeReader → List Int → Option (List Int × CodeReader)
  | r, [] => some ([], r)
  | r, numBitsToRead :: widths =>
    (getCode r numBitsToRead).bind fun (code, r) => (codes r widths).map fun (l, r) => (code.toInt :: l, r)

/-! ## The reader over natural numbers -/

theorem unsigned_intOf (b : Int8) : unsigned (intOf b) = BitVec.ofNat 32 (ubyte b) := by
  have h : ∀ b : BitVec 8, unsigned (b.signExtend 32) = BitVec.ofNat 32 b.toNat := by decide +kernel
  exact h b.toBitVec

theorem intOf_and_backMask (b : Int8) {k : Nat} (hk : k < 8) :
    intOf b &&& BitVec.ofNat 32 (backMask.getD k 0) = BitVec.ofNat 32 (ubyte b &&& backMask.getD k 0) := by
  have h : ∀ b : BitVec 8, ∀ k < 8, b.signExtend 32 &&& BitVec.ofNat 32 (backMask.getD k 0) =
    BitVec.ofNat 32 (b.toNat &&& backMask.getD k 0) := by decide +kernel
  exact h b.toBitVec k hk

theorem sshiftRight_ofNat {x : Nat} (h : x < 2 ^ 31) (s : Nat) :
    (BitVec.ofNat 32 x).sshiftRight s = BitVec.ofNat 32 (x >>> s) := by
  have hmsb : (BitVec.ofNat 32 x).msb = false := by
    rw [BitVec.msb_eq_false_iff_two_mul_lt, BitVec.toNat_ofNat, Nat.mod_eq_of_lt (by omega)]
    omega
  have hle : x >>> s ≤ x := Nat.shiftRight_le x s
  rw [BitVec.sshiftRight_eq_of_msb_false hmsb]
  refine BitVec.eq_of_toNat_eq ?_
  rw [BitVec.toNat_ushiftRight, BitVec.toNat_ofNat, BitVec.toNat_ofNat, Nat.mod_eq_of_lt (by omega),
    Nat.mod_eq_of_lt (by omega)]

theorem shiftLeft_add_ofNat (acc k part : Nat) :
    BitVec.ofNat 32 acc <<< k + BitVec.ofNat 32 part = BitVec.ofNat 32 (acc <<< k + part) := by
  refine BitVec.eq_of_toNat_eq ?_
  rw [BitVec.toNat_add, BitVec.toNat_shiftLeft, BitVec.toNat_ofNat, BitVec.toNat_ofNat, BitVec.toNat_ofNat,
    Nat.shiftLeft_eq, Nat.shiftLeft_eq]
  simp [Nat.add_mod, Nat.mul_mod]

theorem readChunk_eq {r : CodeReader} (h : r.currentBit < 8) (b : Int8) (n acc : Nat) :
    readChunk r b n (BitVec.ofNat 32 acc) =
      ((r.readChunk b n acc).1, BitVec.ofNat 32 (r.readChunk b n acc).2.1, (r.readChunk b n acc).2.2) := by
  unfold readChunk CodeReader.readChunk
  by_cases hn : 8 - r.currentBit ≤ n
  · rw [if_pos hn, if_pos hn]
    by_cases h0 : r.currentBit = 0
    · rw [if_pos h0, if_pos h0, unsigned_intOf, shiftLeft_add_ofNat]
    · rw [if_neg h0, if_neg h0, intOf_and_backMask b (by omega), shiftLeft_add_ofNat]
  · rw [if_neg hn, if_neg hn, unsigned_intOf, ← BitVec.ofNat_and]
    rw [sshiftRight_ofNat, shiftLeft_add_ofNat]
    have hb := ubyte_lt b
    exact (Nat.and_le_left).trans_lt (by omega)

theorem readBits_eq (rounds : Nat) : ∀ {n acc : Nat} {r : CodeReader}, r.currentBit < 8 →
    readBits rounds n (BitVec.ofNat 32 acc) r =
      (CodeReader.readBits rounds n acc r).map fun c => (BitVec.ofNat 32 c.1, c.2) := by
  induction rounds with
  | zero => exact fun _ => rfl
  | succ rounds ih =>
    intro n acc r h
    rw [readBits, CodeReader.readBits]
    by_cases hdone : n = 0 ∨ r.atEof = true
    · rw [if_pos hdone, if_pos hdone]
      rfl
    · rw [if_neg hdone, if_neg hdone]
      cases hb : r.byteBuffer[r.currentByte]? with
      | none => rfl
      | some b =>
        have hbit : (r.readChunk b n acc).2.2.currentBit < 8 := by
          rw [CodeReader.readChunk_eq h]
          split
          · exact Nat.zero_lt_succ 7
          · simp only
            omega
        simp only [Option.bind_some, readChunk_eq h]
        split
        · rfl
        · exact ih hbit

theorem getCode_eq {r : CodeReader} (h : r.currentBit < 8) (n : Nat) :
    getCode r n = (r.getCode n).map fun c => (BitVec.ofInt 32 c.1, c.2) := by
  rw [getCode, CodeReader.getCode, if_neg (by omega), Int.toNat_natCast]
  by_cases heof : r.atEof = true
  · rw [if_pos heof, if_pos heof]
    rfl
  · rw [if_neg heof, if_neg heof, Option.map_map]
    have h0 : readBits (n + 1) n (BitVec.ofNat 32 0) r =
      (CodeReader.readBits (n + 1) n 0 r).map fun c => (BitVec.ofNat 32 c.1, c.2) := readBits_eq (n + 1) h
    rw [show (0 : BitVec 32) = BitVec.ofNat 32 0 from rfl, h0]
    simp [Function.comp_def]

theorem byteBuffer_readBits (rounds : Nat) : ∀ {n acc code : Nat} {r r' : CodeReader},
    CodeReader.readBits rounds n acc r = some (code, r') → r'.byteBuffer = r.byteBuffer := by
  induction rounds with
  | zero => exact fun h => by cases h
  | succ rounds ih =>
    intro n acc code r r' h
    have hchunk : ∀ b, (r.readChunk b n acc).2.2.byteBuffer = r.byteBuffer := by
      intro b
      unfold CodeReader.readChunk
      split_ifs <;> rfl
    rw [CodeReader.readBits] at h
    split at h
    · cases h
      rfl
    · rw [Option.bind_eq_some_iff] at h
      obtain ⟨b, -, h⟩ := h
      simp only at h
      split at h
      · cases h
        exact hchunk b
      · exact (ih h).trans (hchunk b)

/-! ## Fields -/

/-- Bits cut into fields, the most significant bit of each first. -/
def fields : List Nat → List Bool → List Nat
  | [], _ => []
  | w :: widths, bits => valueOf (bits.take w) :: fields widths (bits.drop w)

theorem valueOf_lt (bits : List Bool) : valueOf bits < 2 ^ bits.length := by
  induction bits with
  | nil => exact Nat.one_pos
  | cons b bits ih =>
    rw [valueOf, List.length_cons, pow_succ]
    cases b <;> simp <;> omega

/-- One call on a reader with bits enough. -/
theorem getCode_field {r : CodeReader} (hr : r.Valid) {w : Nat} (hw : 0 < w) (hle : w ≤ 31)
    (hbits : w ≤ r.bits.length) :
    ∃ code r', getCode r w = some (code, r') ∧ code.toInt = valueOf (r.bits.take w) ∧ r'.Valid ∧
      r'.bits = r.bits.drop w ∧ r'.byteBuffer = r.byteBuffer := by
  have hlength : (r.bits.take w).length = w := List.length_take_of_le hbits
  obtain ⟨r', hread, hr', hrest⟩ : ∃ r' : CodeReader, CodeReader.readBits (w + 1) w 0 r =
      some (0 * 2 ^ w + valueOf (r.bits.take w), r') ∧ r'.Valid ∧ r'.bits = r.bits.drop w :=
    readBits_spec (Nat.lt_succ_self w) hr hlength (List.take_append_drop w r.bits).symm
  have hne : r.bits ≠ [] := List.ne_nil_of_length_pos (hw.trans_le hbits)
  have hlt : valueOf (r.bits.take w) < 2 ^ 31 :=
    (valueOf_lt _).trans_le (by rw [hlength]; exact Nat.pow_le_pow_right (by decide) hle)
  refine ⟨BitVec.ofInt 32 (valueOf (r.bits.take w)), r', ?_, ?_, hr', hrest, byteBuffer_readBits _ hread⟩
  · rw [getCode_eq hr.bit_lt, CodeReader.getCode, not_atEof hr hne, if_neg (by decide), hread]
    simp
  · rw [BitVec.toInt_ofInt]
    exact Int.bmod_eq_of_le (by omega) (by omega)

/-- At the end of the bytes every call returns `-1`. -/
theorem codes_atEof {r : CodeReader} (h : r.atEof = true) (widths : List Int) (hwidths : ∀ n ∈ widths, 0 ≤ n) :
    codes r widths = some (widths.map fun _ => -1, r) := by
  induction widths with
  | nil => rfl
  | cons n widths ih =>
    have hn := hwidths n List.mem_cons_self
    rw [codes, getCode, if_neg (by omega), if_pos h, Option.bind_some]
    simp only
    rw [ih fun m hm => hwidths m (List.mem_cons_of_mem _ hm)]
    rfl

/-- Successive calls return the successive fields. -/
theorem codes_fields (widths : List Nat) : ∀ {r : CodeReader}, r.Valid → (∀ w ∈ widths, 0 < w ∧ w ≤ 31) →
    widths.sum ≤ r.bits.length →
    ∃ r', codes r (widths.map Int.ofNat) = some ((fields widths r.bits).map Int.ofNat, r') ∧
      r'.Valid ∧ r'.bits = r.bits.drop widths.sum ∧ r'.byteBuffer = r.byteBuffer := by
  induction widths with
  | nil => exact fun hr _ _ => ⟨_, rfl, hr, rfl, rfl⟩
  | cons w widths ih =>
    intro r hr hwidths hsum
    rw [List.sum_cons] at hsum
    obtain ⟨hw, hle⟩ := hwidths w List.mem_cons_self
    obtain ⟨code, r₁, hcode, hvalue, hr₁, hrest, hbuffer₁⟩ := getCode_field hr hw hle (by omega)
    obtain ⟨r', hcodes, hr', hbits, hbuffer⟩ := ih hr₁ (fun v hv => hwidths v (List.mem_cons_of_mem _ hv))
      (by rw [hrest, List.length_drop]; omega)
    refine ⟨r', ?_, hr', ?_, ?_⟩
    · rw [List.map_cons, codes, Int.ofNat_eq_natCast, hcode, Option.bind_some]
      simp only
      rw [hcodes, hvalue, hrest]
      rfl
    · rw [hbits, hrest, List.drop_drop, List.sum_cons]
    · exact hbuffer.trans hbuffer₁

/-- A reader stands at the end of its bytes when no bits are left. -/
theorem currentByte_eq_iff {r : CodeReader} (hr : r.Valid) :
    r.currentByte = r.byteBuffer.length ↔ r.bits.length = 0 := by
  have hbyte := hr.byte_le
  have hbit := hr.bit_lt
  rw [CodeReader.bits, List.length_drop, length_bytesBits, List.length_drop]
  omega

/-- The calls return the successive fields of the bits, and behind the last byte nothing but `-1`. -/
def ReadsFields (bytes : List Int8) (widths : List Nat) : Prop :=
  ∃ r, codes (CodeReader.new bytes) (widths.map Int.ofNat) =
    some ((fields widths (bytesBits bytes)).map Int.ofNat, r) ∧
    (r.currentByte = bytes.length ↔ widths.sum = 8 * bytes.length) ∧
    (bytes ≠ [] → r.currentByte = bytes.length →
      ∀ further : List Int, (∀ n ∈ further, 0 ≤ n) → codes r further = some (further.map fun _ => -1, r))

theorem codes_eq_fields (bytes : List Int8) (widths : List Nat) (hwidths : ∀ w ∈ widths, 9 ≤ w ∧ w ≤ 12)
    (hsum : widths.sum ≤ 8 * bytes.length) : ReadsFields bytes widths := by
  by_cases hbytes : bytes = []
  · subst hbytes
    cases widths with
    | nil => exact ⟨_, rfl, by simp [CodeReader.new], fun h => absurd rfl h⟩
    | cons w widths =>
      have hw := (hwidths w List.mem_cons_self).1
      rw [List.sum_cons, List.length_nil] at hsum
      omega
  · have hlength : (CodeReader.new bytes).bits.length = 8 * bytes.length := length_bytesBits bytes
    have hwidth : ∀ w ∈ widths, 0 < w ∧ w ≤ 31 := fun w hw => by
      have := hwidths w hw
      omega
    obtain ⟨r, hcodes, hr, hbits, hbuffer⟩ := codes_fields widths (new_valid hbytes) hwidth (hsum.trans hlength.ge)
    have hend := currentByte_eq_iff hr
    rw [hbuffer, hbits, List.length_drop, hlength] at hend
    refine ⟨r, hcodes, hend.trans (by omega), fun _ hlast further hfurther => ?_⟩
    exact codes_atEof (hr.eof.2 (by rw [hbuffer]; exact hlast)) further hfurther

theorem codes_eq_fields_nine : ReadsFields (List.replicate 9 85) (List.replicate 8 9) :=
  codes_eq_fields _ _ (by decide) (by decide)

end WorldWind.Tiff.IntReader
