import WorldWind.Lib.Lzw
import WorldWind.Tiff.Model
/-!
# Decoding a strip

The reader returns the bits of the strip in order (`getCode_spec`). The loop is
one table entry behind the encoder and otherwise in step with it
(`lzwLoop_spec`), so it returns the data if its buffer has the room. The buffer
has the room of one row (`lzwUncompress_iff`).
-/

namespace WorldWind.Tiff

open Lib.JavaArray Lib.Nio Lib.Bits Lib.Lzw

/-! ## The reader of codes -/

namespace CodeReader

/-- The reader stands inside of the bytes, or at their end and knows it. -/
structure Valid (r : CodeReader) : Prop where
  byte_le : r.currentByte ≤ r.byteBuffer.length
  bit_lt : r.currentBit < 8
  eof : r.atEof = true ↔ r.currentByte = r.byteBuffer.length
  bit_eof : r.currentByte = r.byteBuffer.length → r.currentBit = 0

/-- The bits that are left. -/
def bits (r : CodeReader) : List Bool := (bytesBits (r.byteBuffer.drop r.currentByte)).drop r.currentBit

theorem backMask_getD : ∀ k < 8, backMask.getD k 0 = 2 ^ k - 1 := by decide

theorem frontMask_getD : ∀ k < 8, 0x00FF - frontMask.getD k 0 = 2 ^ (8 - k) - 1 := by decide

/-- A chunk is the next bits of the byte. -/
theorem readChunk_eq {r : CodeReader} (h : r.currentBit < 8) (b : Int8) (n acc : Nat) :
    r.readChunk b n acc = if 8 - r.currentBit ≤ n then
      (n - (8 - r.currentBit), acc * 2 ^ (8 - r.currentBit) + valueOf ((bitsOf 8 (ubyte b)).drop r.currentBit),
        { r with currentByte := r.currentByte + 1, currentBit := 0 })
    else (0, acc * 2 ^ n + valueOf (((bitsOf 8 (ubyte b)).drop r.currentBit).take n),
      { r with currentBit := r.currentBit + n }) := by
  have hb := ubyte_lt b
  unfold readChunk
  rw [drop_bitsOf]
  split
  · rw [valueOf_bitsOf]
    by_cases h0 : r.currentBit = 0
    · rw [if_pos h0, h0, Nat.shiftLeft_eq, Nat.mod_eq_of_lt (by omega)]
    · rw [if_neg h0, Nat.shiftLeft_eq, backMask_getD _ (by omega), Nat.and_two_pow_sub_one_eq_mod]
  · rename_i hn
    rw [take_bitsOf (by omega), valueOf_bitsOf, Nat.shiftLeft_eq, frontMask_getD _ h, Nat.and_two_pow_sub_one_eq_mod,
      Nat.shiftRight_eq_div_pow, Nat.sub_add_eq]
    have hpow : 2 ^ (8 - r.currentBit) = 2 ^ (8 - r.currentBit - n) * 2 ^ n := by
      rw [← pow_add]
      congr 1
      omega
    rw [hpow, Nat.mod_mul_right_div_self]

/-- Bits that are left are in a byte. -/
theorem bits_eq {r : CodeReader} (hr : r.Valid) (hne : r.bits ≠ []) :
    ∃ b, r.byteBuffer[r.currentByte]? = some b ∧ r.currentByte < r.byteBuffer.length ∧
      r.bits = (bitsOf 8 (ubyte b)).drop r.currentBit ++ bytesBits (r.byteBuffer.drop (r.currentByte + 1)) := by
  have hlt : r.currentByte < r.byteBuffer.length := by
    refine lt_of_le_of_ne hr.byte_le fun heq => hne ?_
    rw [bits, heq, List.drop_length, bytesBits, List.flatMap_nil, List.drop_nil]
  have hbit := hr.bit_lt
  refine ⟨r.byteBuffer[r.currentByte], List.getElem?_eq_getElem hlt, hlt, ?_⟩
  rw [bits, List.drop_eq_getElem_cons hlt, bytesBits, List.flatMap_cons, List.drop_append_of_le_length, bytesBits]
  rw [length_bitsOf]
  omega

/-- Reading the number of bits that a code has returns the code. -/
theorem readBits_spec {rounds n acc : Nat} (hrounds : n < rounds) {r : CodeReader} (hr : r.Valid)
    {xs rest : List Bool} (hxs : xs.length = n) (hbits : r.bits = xs ++ rest) :
    ∃ r' : CodeReader, readBits rounds n acc r = some (acc * 2 ^ n + valueOf xs, r') ∧ r'.Valid ∧ r'.bits = rest := by
  induction rounds generalizing n acc r xs with
  | zero => omega
  | succ rounds ih =>
    rw [readBits]
    rcases Nat.eq_zero_or_pos n with rfl | hn
    · obtain rfl := List.length_eq_zero_iff.1 hxs
      exact ⟨r, by rw [if_pos (Or.inl rfl), pow_zero, valueOf, Nat.mul_one, Nat.add_zero], hr, hbits⟩
    have hne : r.bits ≠ [] := by
      intro hnil
      rw [hnil] at hbits
      rw [(List.append_eq_nil_iff.1 hbits.symm).1, List.length_nil] at hxs
      omega
    obtain ⟨b, hget, hlt, hsplit⟩ := bits_eq hr hne
    have hbit := hr.bit_lt
    have heof : r.atEof = false := by
      rw [← Bool.not_eq_true, hr.eof]
      omega
    have hchunk : ((bitsOf 8 (ubyte b)).drop r.currentBit).length = 8 - r.currentBit := by
      rw [List.length_drop, length_bitsOf]
    rw [if_neg (by rw [heof]; simp; omega), hget, Option.bind_some, readChunk_eq hbit]
    generalize (bitsOf 8 (ubyte b)).drop r.currentBit = chunk at *
    have heq := hsplit.symm.trans hbits
    by_cases hall : 8 - r.currentBit ≤ n
    · -- The chunk is the rest of the byte.
      have hfront := congrArg (List.take chunk.length) heq
      have hback := congrArg (List.drop chunk.length) heq
      rw [List.take_left, List.take_append_of_le_length (by omega)] at hfront
      rw [List.drop_left, List.drop_append_of_le_length (by omega)] at hback
      have hvalue : valueOf xs = valueOf chunk * 2 ^ (n - (8 - r.currentBit)) + valueOf (xs.drop chunk.length) := by
        conv_lhs => rw [← List.take_append_drop chunk.length xs, ← hfront, valueOf_append]
        rw [List.length_drop, hxs, hchunk]
      have hpow : 2 ^ n = 2 ^ (8 - r.currentBit) * 2 ^ (n - (8 - r.currentBit)) := by
        rw [← pow_add, Nat.add_sub_cancel' hall]
      have hacc : (acc * 2 ^ (8 - r.currentBit) + valueOf chunk) * 2 ^ (n - (8 - r.currentBit)) +
          valueOf (xs.drop chunk.length) = acc * 2 ^ n + valueOf xs := by
        rw [hvalue, hpow]
        ring
      rw [if_pos hall]
      simp only
      by_cases hend : r.currentByte + 1 = r.byteBuffer.length
      · rw [if_pos hend]
        rw [hend, List.drop_length, bytesBits, List.flatMap_nil] at hback
        obtain ⟨hxs', rfl⟩ := List.append_eq_nil_iff.1 hback.symm
        have hn' : n - (8 - r.currentBit) = 0 := by
          have := congrArg List.length hxs'
          rw [List.length_drop, List.length_nil] at this
          omega
        rw [hxs', valueOf, hn', pow_zero, Nat.mul_one, Nat.add_zero] at hacc
        refine ⟨_, by rw [hacc], ⟨by simp [hend], by simp, by simp [hend], by simp⟩, ?_⟩
        simp [bits, hend, bytesBits]
      · rw [if_neg hend]
        have hvalid : Valid { r with currentByte := r.currentByte + 1, currentBit := 0 } :=
          ⟨hlt, by simp, by rw [heof]; simpa using hend, fun _ => rfl⟩
        obtain ⟨r', hread, hr', hrest⟩ := ih (n := n - (8 - r.currentBit)) (by omega) hvalid
          (by rw [List.length_drop]; omega) hback
        exact ⟨r', by rw [hread, hacc], hr', hrest⟩
    · -- The code ends inside of the byte.
      have hfront := congrArg (List.take n) heq
      rw [List.take_append_of_le_length (by omega), List.take_left' hxs] at hfront
      obtain ⟨k, rfl⟩ := Nat.exists_eq_succ_of_ne_zero (show rounds ≠ 0 by omega)
      rw [if_neg hall]
      simp only
      rw [if_neg (by omega), readBits, if_pos (Or.inl rfl), hfront]
      refine ⟨_, rfl, ⟨hr.byte_le, ?_, hr.eof, fun hend => absurd hend (by simp; omega)⟩, ?_⟩
      · show r.currentBit + n < 8
        omega
      · show (bytesBits (r.byteBuffer.drop r.currentByte)).drop (r.currentBit + n) = rest
        rw [← List.drop_drop]
        show r.bits.drop n = rest
        rw [hbits, List.drop_left' hxs]

theorem not_atEof {r : CodeReader} (hr : r.Valid) (hne : r.bits ≠ []) : r.atEof = false := by
  obtain ⟨b, -, hlt, -⟩ := bits_eq hr hne
  rw [← Bool.not_eq_true, hr.eof]
  omega

theorem getCode_spec {r : CodeReader} (hr : r.Valid) {w code : Nat} (hw : 0 < w) (hcode : code < 2 ^ w)
    {rest : List Bool} (hbits : r.bits = bitsOf w code ++ rest) :
    ∃ r' : CodeReader, r.getCode w = some ((code : Int), r') ∧ r'.Valid ∧ r'.bits = rest := by
  obtain ⟨r', hread, hr', hrest⟩ := readBits_spec (Nat.lt_succ_self w) hr (length_bitsOf w code) hbits
  have hne : r.bits ≠ [] := by
    rw [hbits]
    exact List.ne_nil_of_length_pos (by simp; omega)
  refine ⟨r', ?_, hr', hrest⟩
  rw [getCode, not_atEof hr hne, if_neg (by decide), hread, Option.map_some, valueOf_bitsOf, Nat.mod_eq_of_lt hcode]
  simp

theorem new_valid {bytes : List Int8} (h : bytes ≠ []) : (new bytes).Valid := by
  have := List.length_pos_iff.2 h
  exact ⟨Nat.zero_le _, Nat.zero_lt_succ 7, by simp [new]; omega, fun h => rfl⟩

theorem bits_new (bytes : List Int8) : (new bytes).bits = bytesBits bytes := rfl

end CodeReader

/-! ## The decoder -/

section Decoder

variable {row n : Nat} {entries : List (List Int8)} {data done : List Int8} {s : State}

/-- The output after `done` has been put. -/
def outputOf (row : Nat) (done : List Int8) : ByteBuffer := ByteBuffer.filled .bigEndian row done

theorem put_outputOf (row : Nat) (done x : List Int8) : (outputOf row done).put x =
    if (done ++ x).length ≤ row then some (outputOf row (done ++ x)) else none := ByteBuffer.put_filled x

/-- What the decoder returns when the strip holds the data `l`. -/
def padded (row : Nat) (l : List Int8) : Option (List Int8) :=
    if l.length ≤ row then some (outputOf row l).bytes else none

/-- A symbol table with its single bytes. -/
structure IsTable (symbolTable : List (List Int8)) : Prop where
  length : symbolTable.length = 4096
  bytes : ∀ code < 256, symbolTable[code]? = some [byte code]

/-- Resetting restores the single bytes. -/
theorem resetTable_spec {symbolTable : List (List Int8)} (hlen : symbolTable.length = 4096)
    (hone : ∀ code < 256, ∃ b, symbolTable[code]? = some [b]) :
    ∃ t, resetTable symbolTable = some t ∧ IsTable t := by
  have hbytes : ∀ code, ((List.range 256).map fun i => [byte i])[code]? =
      if code < 256 then some [byte code] else none := by
    intro code
    rw [List.getElem?_map]
    split
    · rename_i h
      rw [List.getElem?_range h]
      rfl
    · rename_i h
      rw [List.getElem?_eq_none (by rw [List.length_range]; omega)]
      rfl
  have htable : ∀ code, ((List.range 256).map (fun i => [byte i]) ++ symbolTable.drop 256)[code]? =
      if code < 256 then some [byte code] else symbolTable[code]? := by
    intro code
    rw [List.getElem?_append, List.length_map, List.length_range]
    split
    · rename_i h
      rw [hbytes, if_pos h]
    · rw [List.getElem?_drop, Nat.add_sub_cancel' (by omega)]
  refine ⟨(List.range 256).map (fun i => [byte i]) ++ symbolTable.drop 256, ?_, ?_, fun code h => ?_⟩
  · refine writes_eq (by simp [hlen]) (fun c hc => ?_) fun p hp => ?_
    · obtain ⟨i, hi, rfl⟩ := List.mem_map.1 hc
      rw [List.mem_range] at hi
      obtain ⟨b, hb⟩ := hone i hi
      rw [htable, if_pos hi, List.getD_eq_getElem?_getD, hb]
      rfl
    · rw [htable, if_neg]
      intro hlt
      exact hp _ (List.mem_map.2 ⟨p, List.mem_range.2 hlt, rfl⟩) rfl
  · simp [hlen]
  · rw [htable, if_pos h]

/-- The decoder behind `n` codes since the last clear. It is one entry behind
the encoder: the last entry is the string of the last code and the next byte. -/
structure Running (row n : Nat) (entries : List (List Int8)) (data done : List Int8) (s : State) : Prop where
  table : IsTable s.symbolTable
  known : ∀ i, i + 1 < n → s.symbolTable[258 + i]? = entries[i]?
  made : data ≠ [] → entries.length = n
  strings : ∀ e ∈ entries, e ≠ []
  old : ∃ w, symbolAt s.symbolTable s.oldCode = some w ∧ w ≠ [] ∧
    ∀ b, data.head? = some b → entries[n - 1]? = some (w ++ [b])
  next : s.nextSymbol = 257 + n
  bitsToRead : s.bitsToRead = width n
  pos : 1 ≤ n
  le : n ≤ 3837
  out : s.out = outputOf row done
  fits : done.length ≤ row
  reader : s.reader.Valid

theorem symbolAt_natCast (symbolTable : List (List Int8)) (code : Nat) :
    symbolAt symbolTable code = symbolTable[code]? := by
  rw [symbolAt, if_neg (by omega), Int.toNat_natCast]

/-- The widths of decoder and encoder agree. -/
theorem width_succ (hn : 1 ≤ n) :
    (if 257 + n + 1 = 2047 then 12 else if 257 + n + 1 = 1023 then 11 else if 257 + n + 1 =
      511 then 10 else width n) =
      width (n + 1) := by
  unfold width
  split_ifs <;> omega

theorem getElem?_newEntry {x rest : List Int8} {b : Int8} (hlen : entries.length = n) (h : rest.head? = some b) :
    (entries ++ newEntry x rest)[n]? = some (x ++ [b]) := by
  rw [List.getElem?_append_right (by omega), hlen, Nat.sub_self, newEntry, h]
  rfl

/-- A code between others. -/
theorem decodeSymbol_spec {x : List Int8} {code : Nat} (h : Running row n entries (x ++ data) done s) (hn : n < 3837)
    (hx : stringOf entries code = some x) {reader : CodeReader} (hreader : reader.Valid) :
    if (done ++ x).length ≤ row then
      ∃ s', decodeSymbol s code reader = some s' ∧ s'.reader = reader ∧
        Running row (n + 1) (entries ++ newEntry x data) data (done ++ x) s'
    else decodeSymbol s code reader = none := by
  obtain ⟨w, hw, hwne, hlast⟩ := h.old
  obtain ⟨b, x', rfl⟩ := List.exists_cons_of_ne_nil (stringOf_ne_nil h.strings hx)
  have hlen := h.made (by simp)
  have hpos := h.pos
  have hlast := hlast b rfl
  -- Both branches put the string of the code and enter the missing entry.
  have hbranch : (if (code : Int) < s.nextSymbol then
      (symbolAt s.symbolTable code).bind fun symbol => symbol[0]?.map fun first => (symbol, w ++ [first])
      else w[0]?.map fun first => (w ++ [first], w ++ [first])) = some (b :: x', w ++ [b]) := by
    rw [h.next]
    rcases stringOf_eq_some hx with ⟨hlt, hbyte⟩ | ⟨hge, hentry⟩
    · rw [if_pos (by omega), symbolAt_natCast, h.table.bytes code hlt, ← hbyte]
      rfl
    · have hbound : code - 258 < entries.length := (List.getElem?_eq_some_iff.1 hentry).1
      by_cases hlt : code < 257 + n
      · have hknown := h.known (code - 258) (by omega)
        rw [Nat.add_sub_cancel' hge, hentry] at hknown
        rw [if_pos (by omega), symbolAt_natCast, hknown]
        rfl
      · rw [show code - 258 = n - 1 by omega, hlast] at hentry
        obtain ⟨first, w', rfl⟩ := List.exists_cons_of_ne_nil hwne
        have hcons := Option.some.inj hentry
        rw [List.cons_append, List.cons.injEq] at hcons
        obtain ⟨rfl, rfl⟩ := hcons
        rw [if_neg (by omega)]
        rfl
  have hput := put_outputOf row done (b :: x')
  have hwrite : write s.symbolTable s.nextSymbol (w ++ [b]) = some (s.symbolTable.set (257 + n) (w ++ [b])) := by
    rw [write, h.next, if_pos (by rw [h.table.length]; omega)]
  rw [decodeSymbol, hw, Option.bind_some, hbranch, Option.bind_some]
  simp only
  rw [h.out, hput]
  split
  · rename_i hle
    rw [Option.bind_some, hwrite, Option.map_some]
    have hset : ∀ i ≠ 257 + n, (s.symbolTable.set (257 + n) (w ++ [b]))[i]? = s.symbolTable[i]? := fun i hi =>
      List.getElem?_set_ne (Ne.symm hi)
    have hknown : ∀ i < n, (s.symbolTable.set (257 + n) (w ++ [b]))[258 + i]? = entries[i]? := by
      intro i hi
      by_cases hin : i + 1 < n
      · rw [hset _ (by omega), h.known i hin]
      · rw [show 258 + i = 257 + n by omega, List.getElem?_set_self (by rw [h.table.length]; omega),
          show i = n - 1 by omega, hlast]
    refine ⟨_, rfl, rfl, ?_⟩
    refine ⟨⟨by rw [List.length_set, h.table.length], fun c hc => by rw [hset c (by omega), h.table.bytes c hc]⟩,
      fun i hi => ?_, fun hne => ?_, fun e he => ?_, ⟨b :: x', ?_, List.cons_ne_nil _ _, fun c hc => ?_⟩, ?_, ?_,
      by omega, by omega, rfl, hle, hreader⟩
    · rw [hknown i (by omega), List.getElem?_append_left (by omega)]
    · obtain ⟨c, rest, rfl⟩ := List.exists_cons_of_ne_nil hne
      rw [List.length_append, hlen]
      rfl
    · rcases List.mem_append.1 he with he | he
      · exact h.strings e he
      · obtain ⟨c, -, rfl⟩ := Option.map_eq_some_iff.1 (Option.mem_toList.1 he)
        exact List.append_ne_nil_of_right_ne_nil _ (List.cons_ne_nil _ _)
    · rw [symbolAt_natCast]
      rcases stringOf_eq_some hx with ⟨hlt, hbyte⟩ | ⟨hge, hentry⟩
      · rw [hset code (by omega), h.table.bytes code hlt, hbyte]
      · have hbound := (List.getElem?_eq_some_iff.1 hentry).1
        rw [← hentry, ← hknown (code - 258) (by omega), Nat.add_sub_cancel' hge]
    · rw [Nat.add_sub_cancel]
      exact getElem?_newEntry hlen hc
    · show s.nextSymbol + 1 = 257 + (n + 1)
      rw [h.next, Nat.add_assoc]
    · rw [← width_succ h.pos, ← h.bitsToRead, ← h.next]
  · rfl

/-- The first code behind a clear code. -/
theorem decodeFirst_spec (data : List Int8) {symbolTable : List (List Int8)} (htable : IsTable symbolTable)
    (hout : s.out = outputOf row done) {x : List Int8} {code : Nat} (hx : stringOf [] code = some x)
    {reader : CodeReader} (hreader : reader.Valid) :
    if (done ++ x).length ≤ row then
      ∃ s', decodeFirst s symbolTable code reader = some s' ∧ s'.reader = reader ∧
        Running row 1 (newEntry x data) data (done ++ x) s'
    else decodeFirst s symbolTable code reader = none := by
  rcases stringOf_eq_some hx with ⟨hlt, rfl⟩ | ⟨hge, hentry⟩
  · rw [decodeFirst, symbolAt_natCast, htable.bytes code hlt, Option.bind_some, hout, put_outputOf]
    split
    · rename_i hle
      refine ⟨_, rfl, rfl, ?_⟩
      refine ⟨htable, fun i hi => by omega, fun hne => ?_, fun e he => ?_, ⟨[byte code], ?_, List.cons_ne_nil _ _,
        fun c hc => ?_⟩, rfl, rfl, le_rfl, by omega, rfl, hle, hreader⟩
      · obtain ⟨c, rest, rfl⟩ := List.exists_cons_of_ne_nil hne
        rfl
      · obtain ⟨c, -, rfl⟩ := Option.map_eq_some_iff.1 (Option.mem_toList.1 he)
        exact List.append_ne_nil_of_right_ne_nil _ (List.cons_ne_nil _ _)
      · rw [symbolAt_natCast, htable.bytes code hlt]
      · exact getElem?_newEntry (List.length_nil (α := List Int8)) hc
    · rfl
  · simp at hentry

/-- The loop behind a clear code that comes next. -/
theorem lzwLoop_clear {rounds w : Nat} (hw : 9 ≤ w) {tail : List Bool} (hlen : s.symbolTable.length = 4096)
    (hone : ∀ code < 256, ∃ b, s.symbolTable[code]? = some [b]) (hreader : s.reader.Valid) (hto : s.bitsToRead = w)
    (hbits : s.reader.bits = bitsOf w 256 ++ tail) :
    ∃ (t : List (List Int8)) (reader : CodeReader), IsTable t ∧ reader.Valid ∧ reader.bits = tail ∧
      lzwLoop (rounds + 1) s = (reader.getCode 9).bind fun (code, reader) =>
        if code = EOI_CODE ∨ code = -1 then some s.out.bytes
        else (decodeFirst s t code reader).bind (lzwLoop rounds) := by
  have hpow : 2 ^ 9 ≤ 2 ^ w := Nat.pow_le_pow_right two_pos hw
  obtain ⟨reader, hget, hvalid, hrest⟩ := CodeReader.getCode_spec hreader (by omega) (by omega) hbits
  obtain ⟨t, hreset, ht⟩ := resetTable_spec hlen hone
  refine ⟨t, reader, ht, hvalid, hrest, ?_⟩
  rw [lzwLoop, hto, hget, Option.bind_some]
  simp only
  rw [if_neg (by decide), if_pos (by decide), hreset, Option.bind_some]

/-- A code that is neither the end nor a clear code. -/
theorem code_ne {x : List Int8} {code : Nat} (hx : stringOf entries code = some x) :
    ¬ ((code : Int) = EOI_CODE ∨ (code : Int) = -1) ∧ (code : Int) ≠ CLEAR_CODE := by
  simp only [EOI_CODE, CLEAR_CODE]
  rcases stringOf_eq_some hx with ⟨h, -⟩ | ⟨h, -⟩ <;> omega

theorem padded_of_le (h : done.length ≤ row) : padded row done = some (outputOf row done).bytes := if_pos h

/-- The decoder returns the data of the codes that come next, if they fit. This
is by induction on the codes; a clear code and the first code behind it are one
round of the loop. -/
theorem lzwLoop_spec {l : List (Nat × Nat)} (hcodes : Codes n entries data l) :
    ∀ (done : List Int8) (pad : List Bool) {rounds : Nat} {s : State}, l.length < rounds →
      (Running row n entries data done s → s.reader.bits = codeBits l ++ pad →
        lzwLoop rounds s = padded row (done ++ data)) ∧
      (n = 0 → entries = [] → s.symbolTable.length = 4096 → (∀ code < 256, ∃ b, s.symbolTable[code]? = some [b]) →
        s.out = outputOf row done → done.length ≤ row → s.reader.Valid → 9 ≤ s.bitsToRead →
        s.reader.bits = bitsOf s.bitsToRead 256 ++ (codeBits l ++ pad) →
        lzwLoop rounds s = padded row (done ++ data)) := by
  induction hcodes with
  | @finish n table =>
    intro done pad rounds s hrounds
    obtain ⟨rounds, rfl⟩ := Nat.exists_eq_succ_of_ne_zero (show rounds ≠ 0 by omega)
    rw [codeBits_cons, List.append_assoc, List.append_nil]
    refine ⟨fun h hbits => ?_, fun hn hentries hlen hone hout hfits hreader hto hbits => ?_⟩
    · have := h.pos
      obtain ⟨reader, hget, -, -⟩ := CodeReader.getCode_spec h.reader (by have := width_pos n; omega)
        (lt_two_pow_width h.le (by omega)) hbits
      rw [lzwLoop, h.bitsToRead, hget, Option.bind_some, padded_of_le h.fits, h.out]
      rfl
    · obtain ⟨t, reader, ht, hvalid, hrest, hloop⟩ := lzwLoop_clear hto hlen hone hreader rfl hbits
      obtain rfl := hn
      obtain ⟨reader', hget, -, -⟩ := CodeReader.getCode_spec hvalid (by decide) (lt_two_pow_width (n := 0) (by omega)
        (by omega)) hrest
      rw [show width 0 = 9 from rfl] at hget
      rw [hloop, hget, Option.bind_some, padded_of_le hfits, hout]
      rfl
  | @clear n table data l hn rest ih =>
    intro done pad rounds s hrounds
    refine ⟨fun h hbits => ?_, fun h0 => by omega⟩
    rw [codeBits_cons, List.append_assoc] at hbits
    rw [List.length_cons] at hrounds
    refine (ih done pad (by omega)).2 rfl rfl h.table.length (fun code hcode => ⟨_, h.table.bytes code hcode⟩)
      h.out h.fits h.reader ?_ ?_
    · rw [h.bitsToRead]
      exact width_pos n
    · rw [hbits, h.bitsToRead]
  | @code n code table x data l hn hx rest ih =>
    intro done pad rounds s hrounds
    obtain ⟨rounds, rfl⟩ := Nat.exists_eq_succ_of_ne_zero (show rounds ≠ 0 by omega)
    rw [List.length_cons] at hrounds
    obtain ⟨hnot, hclear⟩ := code_ne hx
    have hnone : ¬ (done ++ x).length ≤ row → padded row (done ++ (x ++ data)) = none := by
      intro hfit
      rw [padded, if_neg]
      simp only [List.length_append] at hfit ⊢
      omega
    rw [codeBits_cons, List.append_assoc]
    refine ⟨fun h hbits => ?_, fun h0 hentries hlen hone hout hfits hreader hto hbits => ?_⟩
    · have hcode : code < 258 + n := by
        rcases stringOf_eq_some hx with ⟨hlt, -⟩ | ⟨hge, hentry⟩
        · omega
        · have hlen := h.made (by
            have := stringOf_ne_nil h.strings hx
            simp [this])
          have := (List.getElem?_eq_some_iff.1 hentry).1
          omega
      obtain ⟨reader, hget, hvalid, hrest⟩ := CodeReader.getCode_spec h.reader (by have := width_pos n; omega)
        (lt_two_pow_width h.le hcode) hbits
      have hstep := decodeSymbol_spec h hn hx hvalid
      rw [lzwLoop, h.bitsToRead, hget, Option.bind_some]
      simp only
      rw [if_neg hnot, if_neg hclear]
      by_cases hfit : (done ++ x).length ≤ row
      · rw [if_pos hfit] at hstep
        obtain ⟨s', hs', hreader', hrun⟩ := hstep
        rw [hs', Option.bind_some, (ih _ pad (by omega)).1 hrun (by rw [hreader', hrest]), List.append_assoc]
      · rw [if_neg hfit] at hstep
        rw [hstep, Option.bind_none, hnone hfit]
    · obtain rfl := h0
      obtain rfl := hentries
      obtain ⟨t, reader, ht, hvalid, hrest, hloop⟩ := lzwLoop_clear hto hlen hone hreader rfl hbits
      have hcode : code < 258 := by
        rcases stringOf_eq_some hx with ⟨hlt, -⟩ | ⟨hge, hentry⟩
        · omega
        · simp at hentry
      obtain ⟨reader', hget, hvalid', hrest'⟩ := CodeReader.getCode_spec hvalid (by decide)
        (lt_two_pow_width (n := 0) (by omega) hcode) hrest
      rw [show width 0 = 9 from rfl] at hget
      have hstep := decodeFirst_spec data ht hout hx hvalid'
      rw [hloop, hget, Option.bind_some]
      simp only
      rw [if_neg hnot]
      by_cases hfit : (done ++ x).length ≤ row
      · rw [if_pos hfit] at hstep
        obtain ⟨s', hs', hreader', hrun⟩ := hstep
        rw [hs', Option.bind_some, (ih _ pad (by omega)).1 hrun (by rw [hreader', hrest']), List.append_assoc]
      · rw [if_neg hfit] at hstep
        rw [hstep, Option.bind_none, hnone hfit]

/-- A strip is decoded in a buffer of the size the caller asks for. -/
theorem lzwUncompress_eq {input : List Int8} (hinput : IsEncoding data input) :
    lzwUncompress input row = padded row data := by
  obtain ⟨l, pad, hcodes, hbits⟩ := hinput
  have hlength := congrArg List.length hbits
  rw [length_bytesBits, List.length_append, List.length_append, length_bitsOf] at hlength
  have hle := hcodes.length_le
  have hne : input ≠ [] := by
    rintro rfl
    simp at hlength
    omega
  have hout : ByteBuffer.allocate row = some (outputOf row []) := by
    rw [ByteBuffer.allocate, if_neg (by omega), Int.toNat_natCast]
    rfl
  rw [lzwUncompress, if_neg hne, hout, Option.bind_some]
  refine (lzwLoop_spec hcodes [] pad (by omega)).2 rfl rfl List.length_replicate
    (fun code hcode => ⟨0, ?_⟩) rfl (Nat.zero_le _) (CodeReader.new_valid hne) le_rfl ?_
  · rw [List.getElem?_replicate, if_pos (by omega)]
  · rw [CodeReader.bits_new, hbits, List.append_assoc]

/-- A strip of several rows comes back exactly when it is a single row, or
nothing at all. -/
theorem lzwUncompress_iff {k width samplesPerPixel : Nat} {input : List Int8} (hk : 1 ≤ k)
    (hdata : data.length = k * (width * samplesPerPixel)) (hinput : IsEncoding data input) :
    lzwUncompress input (width * samplesPerPixel : Nat) = some data ↔ k = 1 ∨ width * samplesPerPixel = 0 := by
  rw [lzwUncompress_eq hinput, padded, hdata]
  generalize width * samplesPerPixel = row at *
  constructor
  · intro h
    split at h
    · rename_i hle
      by_contra hnot
      have : 2 * row ≤ k * row := Nat.mul_le_mul_right row (by omega)
      omega
    · cases h
  · intro h
    have hrow : k * row = row := by rcases h with rfl | rfl <;> simp
    rw [hrow, if_pos le_rfl, outputOf, ByteBuffer.filled_all (hdata.trans hrow)]

end Decoder

/-- Two bytes 7: clear, 7, 7, end of information, of nine bits each, and four
bits to fill up. -/
def twoSevens : List Int8 := [-128, 1, -64, -16, 16]

theorem twoSevens_encoding : IsEncoding [7, 7] twoSevens := by
  refine ⟨[(7, 9), (7, 9), (257, 9)], [false, false, false, false], ?_, by decide +kernel⟩
  exact .code (s := [7]) (by omega) rfl (.code (s := [7]) (by omega) rfl .finish)

theorem twoSevens_one_row : lzwUncompress twoSevens (2 * 1 : Nat) = some [7, 7] :=
  (lzwUncompress_iff (k := 1) le_rfl rfl twoSevens_encoding).2 (Or.inl rfl)

/-- As two rows of one byte they do not fit in the buffer. -/
theorem twoSevens_two_rows :
    IsEncoding [7, 7] twoSevens ∧ [(7 : Int8), 7].length = 2 * (1 * 1) ∧
      lzwUncompress twoSevens (1 * 1 : Nat) = none := by
  refine ⟨twoSevens_encoding, rfl, ?_⟩
  rw [lzwUncompress_eq twoSevens_encoding]
  rfl

end WorldWind.Tiff
