import WorldWind.Lib.Bits
import WorldWind.Lib.Nio
/-!
# LZW encodings as TIFF has them

Codes below 256 are single bytes, 256 clears the table, 257 is the end of the
information; from 258 on the codes are the entries of the table. Each code for
a string that begins the rest of the data adds an entry, that string and the
byte behind it. Codes have 9 bits, and one more as soon as entry 511, 1023 or
2047 is there, where each code written counts. After entry 4094 the table must
be cleared.
-/

namespace WorldWind.Lib.Lzw

open Bits Nio

/-- The string of a code, for the entries since the last clear. -/
def stringOf (table : List (List Int8)) (code : Nat) : Option (List Int8) :=
  if code < 256 then some [byte code] else if 258 ≤ code then table[code - 258]? else none

/-- The number of bits of the code behind `n` codes since the last clear. The
last of these counts as entry `257 + n`. -/
def width (n : Nat) : Nat :=
  if 257 + n < 511 then 9 else if 257 + n < 1023 then 10 else if 257 + n < 2047 then 11 else 12

/-- The entry that a code for `s` adds in front of the data `rest`. -/
def newEntry (s rest : List Int8) : List (List Int8) := (rest.head?.map fun b => s ++ [b]).toList

/-- `Codes n table data l`: behind `n` codes since the last clear, which have
made the entries of `table`, the data can be written as the codes of `l`, each
with its number of bits. The string of a code may be any entry that the data
begins with, not only the longest. -/
inductive Codes : Nat → List (List Int8) → List Int8 → List (Nat × Nat) → Prop where
  | finish {n : Nat} {table : List (List Int8)} : Codes n table [] [(257, width n)]
  | clear {n : Nat} {table : List (List Int8)} {data : List Int8} {l : List (Nat × Nat)} (hn : 1 ≤ n)
      (rest : Codes 0 [] data l) : Codes n table data ((256, width n) :: l)
  | code {n code : Nat} {table : List (List Int8)} {s data : List Int8} {l : List (Nat × Nat)} (hn : n < 3837)
      (hs : stringOf table code = some s) (rest : Codes (n + 1) (table ++ newEntry s data) data l) :
      Codes n table (s ++ data) ((code, width n) :: l)

/-- The bits of the codes. -/
def codeBits (l : List (Nat × Nat)) : List Bool := l.flatMap fun c => bitsOf c.2 c.1

theorem codeBits_cons (c : Nat × Nat) (l : List (Nat × Nat)) : codeBits (c :: l) = bitsOf c.2 c.1 ++ codeBits l :=
  List.flatMap_cons

/-- The bits of an array of bytes. -/
def bytesBits (bytes : List Int8) : List Bool := bytes.flatMap fun b => bitsOf 8 (ubyte b)

/-- An encoding begins with a clear code. Behind the end of the information the
last byte is filled up somehow. -/
def IsEncoding (data input : List Int8) : Prop :=
  ∃ l pad, Codes 0 [] data l ∧ bytesBits input = bitsOf 9 256 ++ codeBits l ++ pad

theorem stringOf_ne_nil {table : List (List Int8)} (h : ∀ s ∈ table, s ≠ []) {code : Nat} {s : List Int8}
    (hs : stringOf table code = some s) : s ≠ [] := by
  unfold stringOf at hs
  split at hs
  · obtain rfl := Option.some.inj hs
    exact List.cons_ne_nil _ _
  · split at hs
    · exact h s (List.mem_of_getElem? hs)
    · cases hs

/-- The codes there are: single bytes and entries. -/
theorem stringOf_eq_some {table : List (List Int8)} {code : Nat} {s : List Int8} (h : stringOf table code = some s) :
    (code < 256 ∧ s = [byte code]) ∨ (258 ≤ code ∧ table[code - 258]? = some s) := by
  unfold stringOf at h
  split at h
  · rename_i hlt
    exact Or.inl ⟨hlt, (Option.some.inj h).symm⟩
  · split at h
    · rename_i hge
      exact Or.inr ⟨hge, h⟩
    · cases h

theorem width_pos (n : Nat) : 9 ≤ width n := by
  unfold width
  split_ifs <;> omega

/-- Codes fit in their bits. -/
theorem lt_two_pow_width {n : Nat} (hn : n ≤ 3837) {code : Nat} (h : code < 258 + n) : code < 2 ^ width n := by
  unfold width
  split_ifs <;> omega

/-- Every code has a bit. -/
theorem Codes.length_le {n : Nat} {table : List (List Int8)} {data : List Int8} {l : List (Nat × Nat)}
    (h : Codes n table data l) : l.length ≤ (codeBits l).length := by
  induction h with
  | @finish n =>
    have := width_pos n
    rw [codeBits_cons, List.length_append, length_bitsOf, List.length_singleton]
    omega
  | @clear n _ _ _ _ _ ih | @code n _ _ _ _ _ _ _ _ ih =>
    have := width_pos n
    rw [codeBits_cons, List.length_append, length_bitsOf, List.length_cons]
    omega

theorem length_bytesBits (bytes : List Int8) : (bytesBits bytes).length = 8 * bytes.length := by
  induction bytes with
  | nil => rfl
  | cons b bytes ih =>
    rw [bytesBits, List.flatMap_cons, ← bytesBits, List.length_append, length_bitsOf, ih, List.length_cons]
    omega

end WorldWind.Lib.Lzw
