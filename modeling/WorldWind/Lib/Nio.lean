import WorldWind.Lib.JavaArray
import WorldWind.Lib.JavaInt
import WorldWind.Lib.Records
/-!
# `java.nio.ByteBuffer`

A byte array with a position, a limit and a byte order. Relative puts and gets
work at the position and move it on; past the limit they throw, here `none`.
Two puts are one put of both parts (`put_put`), and a get takes what remains
apart (`get_remaining`).
-/

namespace WorldWind.Lib.Nio

open JavaArray JavaInt

/-- The value of a byte taken as unsigned, `b & 0xff`. -/
def ubyte (b : Int8) : Nat := b.toUInt8.toNat

/-- The cast `(byte) n`. -/
def byte (n : Nat) : Int8 := (UInt8.ofNat n).toInt8

theorem ubyte_byte (n : Nat) : ubyte (byte n) = n % 256 := by
  simp [ubyte, byte]

theorem ubyte_lt (b : Int8) : ubyte b < 256 := b.toUInt8.toNat_lt

inductive ByteOrder where
  | bigEndian
  | littleEndian
  deriving DecidableEq, Repr

/-! ## Ints as bytes -/

/-- Four bytes, the most significant first. -/
def wordBytes (n : Nat) : List Int8 := [byte (n / 2 ^ 24), byte (n / 2 ^ 16), byte (n / 2 ^ 8), byte n]

def wordOf : List Int8 → Nat
  | [a, b, c, d] => ubyte a * 2 ^ 24 + ubyte b * 2 ^ 16 + ubyte c * 2 ^ 8 + ubyte d
  | _ => 0

theorem wordOf_wordBytes {n : Nat} (h : n < 2 ^ 32) : wordOf (wordBytes n) = n := by
  simp only [wordBytes, wordOf, ubyte_byte]
  omega

/-- The four bytes of an `int`. -/
def intBytes (order : ByteOrder) (x : Int) : List Int8 :=
  match order with
  | .bigEndian => wordBytes (x % 2 ^ 32).toNat
  | .littleEndian => (wordBytes (x % 2 ^ 32).toNat).reverse

/-- The `int` in four bytes. -/
def intOf (order : ByteOrder) (l : List Int8) : Int :=
  match order with
  | .bigEndian => int (wordOf l)
  | .littleEndian => int (wordOf l.reverse)

@[simp] theorem intBytes_length (order : ByteOrder) (x : Int) : (intBytes order x).length = 4 := by
  cases order <;> rfl

theorem intOf_intBytes (order : ByteOrder) {x : Int} (h1 : -2 ^ 31 ≤ x) (h2 : x < 2 ^ 31) :
    intOf order (intBytes order x) = x := by
  have hword : wordOf (wordBytes (x % 2 ^ 32).toNat) = (x % 2 ^ 32).toNat := wordOf_wordBytes (by omega)
  have hback : int ((x % 2 ^ 32).toNat : Int) = x := by
    rw [Int.toNat_of_nonneg (by omega), int_emod, int_eq h1 h2]
  cases order with
  | bigEndian => rw [intBytes, intOf, hword, hback]
  | littleEndian => rw [intBytes, intOf, List.reverse_reverse, hword, hback]

theorem intBytes_int (order : ByteOrder) (x : Int) : intBytes order (int x) = intBytes order x := by
  cases order <;> rw [intBytes, intBytes, int_mod]

/-- The two bytes of a `short`. -/
def shortBytes (order : ByteOrder) (x : Int) : List Int8 :=
  let n := (x % 2 ^ 16).toNat
  match order with
  | .bigEndian => [byte (n / 2 ^ 8), byte n]
  | .littleEndian => [byte n, byte (n / 2 ^ 8)]

/-- The eight bytes of a `long`. -/
def longBytes (order : ByteOrder) (x : Int) : List Int8 :=
  let n := (x % 2 ^ 64).toNat
  match order with
  | .bigEndian => wordBytes (n / 2 ^ 32) ++ wordBytes n
  | .littleEndian => (wordBytes n).reverse ++ (wordBytes (n / 2 ^ 32)).reverse

/-- Four bytes as an unsigned number, `0xffffffffL & x` of their `int`. -/
def uintOf (order : ByteOrder) (l : List Int8) : Nat :=
  match order with
  | .bigEndian => wordOf l
  | .littleEndian => wordOf l.reverse

/-- Two bytes as an unsigned number, `0xffff & x` of their `short`. -/
def ushortOf (order : ByteOrder) (l : List Int8) : Nat :=
  match order, l with
  | .bigEndian, [a, b] => ubyte a * 2 ^ 8 + ubyte b
  | .littleEndian, [a, b] => ubyte b * 2 ^ 8 + ubyte a
  | _, _ => 0

/-- The `short` in two bytes. -/
def shortOf (order : ByteOrder) (l : List Int8) : Int := short (ushortOf order l)

theorem wordOf_lt (l : List Int8) : wordOf l < 2 ^ 32 := by
  match l with
  | [a, b, c, d] =>
    have := ubyte_lt a
    have := ubyte_lt b
    have := ubyte_lt c
    have := ubyte_lt d
    rw [wordOf]
    omega
  | [] | [_] | [_, _] | [_, _, _] | _ :: _ :: _ :: _ :: _ :: _ => exact Nat.two_pow_pos 32

theorem uintOf_lt (order : ByteOrder) (l : List Int8) : uintOf order l < 2 ^ 32 := by
  cases order <;> exact wordOf_lt _

theorem ushortOf_lt (order : ByteOrder) (l : List Int8) : ushortOf order l < 2 ^ 16 := by
  match l with
  | [a, b] =>
    have := ubyte_lt a
    have := ubyte_lt b
    cases order <;> rw [ushortOf] <;> omega
  | [] | [_] | _ :: _ :: _ :: _ => cases order <;> exact Nat.two_pow_pos 16

theorem intOf_eq (order : ByteOrder) (l : List Int8) : intOf order l = int (uintOf order l) := by
  cases order <;> rfl

theorem shortOf_eq (order : ByteOrder) (l : List Int8) : shortOf order l = short (ushortOf order l) := rfl

theorem intOf_emod (order : ByteOrder) (l : List Int8) : intOf order l % 2 ^ 32 = uintOf order l := by
  have := uintOf_lt order l
  rw [intOf_eq, int_mod]
  omega

theorem shortOf_emod (order : ByteOrder) (l : List Int8) : shortOf order l % 2 ^ 16 = ushortOf order l := by
  have := ushortOf_lt order l
  rw [shortOf, short_mod]
  omega

theorem uintOf_intBytes (order : ByteOrder) {n : Nat} (h : n < 2 ^ 32) : uintOf order (intBytes order n) = n := by
  have hn : ((n : Int) % 2 ^ 32).toNat = n := by omega
  cases order with
  | bigEndian => rw [intBytes, uintOf, hn, wordOf_wordBytes h]
  | littleEndian => rw [intBytes, uintOf, List.reverse_reverse, hn, wordOf_wordBytes h]

theorem ushortOf_shortBytes (order : ByteOrder) {n : Nat} (h : n < 2 ^ 16) :
    ushortOf order (shortBytes order n) = n := by
  have hn : ((n : Int) % 2 ^ 16).toNat = n := by omega
  cases order <;> simp only [shortBytes, ushortOf, ubyte_byte, hn] <;> omega

theorem shortOf_shortBytes (order : ByteOrder) {x : Int} (h1 : -2 ^ 15 ≤ x) (h2 : x < 2 ^ 15) :
    shortOf order (shortBytes order x) = x := by
  have hn : ((x % 2 ^ 16).toNat : Int) = x % 2 ^ 16 := Int.toNat_of_nonneg (by omega)
  have hbytes : shortBytes order x = shortBytes order ((x % 2 ^ 16).toNat : Nat) := by
    unfold shortBytes
    rw [hn, Int.emod_emod_of_dvd _ (dvd_refl _)]
  rw [shortOf, hbytes, ushortOf_shortBytes order (by omega), hn]
  exact short_emod h1 h2

/-- The whole `short`s in bytes, as unsigned numbers. -/
def ushortsOf (order : ByteOrder) (l : List Int8) : List Nat := (records 2 l).map (ushortOf order)

/-- The whole `int`s in bytes, as unsigned numbers. -/
def uintsOf (order : ByteOrder) (l : List Int8) : List Nat := (records 4 l).map (uintOf order)

@[simp] theorem shortBytes_length (order : ByteOrder) (x : Int) : (shortBytes order x).length = 2 := by
  cases order <;> rfl

@[simp] theorem longBytes_length (order : ByteOrder) (x : Int) : (longBytes order x).length = 8 := by
  cases order <;> rfl

theorem byte_eq {n : Nat} {b : Int8} (h : n % 256 = ubyte b) : byte n = b := by
  have huint : UInt8.ofNat n = b.toUInt8 := by
    apply UInt8.toNat_inj.1
    rw [UInt8.toNat_ofNat']
    exact h
  rw [byte, huint, Int8.toInt8_toUInt8]

theorem shortBytes_shortOf (order : ByteOrder) {l : List Int8} (h : l.length = 2) :
    shortBytes order (shortOf order l) = l := by
  obtain ⟨a, b, rfl⟩ := List.length_eq_two.1 h
  have ha := ubyte_lt a
  have hb := ubyte_lt b
  have hn : (shortOf order [a, b] % 2 ^ 16).toNat = ushortOf order [a, b] := by
    rw [shortOf_emod, Int.toNat_natCast]
  unfold shortBytes
  simp only [hn]
  cases order with
  | bigEndian => rw [ushortOf, byte_eq (b := a) (by omega), byte_eq (b := b) (by omega)]
  | littleEndian => rw [ushortOf, byte_eq (b := b) (by omega), byte_eq (b := a) (by omega)]

theorem wordBytes_wordOf {l : List Int8} (h : l.length = 4) : wordBytes (wordOf l) = l := by
  obtain ⟨a, b, c, d, rfl⟩ : ∃ a b c d, l = [a, b, c, d] := by
    match l, h with
    | [a, b, c, d], _ => exact ⟨a, b, c, d, rfl⟩
  have ha := ubyte_lt a
  have hb := ubyte_lt b
  have hc := ubyte_lt c
  have hd := ubyte_lt d
  rw [wordOf, wordBytes, byte_eq (b := a) (by omega), byte_eq (b := b) (by omega), byte_eq (b := c) (by omega),
    byte_eq (b := d) (by omega)]

theorem intBytes_intOf (order : ByteOrder) {l : List Int8} (h : l.length = 4) :
    intBytes order (intOf order l) = l := by
  have hn : (intOf order l % 2 ^ 32).toNat = uintOf order l := by
    rw [intOf_emod, Int.toNat_natCast]
  cases order with
  | bigEndian => rw [intBytes, hn, uintOf, wordBytes_wordOf h]
  | littleEndian => rw [intBytes, hn, uintOf, wordBytes_wordOf (by rwa [List.length_reverse]), List.reverse_reverse]

theorem ushortsOf_flatMap (order : ByteOrder) {l : List Nat} (h : ∀ n ∈ l, n < 2 ^ 16) :
    ushortsOf order (l.flatMap fun n : Nat => shortBytes order n) = l := by
  rw [ushortsOf, records_flatMap (by omega) fun n : Nat => shortBytes_length order n, List.map_map]
  exact (List.map_congr_left fun n hn => ushortOf_shortBytes order (h n hn)).trans (List.map_id l)

theorem uintsOf_flatMap (order : ByteOrder) {l : List Nat} (h : ∀ n ∈ l, n < 2 ^ 32) :
    uintsOf order (l.flatMap fun n : Nat => intBytes order n) = l := by
  rw [uintsOf, records_flatMap (by omega) fun n : Nat => intBytes_length order n, List.map_map]
  exact (List.map_congr_left fun n hn => uintOf_intBytes order (h n hn)).trans (List.map_id l)

/-! ## Buffers -/

structure ByteBuffer where
  bytes : List Int8
  position : Nat
  limit : Nat
  order : ByteOrder
  deriving DecidableEq, Repr

namespace ByteBuffer

/-- Wraps an array. -/
def wrap (bytes : List Int8) : ByteBuffer := ⟨bytes, 0, bytes.length, .bigEndian⟩

/-- Throws for a negative capacity. -/
def allocate (capacity : Int) : Option ByteBuffer :=
  if capacity < 0 then none else some ⟨List.replicate capacity.toNat 0, 0, capacity.toNat, .bigEndian⟩

def put (b : ByteBuffer) (src : List Int8) : Option ByteBuffer :=
  if b.position + src.length ≤ b.limit then
    some { b with bytes := blit b.bytes b.position src, position := b.position + src.length }
  else none

def putInt (b : ByteBuffer) (x : Int) : Option ByteBuffer := b.put (intBytes b.order x)

def putShort (b : ByteBuffer) (x : Int) : Option ByteBuffer := b.put (shortBytes b.order x)

def putLong (b : ByteBuffer) (x : Int) : Option ByteBuffer := b.put (longBytes b.order x)

def rewind (b : ByteBuffer) : ByteBuffer := { b with position := 0 }

def flip (b : ByteBuffer) : ByteBuffer := { b with position := 0, limit := b.position }

def get (b : ByteBuffer) (n : Nat) : Option (List Int8 × ByteBuffer) :=
  if b.position + n ≤ b.limit then
    some ((b.bytes.drop b.position).take n, { b with position := b.position + n })
  else none

def getInt (b : ByteBuffer) : Option (Int × ByteBuffer) := (b.get 4).map fun r => (intOf b.order r.1, r.2)

def getShort (b : ByteBuffer) : Option (Int × ByteBuffer) := (b.get 2).map fun r => (shortOf b.order r.1, r.2)

/-- The byte at an index. -/
def getAt (b : ByteBuffer) (i : Nat) : Option Int8 := if i < b.limit then b.bytes[i]? else none

def setPosition (b : ByteBuffer) (p : Int) : Option ByteBuffer :=
  if 0 ≤ p ∧ p ≤ b.limit then some { b with position := p.toNat } else none

/-- `limit(n)`. A position behind it moves to it. -/
def setLimit (b : ByteBuffer) (n : Int) : Option ByteBuffer :=
  if 0 ≤ n ∧ n ≤ b.bytes.length then some { b with limit := n.toNat, position := min b.position n.toNat } else none

def clear (b : ByteBuffer) : ByteBuffer := { b with position := 0, limit := b.bytes.length }

/-- The position, the limit and the array are in order. -/
structure Valid (b : ByteBuffer) : Prop where
  position_le : b.position ≤ b.limit
  limit_le : b.limit ≤ b.bytes.length

theorem Valid.withOrder {b : ByteBuffer} (h : b.Valid) {order : ByteOrder} : Valid { b with order } :=
  ⟨h.position_le, h.limit_le⟩

/-! ## Putting -/

theorem put_nil {b : ByteBuffer} (h : b.Valid) : b.put [] = some b := by
  simp [put, h.position_le]

/-- Two puts are one. -/
theorem put_put {b : ByteBuffer} (h : b.Valid) (x y : List Int8) :
    ((b.put x).bind fun b => b.put y) = b.put (x ++ y) := by
  have hlim := h.limit_le
  simp only [put, List.length_append]
  by_cases hx : b.position + x.length ≤ b.limit
  · rw [if_pos hx, Option.bind_some]
    simp only [Nat.add_assoc]
    split
    · rw [← blit_blit x y (by omega)]
    · rfl
  · rw [if_neg hx, if_neg (by omega)]
    rfl

theorem put_valid {b c : ByteBuffer} (h : b.Valid) {x : List Int8} (hput : b.put x = some c) :
    c.Valid ∧ c.order = b.order := by
  have hlim := h.limit_le
  unfold put at hput
  split at hput
  · rename_i hfit
    obtain rfl := Option.some.inj hput
    exact ⟨⟨hfit, by rw [length_blit (by omega)]; exact hlim⟩, rfl⟩
  · cases hput

theorem allocate_valid {capacity : Int} {b : ByteBuffer} (h : allocate capacity = some b) :
    b.Valid ∧ b.order = .bigEndian := by
  unfold allocate at h
  split at h
  · cases h
  · obtain rfl := Option.some.inj h
    exact ⟨⟨Nat.zero_le _, by simp⟩, rfl⟩

/-- An `int` in front of what is put next. -/
theorem putInt_put {β : Type*} {b : ByteBuffer} (h : b.Valid) {x : Int} {rest : List Int8} {k : ByteBuffer → Option β}
    {f : ByteBuffer → β} (hk : ∀ c, c.Valid → c.order = b.order → k c = (c.put rest).map f) :
    (b.putInt x).bind k = (b.put (intBytes b.order x ++ rest)).map f := by
  rw [putInt, ← put_put h, Option.map_bind]
  exact Option.bind_congr fun c hc => hk c (put_valid h hc).1 (put_valid h hc).2

/-- Puts one after another are one. -/
theorem foldlM_put {b : ByteBuffer} (h : b.Valid) (l : List (List Int8)) :
    l.foldlM (fun b x => b.put x) b = b.put l.flatten := by
  induction l generalizing b with
  | nil =>
    rw [List.flatten_nil, put_nil h]
    rfl
  | cons x l ih =>
    rw [List.foldlM_cons, List.flatten_cons, ← put_put h]
    exact Option.bind_congr fun c hc => ih (put_valid h hc).1

/-! ## Getting -/

/-- The bytes up to the limit. -/
def content (b : ByteBuffer) : List Int8 := b.bytes.take b.limit

/-- The bytes between the position and the limit. -/
def remaining (b : ByteBuffer) : List Int8 := b.content.drop b.position

/-- The `int`s of `asIntBuffer`. -/
def asIntBuffer (b : ByteBuffer) : List Int := (uintsOf b.order b.remaining).map fun n : Nat => int n

/-- The `short`s of `asShortBuffer`. -/
def asShortBuffer (b : ByteBuffer) : List Int := (ushortsOf b.order b.remaining).map fun n : Nat => short n

theorem content_length {b : ByteBuffer} (h : b.Valid) : b.content.length = b.limit := by
  rw [content, List.length_take, Nat.min_eq_left h.limit_le]

theorem remaining_length {b : ByteBuffer} (h : b.Valid) : b.remaining.length = b.limit - b.position := by
  rw [remaining, List.length_drop, content_length h]

/-- What is put in a new buffer that has the room is what a flip leaves to read. -/
theorem allocate_put_flip (capacity : Int) (x : List Int8) :
    ((allocate capacity).bind fun b => (b.put x).map flip) =
      if x.length ≤ capacity then
        some ⟨blit (List.replicate capacity.toNat 0) 0 x, 0, x.length, .bigEndian⟩ else none := by
  by_cases h0 : capacity < 0
  · rw [allocate, if_pos h0, Option.bind_none, if_neg (by omega)]
  · rw [allocate, if_neg h0, Option.bind_some]
    by_cases hx : (x.length : Int) ≤ capacity
    · rw [if_pos hx, put, if_pos (by simp; omega)]
      simp [flip]
    · rw [if_neg hx, put, if_neg (by simp; omega), Option.map_none]

theorem setPosition_remaining {b : ByteBuffer} (h : b.Valid) {head rest : List Int8} (hc : b.content = head ++ rest) :
    ∃ c, b.setPosition head.length = some c ∧ c.Valid ∧ c.content = b.content ∧ c.remaining = rest := by
  have hlim := content_length h
  rw [hc, List.length_append] at hlim
  refine ⟨{ b with position := head.length }, ?_, ⟨?_, h.limit_le⟩, rfl, ?_⟩
  · rw [setPosition, if_pos (by omega), Int.toNat_natCast]
  · show head.length ≤ b.limit
    omega
  · show b.content.drop head.length = rest
    rw [hc, List.drop_left]

/-- A get returns the front of what remains, and throws if there is less. -/
theorem get_eq {b : ByteBuffer} (h : b.Valid) (n : Nat) :
    b.get n = if n ≤ b.remaining.length then
      some (b.remaining.take n, { b with position := b.position + n }) else none := by
  have hpos := h.position_le
  rw [get, remaining_length h]
  by_cases hn : b.position + n ≤ b.limit
  · rw [if_pos hn, if_pos (by omega), remaining, content, List.drop_take, List.take_take, Nat.min_eq_left (by omega)]
  · rw [if_neg hn, if_neg (by omega)]

theorem get_take {b : ByteBuffer} (h : b.Valid) {n : Nat} (hn : n ≤ b.remaining.length) :
    ∃ c, b.get n = some (b.remaining.take n, c) ∧ c.Valid ∧ c.content = b.content := by
  have hlen := remaining_length h
  have hpos := h.position_le
  refine ⟨_, (get_eq h n).trans (if_pos hn), ⟨?_, h.limit_le⟩, rfl⟩
  show b.position + n ≤ b.limit
  omega

theorem get_remaining {b : ByteBuffer} (h : b.Valid) {x rest : List Int8} (hr : b.remaining = x ++ rest) :
    ∃ c, b.get x.length = some (x, c) ∧ c.Valid ∧ c.remaining = rest ∧
      c = { b with position := b.position + x.length } := by
  have hlen := remaining_length h
  rw [hr, List.length_append] at hlen
  have hpos := h.position_le
  refine ⟨{ b with position := b.position + x.length }, ?_, ⟨?_, h.limit_le⟩, ?_, rfl⟩
  · rw [get_eq h, hr, if_pos (by simp), List.take_left]
  · show b.position + x.length ≤ b.limit
    omega
  · show b.content.drop (b.position + x.length) = rest
    rw [← List.drop_drop]
    show b.remaining.drop x.length = rest
    rw [hr, List.drop_left]

theorem getInt_bytes {b : ByteBuffer} (h : b.Valid) {x rest : List Int8} (hr : b.remaining = x ++ rest)
    (hx : x.length = 4) :
    ∃ c, b.getInt = some (intOf b.order x, c) ∧ c.Valid ∧ c.remaining = rest ∧ c.order = b.order := by
  obtain ⟨c, hget, hv, hrest, rfl⟩ := get_remaining h hr
  rw [hx] at hget hv hrest
  exact ⟨_, by rw [getInt, hget, Option.map_some], hv, hrest, rfl⟩

theorem getShort_bytes {b : ByteBuffer} (h : b.Valid) {x rest : List Int8} (hr : b.remaining = x ++ rest)
    (hx : x.length = 2) :
    ∃ c, b.getShort = some (shortOf b.order x, c) ∧ c.Valid ∧ c.remaining = rest ∧ c.order = b.order := by
  obtain ⟨c, hget, hv, hrest, rfl⟩ := get_remaining h hr
  rw [hx] at hget hv hrest
  exact ⟨_, by rw [getShort, hget, Option.map_some], hv, hrest, rfl⟩

theorem getInt_remaining {b : ByteBuffer} (h : b.Valid) {x : Int} (h1 : -2 ^ 31 ≤ x) (h2 : x < 2 ^ 31)
    {rest : List Int8} (hr : b.remaining = intBytes b.order x ++ rest) :
    ∃ c, b.getInt = some (x, c) ∧ c.Valid ∧ c.remaining = rest ∧ c = { b with position := b.position + 4 } := by
  obtain ⟨c, hget, hv, hrest, hc⟩ := get_remaining h hr
  rw [intBytes_length] at hget hc
  exact ⟨c, by rw [getInt, hget, Option.map_some, intOf_intBytes _ h1 h2], hv, hrest, hc⟩

/-! ## Filling a buffer -/

/-- A buffer of zeros after `done` has been put. -/
def filled (order : ByteOrder) (capacity : Nat) (done : List Int8) : ByteBuffer :=
  ⟨done ++ List.replicate (capacity - done.length) 0, done.length, capacity, order⟩

theorem filled_nil (order : ByteOrder) (capacity : Nat) :
    filled order capacity [] = ⟨List.replicate capacity 0, 0, capacity, order⟩ := rfl

variable {order : ByteOrder} {capacity : Nat} {done : List Int8}

theorem filled_all (h : done.length = capacity) : filled order capacity done = ⟨done, capacity, capacity, order⟩ := by
  rw [filled, h, Nat.sub_self, List.replicate_zero, List.append_nil]

theorem put_filled (x : List Int8) : (filled order capacity done).put x =
    if (done ++ x).length ≤ capacity then some (filled order capacity (done ++ x)) else none := by
  rw [put, List.length_append]
  show (if done.length + x.length ≤ capacity then _ else none) = _
  split
  · rw [filled, filled, List.length_append, blit, List.take_left, ← List.drop_drop, List.drop_left,
      List.drop_replicate, Nat.sub_sub]
  · rfl

/-- What `f` does to a buffer of zeros is to put `x`. -/
def Appends (order : ByteOrder) (f : ByteBuffer → Option ByteBuffer) (x : List Int8) : Prop :=
  ∀ capacity done, done.length ≤ capacity → f (filled order capacity done) =
    if (done ++ x).length ≤ capacity then some (filled order capacity (done ++ x)) else none

theorem appends_put (x : List Int8) : Appends order (fun b => b.put x) x := fun _ _ _ => put_filled x

theorem appends_putInt (x : Int) : Appends order (fun b => b.putInt x) (intBytes order x) := fun _ _ _ => put_filled _

theorem appends_putShort (x : Int) : Appends order (fun b => b.putShort x) (shortBytes order x) :=
  fun _ _ _ => put_filled _

theorem appends_putLong (x : Int) : Appends order (fun b => b.putLong x) (longBytes order x) :=
    fun _ _ _ => put_filled _

/-- Leaving bytes out leaves them zero. -/
theorem appends_skip (k : Nat) :
    Appends order (fun b => b.setPosition (b.position + k)) (List.replicate k 0) := by
  intro capacity done _
  rw [List.length_append, List.length_replicate]
  show (if 0 ≤ ((done.length : Int) + k) ∧ ((done.length : Int) + k) ≤ (capacity : Int) then _ else none) = _
  by_cases h : done.length + k ≤ capacity
  · rw [if_pos h, if_pos (by omega), filled, filled, List.length_append, List.length_replicate, List.append_assoc,
      List.replicate_append_replicate, show ((done.length : Int) + k).toNat = done.length + k by omega,
      show k + (capacity - (done.length + k)) = capacity - done.length by omega]
  · rw [if_neg h, if_neg (by omega)]

theorem Appends.bind {f g : ByteBuffer → Option ByteBuffer} {x y : List Int8} (hf : Appends order f x)
    (hg : Appends order g y) : Appends order (fun b => (f b).bind g) (x ++ y) := by
  intro capacity done hdone
  simp only [hf capacity done hdone]
  by_cases h : (done ++ x).length ≤ capacity
  · rw [if_pos h, Option.bind_some, hg _ _ h, List.append_assoc]
  · rw [if_neg h, if_neg (by simp only [List.length_append] at h ⊢; omega), Option.bind_none]

/-- Setting the position where it is does nothing. -/
theorem Appends.setPosition {f : ByteBuffer → Option ByteBuffer} {x : List Int8} {k : Nat} (hf : Appends order f x)
    (hk : x.length = k) : Appends order (fun b => (f b).bind fun c => c.setPosition (b.position + k)) x := by
  intro capacity done hdone
  simp only [hf capacity done hdone]
  by_cases h : (done ++ x).length ≤ capacity
  · have hposition : ((filled order capacity done).position : Int) + k = (done ++ x).length := by
      rw [List.length_append, hk, Int.natCast_add]
      rfl
    rw [if_pos h, Option.bind_some, hposition, ByteBuffer.setPosition, if_pos ⟨by omega, by exact_mod_cast h⟩,
      Int.toNat_natCast]
    rfl
  · rw [if_neg h, Option.bind_none]

theorem Appends.foldlM {α : Type*} {f : ByteBuffer → α → Option ByteBuffer} {x : α → List Int8}
    (h : ∀ a, Appends order (fun b => f b a) (x a)) (l : List α) :
    Appends order (fun b => l.foldlM f b) (l.flatMap x) := by
  induction l with
  | nil =>
    intro capacity done hdone
    rw [List.flatMap_nil, List.append_nil, if_pos hdone]
    rfl
  | cons a l ih => exact (h a).bind ih

/-! ## Reading a buffer -/

/-- At position `p`, in front of the bytes `x`, what `f` reads is `v`. -/
def Reads {α : Type*} (order : ByteOrder) (p : Nat) (f : ByteBuffer → Option (α × ByteBuffer)) (x : List Int8)
    (v : α) : Prop :=
  ∀ b rest, b.Valid → b.order = order → b.position = p → b.remaining = x ++ rest →
    ∃ c : ByteBuffer, f b = some (v, c) ∧ c.Valid ∧ c.order = order ∧ c.position = p + x.length ∧ c.remaining = rest

section Reads

variable {α β : Type*} {p : Nat}

theorem reads_getInt {v : Int} (h1 : -2 ^ 31 ≤ v) (h2 : v < 2 ^ 31) : Reads order p getInt (intBytes order v) v := by
  rintro b rest hv rfl rfl hr
  obtain ⟨c, hget, hcv, hrest, rfl⟩ := getInt_remaining hv h1 h2 hr
  exact ⟨_, hget, hcv, rfl, by rw [intBytes_length], hrest⟩

/-- A check that passes. -/
theorem Reads.guard {f : ByteBuffer → Option (α × ByteBuffer)} {x : List Int8} {v : α} {P : Prop} [Decidable P]
    (hP : ¬ P) (hf : Reads order p f x v) : Reads order p (fun b => if P then none else f b) x v := by
  simpa only [if_neg hP] using hf

/-- What is made of the last value that is read. -/
theorem Reads.result {f : ByteBuffer → Option (α × ByteBuffer)} {g : α × ByteBuffer → Option (β × ByteBuffer)}
    {x : List Int8} {v : α} {w : β} (hf : Reads order p f x v) (hg : ∀ c, g (v, c) = some (w, c)) :
    Reads order p (fun b => (f b).bind g) x w := by
  intro b rest hv ho hp hr
  obtain ⟨c, hfc, hcv, hco, hcp, hcr⟩ := hf b rest hv ho hp hr
  exact ⟨c, by simp only [hfc, Option.bind_some, hg], hcv, hco, hcp, hcr⟩

theorem Reads.bind {f : ByteBuffer → Option (α × ByteBuffer)} {g : α × ByteBuffer → Option (β × ByteBuffer)}
    {x y : List Int8} {v : α} {w : β} (hf : Reads order p f x v)
    (hg : Reads order (p + x.length) (fun c => g (v, c)) y w) :
    Reads order p (fun b => (f b).bind g) (x ++ y) w := by
  intro b rest hv ho hp hr
  rw [List.append_assoc] at hr
  obtain ⟨c, hfc, hcv, hco, hcp, hcr⟩ := hf b _ hv ho hp hr
  obtain ⟨d, hgd, hdv, hdo, hdp, hdr⟩ := hg c _ hcv hco hcp hcr
  exact ⟨d, by simp only [hfc, Option.bind_some, hgd], hdv, hdo, by rw [hdp, List.length_append, Nat.add_assoc], hdr⟩

/-- Skipping bytes by setting the position. -/
theorem Reads.skip {g : ByteBuffer → Option (β × ByteBuffer)} {x y : List Int8} {w : β} {q : Int}
    (hq : q = (p + x.length : Nat)) (hg : Reads order (p + x.length) g y w) :
    Reads order p (fun b => (b.setPosition q).bind g) (x ++ y) w := by
  intro b rest hv ho hp hr
  rw [List.append_assoc] at hr
  have hlen := remaining_length hv
  rw [hr, List.length_append] at hlen
  have hle := hv.position_le
  have hset : b.setPosition q = some { b with position := p + x.length } := by
    rw [setPosition, hq, if_pos (by omega), Int.toNat_natCast]
  have hremaining : ({ b with position := p + x.length } : ByteBuffer).remaining = y ++ rest := by
    show b.content.drop (p + x.length) = y ++ rest
    rw [← hp, ← List.drop_drop]
    show b.remaining.drop x.length = y ++ rest
    rw [hr, List.drop_left]
  obtain ⟨d, hgd, hdv, hdo, hdp, hdr⟩ := hg { b with position := p + x.length } rest
    ⟨by show p + x.length ≤ b.limit; omega, hv.limit_le⟩ ho rfl hremaining
  exact ⟨d, by simp only [hset, Option.bind_some, hgd], hdv, hdo, by rw [hdp, List.length_append, Nat.add_assoc], hdr⟩

end Reads

end ByteBuffer

end WorldWind.Lib.Nio
