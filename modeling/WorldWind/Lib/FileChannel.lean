import WorldWind.Lib.Nio
/-!
# `java.nio.channels.FileChannel`

A file with a position. A read puts what the file has there into a buffer, as
much as the buffer takes. A write replaces bytes of the file or lets it grow;
what lies between the old end and the new bytes is zero.
-/

namespace WorldWind.Lib.Nio

open JavaArray

structure FileChannel where
  content : List Int8
  position : Nat
  deriving DecidableEq, Repr

namespace FileChannel

def setPosition (fc : FileChannel) (p : Nat) : FileChannel := { fc with position := p }

def read (fc : FileChannel) (b : ByteBuffer) : ByteBuffer × FileChannel :=
  let part := (fc.content.drop fc.position).take (b.limit - b.position)
  ({ b with bytes := blit b.bytes b.position part, position := b.position + part.length },
    { fc with position := fc.position + part.length })

def write (fc : FileChannel) (src : List Int8) : FileChannel :=
  ⟨fc.content.take fc.position ++ List.replicate (fc.position - fc.content.length) 0 ++ src ++
    fc.content.drop (fc.position + src.length), fc.position + src.length⟩

@[simp] theorem setPosition_content (fc : FileChannel) (p : Nat) : (fc.setPosition p).content = fc.content := rfl

@[simp] theorem read_content (fc : FileChannel) (b : ByteBuffer) : (fc.read b).2.content = fc.content := rfl

/-- What a flip leaves to read of a buffer that was read into from its start. -/
theorem read_flip (fc : FileChannel) {b : ByteBuffer} (h : b.Valid) (h0 : b.position = 0) :
    (fc.read b).1.flip.Valid ∧ (fc.read b).1.flip.order = b.order ∧
      (fc.read b).1.flip.remaining = (fc.content.drop fc.position).take b.limit := by
  have hlim := h.limit_le
  have hlen : ((fc.content.drop fc.position).take b.limit).length ≤ b.bytes.length :=
    (List.length_take_le _ _).trans hlim
  have hread : (fc.read b).1.flip = ⟨blit b.bytes 0 ((fc.content.drop fc.position).take b.limit), 0,
      ((fc.content.drop fc.position).take b.limit).length, b.order⟩ := by
    simp only [read, ByteBuffer.flip, h0, Nat.sub_zero, Nat.zero_add]
  rw [hread]
  refine ⟨⟨Nat.zero_le _, ?_⟩, rfl, ?_⟩
  · rw [length_blit (by omega)]
    exact hlen
  · simp only [ByteBuffer.remaining, ByteBuffer.content, List.drop_zero, blit_zero, List.take_left]

/-- A buffer that is read into from its start holds as many bytes as it takes,
or the file has not that many left. -/
theorem read_flip_get (content : List Int8) (p : Nat) {b : ByteBuffer} (h : b.Valid) (h0 : b.position = 0) {n : Nat}
    (hn : b.limit = n) :
    ∃ c, ((FileChannel.mk content p).read b).1.flip.get n =
      if ((content.drop p).take n).length = n then some ((content.drop p).take n, c) else none := by
  subst hn
  obtain ⟨hv, -, hr⟩ := (FileChannel.mk content p).read_flip h h0
  have hle : ((content.drop p).take b.limit).length ≤ b.limit := List.length_take_le _ _
  rw [ByteBuffer.get_eq hv, hr]
  by_cases hlen : ((content.drop p).take b.limit).length = b.limit
  · simp only [if_pos hlen.ge, if_pos hlen, List.take_of_length_le hlen.le]
    exact ⟨_, rfl⟩
  · simp only [if_neg (show ¬ b.limit ≤ ((content.drop p).take b.limit).length by omega), if_neg hlen]
    exact ⟨b, trivial⟩

theorem read_flip_order (fc : FileChannel) (b : ByteBuffer) : (fc.read b).1.flip.order = b.order := rfl

theorem read_bytes_length (fc : FileChannel) {b : ByteBuffer} (h : b.Valid) :
    (fc.read b).1.bytes.length = b.bytes.length := by
  have h1 := h.position_le
  have h2 := h.limit_le
  have hle : ((fc.content.drop fc.position).take (b.limit - b.position)).length ≤ b.limit - b.position :=
    List.length_take_le _ _
  rw [read, length_blit (by omega)]

/-! ## Writing at the end -/

/-- A channel at the end of its file. -/
def atEnd (l : List Int8) : FileChannel := ⟨l, l.length⟩

theorem write_atEnd (l x : List Int8) : (atEnd l).write x = atEnd (l ++ x) := by
  rw [write, atEnd, atEnd, List.take_length, Nat.sub_self, List.replicate_zero, List.append_nil,
    List.drop_eq_nil_of_le (Nat.le_add_right _ _), List.append_nil, List.length_append]

/-- Behind the end, with zeros in between. -/
theorem write_behind (l x : List Int8) {p : Nat} (hp : l.length ≤ p) :
    ((atEnd l).setPosition p).write x = atEnd (l ++ List.replicate (p - l.length) 0 ++ x) := by
  have hlen : (l ++ List.replicate (p - l.length) (0 : Int8) ++ x).length = p + x.length := by
    rw [List.length_append, List.length_append, List.length_replicate]
    omega
  simp only [write, atEnd, setPosition, hlen]
  rw [List.take_of_length_le hp, List.drop_eq_nil_of_le (by omega), List.append_nil]

/-- A part that is written over. -/
theorem write_over (a b c x : List Int8) (h : b.length = x.length) :
    ((atEnd (a ++ b ++ c)).setPosition a.length).write x = ⟨a ++ x ++ c, a.length + x.length⟩ := by
  have hlen : (a ++ b).length = a.length + x.length := by
    rw [List.length_append, h]
  have htake : (a ++ b ++ c).take a.length = a := by rw [List.append_assoc, List.take_left]
  simp only [write, atEnd, setPosition]
  rw [htake, List.drop_left' hlen, Nat.sub_eq_zero_of_le (by simp), List.replicate_zero, List.append_nil]

end FileChannel

end WorldWind.Lib.Nio
