import WorldWind.Lib.FileChannel
/-!
# `formats/tiff`: directory entries

`TIFFIFDFactory.create` reads one entry of an image file directory, twelve
bytes, and the data the entry points to. The accessors of `TiffIFDEntry` turn
it into numbers. A call that throws has no result.
-/

namespace WorldWind.Tiff

open Lib.JavaArray Lib.JavaInt Lib.Nio

namespace Typ

def BYTE : Int := 1
def ASCII : Int := 2
def SHORT : Int := 3
def LONG : Int := 4
def RATIONAL : Int := 5
def SBYTE : Int := 6
def SSHORT : Int := 8
def SLONG : Int := 9
def SRATIONAL : Int := 10
def FLOAT : Int := 11
def DOUBLE : Int := 12

end Typ

structure TiffIFDEntry where
  tag : Int
  type : Int
  count : Int
  valOffset : Int
  data : Option ByteBuffer
  deriving DecidableEq, Repr

namespace TIFFIFDFactory

def getUnsignedShort (bb : ByteBuffer) : Option (Int × ByteBuffer) := bb.getShort.map fun r => (r.1 % 2 ^ 16, r.2)

def getUnsignedInt (bb : ByteBuffer) : Option (Int × ByteBuffer) := bb.getInt.map fun r => (r.1 % 2 ^ 32, r.2)

def calcSize (type count : Int) : Int :=
  if type = Typ.BYTE ∨ type = Typ.SBYTE ∨ type = Typ.ASCII then count
  else if type = Typ.SHORT ∨ type = Typ.SSHORT then count * 2
  else if type = Typ.LONG ∨ type = Typ.SLONG then count * 4
  else if type = Typ.FLOAT then count * 4
  else if type = Typ.DOUBLE then count * 8
  else if type = Typ.RATIONAL ∨ type = Typ.SRATIONAL then count * 8
  else 0

/-- The data at `offset`. The channel goes back to where it was. -/
def readData (fc : FileChannel) (tiffFileOrder : ByteOrder) (offset size : Int) : Option (ByteBuffer × FileChannel) :=
  (ByteBuffer.allocate size).map fun data =>
    let r := (fc.setPosition offset.toNat).read { data with order := tiffFileOrder }
    (r.1.flip, r.2.setPosition fc.position)

/-- The entry in the twelve bytes of `header`. -/
def entryOf (header : ByteBuffer) (fc : FileChannel) (tiffFileOrder : ByteOrder) :
    Option (TiffIFDEntry × FileChannel) :=
  (getUnsignedShort header).bind fun tag =>
  (getUnsignedShort tag.2).bind fun type =>
  (getUnsignedInt type.2).bind fun count =>
  if type.1 = Typ.SHORT ∧ count.1 = 1 then
    (getUnsignedShort count.2).bind fun upper =>
    (getUnsignedShort upper.2).map fun lower =>
      -- `upper << 16 | lower`
      (⟨tag.1, type.1, 1, int (upper.1 * 2 ^ 16 + lower.1), none⟩, fc)
  else if count.1 = 1 ∧ (type.1 = Typ.LONG ∨ type.1 = Typ.FLOAT) then
    count.2.getInt.map fun value => (⟨tag.1, type.1, 1, value.1, none⟩, fc)
  else
    (getUnsignedInt count.2).bind fun offset =>
    -- `MASK_USHORT & (int) calcSize(type, count)`
    let size := int (calcSize type.1 count.1) % 2 ^ 16
    if size > 0 then
      (readData fc tiffFileOrder offset.1 size).map fun data =>
        (⟨tag.1, type.1, count.1, offset.1, some data.1⟩, data.2)
    else some (⟨tag.1, type.1, count.1, offset.1, none⟩, fc)

/-- `null`, here `none`, where an exception is caught. -/
def create (fc : FileChannel) (tiffFileOrder : ByteOrder) : Option TiffIFDEntry × FileChannel :=
  let header := fc.read { ByteBuffer.wrap (List.replicate 12 0) with order := tiffFileOrder }
  match entryOf header.1.flip header.2 tiffFileOrder with
  | some entry => (some entry.1, entry.2)
  | none => (none, header.2)

end TIFFIFDFactory

/-! ## Accessors -/

namespace TiffIFDEntry

variable (e : TiffIFDEntry)

def asLong : Option Int :=
  if e.type ≠ Typ.SHORT ∧ e.type ≠ Typ.LONG then none
  else if e.type = Typ.SHORT ∧ e.count = 1 then some (e.valOffset / 2 ^ 16 % 2 ^ 16)
  else some e.valOffset

/-- `array[i++] = x`, for the numbers of a buffer. -/
def fill (n : Int) (l : List Int) : Option (List Int) :=
  (newArray 0 (Int32.ofInt n)).bind fun array => writes array (l.zipIdx.map fun c => (c.2, c.1))

/-- `asShort` of an entry with one value. -/
def asShortOne : Option Int :=
  if e.type ≠ Typ.SHORT then none else if e.count = 1 then some (e.valOffset / 2 ^ 16 % 2 ^ 16) else none

def getShortsAsInts : Option (List Int) :=
  if e.type ≠ Typ.SHORT then none
  else if e.count = 1 then e.asShortOne.map fun v => [v]
  else if 0 < e.count then
    e.data.bind fun data => fill e.count (data.rewind.asShortBuffer.map fun v => v % 2 ^ 16)
  else none

def asShort : Option Int :=
  if e.type ≠ Typ.SHORT then none
  else if 0 < e.count then
    if e.count = 1 then some (e.valOffset / 2 ^ 16 % 2 ^ 16) else e.getShortsAsInts.bind fun values => values[0]?
  else none

/-- `asShort(index)`. -/
def asShortAt (index : Nat) : Option Int :=
  if e.type ≠ Typ.SHORT then none
  else if index < e.count then e.getShortsAsInts.bind fun values => values[index]?
  else none

/-- The inner `none` is `null`. -/
def getAsLongs : Option (Option (List Int)) :=
  if e.type ≠ Typ.SHORT ∧ e.type ≠ Typ.LONG then none
  else if e.count = 1 then e.asLong.map fun v => some [v]
  else if 1 < e.count then
    match e.data with
    | none => some none
    | some data =>
      (fill e.count (if e.type = Typ.SHORT then data.rewind.asShortBuffer.map fun v => v % 2 ^ 16
        else data.rewind.asIntBuffer.map fun v => v % 2 ^ 32)).map some
  else some none

end TiffIFDEntry

end WorldWind.Tiff
