import WorldWind.Lib.JavaArray
import WorldWind.Lib.Nio
/-!
# `formats/tiff/TIFFReader.java`: LZW strips

`lzwUncompress` decodes a strip of an image. The reader of codes takes bits
from the bytes of the strip, the most significant first; the loop keeps a table
of the strings the codes stand for. A call that throws has no result.
-/

namespace WorldWind.Tiff

open Lib.JavaArray Lib.Nio

def CLEAR_CODE : Int := 256
def EOI_CODE : Int := 257

/-! ## The reader of codes -/

structure CodeReader where
  byteBuffer : List Int8
  currentByte : Nat
  currentBit : Nat
  atEof : Bool
  deriving DecidableEq, Repr

def CodeReader.new (byteBuffer : List Int8) : CodeReader := ⟨byteBuffer, 0, 0, false⟩

def backMask : List Nat := [0x0000, 0x0001, 0x0003, 0x0007, 0x000F, 0x001F, 0x003F, 0x007F]

def frontMask : List Nat := [0x0000, 0x0080, 0x00C0, 0x00E0, 0x00F0, 0x00F8, 0x00FC, 0x00FE]

/-- What the loop of `getCode` takes from the current byte `b`: the bits still
to read, the code so far and the reader afterwards. -/
def CodeReader.readChunk (r : CodeReader) (b : Int8) (numBitsToRead returnCode : Nat) : Nat × Nat × CodeReader :=
  if 8 - r.currentBit ≤ numBitsToRead then
    if r.currentBit = 0 then
      (numBitsToRead - 8, returnCode <<< 8 + ubyte b, { r with currentByte := r.currentByte + 1 })
    else
      (numBitsToRead - (8 - r.currentBit),
        returnCode <<< (8 - r.currentBit) + (ubyte b &&& backMask.getD (8 - r.currentBit) 0),
        { r with currentByte := r.currentByte + 1, currentBit := 0 })
  else
    (0, returnCode <<< numBitsToRead +
      ((ubyte b &&& (0x00FF - frontMask.getD r.currentBit 0)) >>> (8 - (r.currentBit + numBitsToRead))),
      { r with currentBit := r.currentBit + numBitsToRead })

/-- The loop of `getCode`. Each round reads at least one bit. -/
def CodeReader.readBits : Nat → Nat → Nat → CodeReader → Option (Nat × CodeReader)
  | 0, _, _, _ => none
  | rounds + 1, numBitsToRead, returnCode, r =>
    if numBitsToRead = 0 ∨ r.atEof then some (returnCode, r)
    else
      r.byteBuffer[r.currentByte]?.bind fun b =>
        let (numBitsToRead, returnCode, r) := r.readChunk b numBitsToRead returnCode
        if r.currentByte = r.byteBuffer.length then some (returnCode, { r with atEof := true })
        else readBits rounds numBitsToRead returnCode r

/-- `-1` at the end of the bytes. -/
def CodeReader.getCode (r : CodeReader) (numBitsToRead : Nat) : Option (Int × CodeReader) :=
  if r.atEof then some (-1, r)
  else (readBits (numBitsToRead + 1) numBitsToRead 0 r).map fun c => ((c.1 : Int), c.2)

/-! ## The decoder -/

structure State where
  symbolTable : List (List Int8)
  bitsToRead : Nat
  nextSymbol : Nat
  oldCode : Int
  out : ByteBuffer
  reader : CodeReader
  deriving DecidableEq, Repr

/-- `symbolTable[i][0] = (byte) i`, for the codes of single bytes. -/
def resetTable (symbolTable : List (List Int8)) : Option (List (List Int8)) :=
  writes symbolTable ((List.range 256).map fun i => (i, (symbolTable.getD i []).set 0 (byte i)))

/-- `symbolTable[code]`. -/
def symbolAt (symbolTable : List (List Int8)) (code : Int) : Option (List Int8) :=
  if code < 0 then none else symbolTable[code.toNat]?

/-- A code that is neither end of information nor clear. -/
def decodeSymbol (s : State) (code : Int) (reader : CodeReader) : Option State :=
  (symbolAt s.symbolTable s.oldCode).bind fun oldSymbol =>
  (if code < s.nextSymbol then
      (symbolAt s.symbolTable code).bind fun symbol =>
      symbol[0]?.map fun first => (symbol, oldSymbol ++ [first])
    else oldSymbol[0]?.map fun first => (oldSymbol ++ [first], oldSymbol ++ [first])).bind fun (outString, symbol) =>
  (s.out.put outString).bind fun out =>
  (write s.symbolTable s.nextSymbol symbol).map fun symbolTable =>
    let nextSymbol := s.nextSymbol + 1
    let bitsToRead := if nextSymbol = 511 then 10 else s.bitsToRead
    let bitsToRead := if nextSymbol = 1023 then 11 else bitsToRead
    let bitsToRead := if nextSymbol = 2047 then 12 else bitsToRead
    { s with symbolTable, bitsToRead, nextSymbol, oldCode := code, out, reader }

/-- The first code behind a clear code. -/
def decodeFirst (s : State) (symbolTable : List (List Int8)) (code : Int) (reader : CodeReader) : Option State :=
  (symbolAt symbolTable code).bind fun symbol =>
  (s.out.put symbol).map fun out =>
    { symbolTable, bitsToRead := 9, nextSymbol := 258, oldCode := code, out, reader }

/-- The loop of `lzwUncompress`. Each round reads a code, so as many rounds as
there are bits, and one more, are enough. -/
def lzwLoop : Nat → State → Option (List Int8)
  | 0, _ => none
  | rounds + 1, s =>
    (s.reader.getCode s.bitsToRead).bind fun (code, reader) =>
    if code = EOI_CODE ∨ code = -1 then some s.out.bytes
    else if code = CLEAR_CODE then
      (resetTable s.symbolTable).bind fun symbolTable =>
      (reader.getCode 9).bind fun (code, reader) =>
      if code = EOI_CODE ∨ code = -1 then some s.out.bytes
      else (decodeFirst s symbolTable code reader).bind (lzwLoop rounds)
    else (decodeSymbol s code reader).bind (lzwLoop rounds)

def lzwUncompress (input : List Int8) (rowNumPixels : Int) : Option (List Int8) :=
  if input = [] then some input
  else
    (ByteBuffer.allocate rowNumPixels).bind fun out =>
      lzwLoop (8 * input.length + 1) ⟨List.replicate 4096 [0], 9, 258, -1, out, CodeReader.new input⟩

end WorldWind.Tiff
