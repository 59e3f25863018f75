/-
# Chip8.Screen.Png -- PNG files of pictures

A PNG file is a signature and a sequence of chunks; a chunk is its length, its kind, its
contents and a checksum over kind and contents.  The first chunk gives the size and the
format of the image: eight bits a component, colour with opacity, no interlace.  The rows
follow in one chunk, each behind a zero byte that says they are stored as they are, inside
a stream of stored blocks.
-/
import Chip8.Screen.Picture

set_option autoImplicit false

namespace Chip8.Png

/-- An image of `width` times `height` pixels, four bytes each, row by row. -/
structure Image where
  width : Nat
  height : Nat
  data : Array UInt8
deriving DecidableEq

/-- The image with bytes copied into its data, from the first on and as many as fit. -/
def Image.filled (image : Image) (bytes : Array UInt8) : Image :=
  { image with
    data := bytes.extract 0 image.data.size ++ image.data.extract bytes.size image.data.size }

/-! ## Checksums -/

/-- The bytes of a 32-bit word, the high one first. -/
def bigEndian (w : UInt32) : Array UInt8 :=
  #[(w >>> 24).toUInt8, (w >>> 16).toUInt8, (w >>> 8).toUInt8, w.toUInt8]

/-- One step of the polynomial division of CRC-32. -/
def crcBit (c : UInt32) : UInt32 :=
  if c &&& 1 = 1 then (c >>> 1) ^^^ 0xedb88320 else c >>> 1

def crcByte (c : UInt32) (b : UInt8) : UInt32 :=
  let c := c ^^^ b.toUInt32
  crcBit (crcBit (crcBit (crcBit (crcBit (crcBit (crcBit (crcBit c)))))))

/-- CRC-32 of a sequence of bytes. -/
def crc32 (bytes : Array UInt8) : UInt32 := bytes.foldl crcByte 0xffffffff ^^^ 0xffffffff

/-- The two sums of Adler-32 after one more byte. -/
def adlerByte (sums : UInt32 × UInt32) (b : UInt8) : UInt32 × UInt32 :=
  let a := (sums.1 + b.toUInt32) % 65521
  (a, (sums.2 + a) % 65521)

/-- Adler-32 of a sequence of bytes. -/
def adler32 (bytes : Array UInt8) : UInt32 :=
  let (a, b) := bytes.foldl adlerByte (1, 0)
  b <<< 16 ||| a

/-! ## Chunks -/

def signature : Array UInt8 := #[0x89, 0x50, 0x4e, 0x47, 0x0d, 0x0a, 0x1a, 0x0a]

def chunk (kind contents : Array UInt8) : Array UInt8 :=
  let body := kind ++ contents
  bigEndian (UInt32.ofNat contents.size) ++ body ++ bigEndian (crc32 body)

/-- Size and format of an image. -/
def formatChunk (width height : Nat) : Array UInt8 :=
  chunk #[0x49, 0x48, 0x44, 0x52]
    (bigEndian (UInt32.ofNat width) ++ bigEndian (UInt32.ofNat height) ++ #[8, 6, 0, 0, 0])

/-- The first 33 bytes of a PNG file. -/
def header (width height : Nat) : Array UInt8 := signature ++ formatChunk width height

/-! ## Image data -/

/-- Contents of at most this many bytes fit one stored block. -/
def blockSize : Nat := 65535

/-- Stored blocks that hold bytes from place `start` on; `count` blocks are left. -/
def storedBlocks (bytes : Array UInt8) : Nat → Nat → Array UInt8 → Array UInt8
  | 0, _, out => out
  | count + 1, start, out =>
    let part := bytes.extract start (start + blockSize)
    let size := UInt16.ofNat part.size
    let inverse := ~~~size
    let last : UInt8 := if count = 0 then 1 else 0
    storedBlocks bytes count (start + blockSize)
      (out ++ #[last, size.toUInt8, (size >>> 8).toUInt8, inverse.toUInt8,
        (inverse >>> 8).toUInt8] ++ part)

/-- A compressed stream that stores its contents as they are. -/
def storedStream (bytes : Array UInt8) : Array UInt8 :=
  let count := max 1 ((bytes.size + blockSize - 1) / blockSize)
  storedBlocks bytes count 0 #[0x78, 0x01] ++ bigEndian (adler32 bytes)

/-- The rows of an image, each behind a zero byte. -/
def scanlines (image : Image) : Array UInt8 :=
  (List.range image.height).foldl (fun out y =>
    out.push 0 ++ image.data.extract (y * image.width * 4) ((y + 1) * image.width * 4)) #[]

/-- The bytes of a PNG file. -/
def encode (image : Image) : Array UInt8 :=
  header image.width image.height ++
    chunk #[0x49, 0x44, 0x41, 0x54] (storedStream (scanlines image)) ++
    chunk #[0x49, 0x45, 0x4e, 0x44] #[]

end Chip8.Png
