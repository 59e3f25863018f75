/-
# Chip8.Screen.Studio -- where pictures and images are made

A picture takes four bytes for every pixel, and a magnification may ask for more of them
than an array can have or a memory can hold.  How much there is room for is not for this
library to say, and neither is how a new image begins, before a picture is copied into its
data: both belong to the studio in which pictures are made (`Studio`).

In a studio `Studio.picture` paints a picture, and `Studio.image` makes an image of it: the
image is begun first, then the picture is painted, and then it is copied.  Where there is no
array for the picture, or no image or one without data to copy to, the refusal says why.
-/
import Chip8.Number.Decimal
import Chip8.Screen.Png

set_option autoImplicit false

namespace Chip8

/-- Why there is no picture, or no image of it. -/
inductive PictureRefusal where
  | memoryExhausted
  | arrayTooLong (bytes : Rat)
  | imageTooLong (bytes : Rat)
  | noPixels
deriving DecidableEq

namespace PictureRefusal

/-- The digits of a number, the lowest first, in groups of three. -/
def grouped : List Char → List Char
  | a :: b :: c :: d :: rest => a :: b :: c :: '_' :: grouped (d :: rest)
  | digits => digits

def kind : PictureRefusal → String
  | .noPixels => "TypeError"
  | _ => "RangeError"

def message : PictureRefusal → String
  | .memoryExhausted => "Array buffer allocation failed"
  | .arrayTooLong bytes => "Invalid typed array length: " ++ Decimal.text bytes
  | .imageTooLong bytes =>
    "The value of \"size\" is out of range. It must be >= 0 && <= 9007199254740991. Received " ++
      String.ofList (grouped (Decimal.text bytes).toList.reverse).reverse
  | .noPixels =>
    "The \"target\" argument must be an instance of Buffer or Uint8Array. Received null"

end PictureRefusal

/-! ## Room for bytes -/

/-- No array has more bytes than this, `2 ^ 53 - 1`, whatever there is room for. -/
def longestArray : Nat := 9007199254740991

/-- Why there is no room for so many bytes. -/
def refusalOf (hasRoom : Nat → Bool) (tooLong : Rat → PictureRefusal) (bytes : Nat) :
    Option PictureRefusal :=
  if longestArray < bytes then some (tooLong (Binary64.round (bytes : Rat)))
  else if hasRoom bytes then none
  else some .memoryExhausted

/-- What pictures and images are made with. -/
structure Studio where
  /-- Whether there is room for so many bytes. -/
  hasRoom : Nat → Bool
  /-- A new image of some width and height with any bytes in its data, or without data, or why
  there is none. -/
  newImage : (width height : Nat) → Except PictureRefusal (Option Png.Image)

namespace Studio

/-- Why there is no array of so many bytes. -/
def refusal? (studio : Studio) (bytes : Nat) : Option PictureRefusal :=
  refusalOf studio.hasRoom .arrayTooLong bytes

/-- What a studio is known to do: where there is room for four bytes a pixel, and the sides are
among those that the format of images allows, a new image has these sides and bytes. -/
structure Documented (studio : Studio) : Prop where
  newImage : ∀ width height : Nat, 1 ≤ width → width < 2147483648 → 1 ≤ height →
    height < 2147483648 → studio.refusal? (width * height * 4) = none →
    ∃ data, data.size = width * height * 4 ∧
      studio.newImage width height = .ok (some { width, height, data })

/-- An image of zeros, without data if it has no pixels, or why there is no room for one. -/
def zeros (hasRoom : Nat → Bool) (width height : Nat) :
    Except PictureRefusal (Option Png.Image) :=
  let bytes := width * height * 4
  match refusalOf hasRoom .imageTooLong bytes with
  | some refusal => .error refusal
  | none =>
    .ok (if bytes = 0 then none else some { width, height, data := Array.replicate bytes 0 })

/-- A studio with room for fewer than `limit` bytes at once.  Its images keep their sides as
signed 32-bit numbers, the negative ones as zero, and begin with zeros. -/
def ofLimit (limit : Nat) : Studio where
  hasRoom bytes := decide (bytes < limit)
  newImage width height :=
    zeros (fun bytes => decide (bytes < limit)) (wrapSigned32 (width : Rat)).toNat
      (wrapSigned32 (height : Rat)).toNat

/-- The studio that a command works in, unless it is told of another.  What is known of a run
does not depend on the limit. -/
def standard : Studio := ofLimit 68719476736

end Studio

/-! ## Pictures and images -/

/-- Why the picture of a frame cannot be painted in a studio. -/
def Frame.refusal? (f : Frame) (scale : Rat) (studio : Studio := Studio.standard) :
    Option PictureRefusal :=
  studio.refusal? (f.pictureSize (magnification scale))

namespace Studio

/-- The picture of a frame, or why there is none. -/
def picture (studio : Studio) (f : Frame) (scale : Rat) (palette : Palette) :
    Except PictureRefusal (Array UInt8) :=
  match f.refusal? scale studio with
  | some refusal => .error refusal
  | none => .ok (f.render scale palette)

/-- The image of a frame, or why there is none. -/
def image (studio : Studio) (f : Frame) (scale : Rat) (palette : Palette) :
    Except PictureRefusal Png.Image := do
  let s := magnification scale
  let begun? ← studio.newImage (f.width * s) (f.height * s)
  let picture ← studio.picture f s palette
  match begun? with
  | some begun => .ok (begun.filled picture)
  | none => .error .noPixels

end Studio

/-- The image of a frame, magnified and coloured: what a frame comes to where it is not refused. -/
def Png.Image.ofFrame (f : Frame) (scale : Rat) (palette : Palette) : Image :=
  let s := magnification scale
  { width := f.width * s, height := f.height * s, data := f.render s palette }

/-- Why a frame cannot be made into an image in a studio. -/
def Png.refusal? (f : Frame) (scale : Rat) (studio : Studio := Studio.standard) :
    Option PictureRefusal :=
  match studio.image f scale Palette.monochrome with
  | .error refusal => some refusal
  | .ok _ => none

end Chip8
