/-
# Chip8.Proofs.Images -- images made in a studio

An image is begun with the sides that the whole magnification gives, and then the picture, which
is painted with that magnification as its scale, is copied into its data.  A magnification is not
changed by magnifying again, so the picture is that of the scale itself (`data_ofFrame_eq`) and
has as many bytes as the image has data: the copy fills it exactly (`Image.filled_eq`).  So in a
studio that does what it is known to do, a frame comes to its image wherever there is room for
the picture and the format allows its sides (`Studio.Fits`, `Studio.image_eq_ok`).  There is such
a studio with any limit to its room (`Studio.documented_ofLimit`).
-/
import Mathlib.Tactic.ByContra
import Mathlib.Tactic.Ring
import Chip8.Proofs.Pixels

set_option autoImplicit false

namespace Chip8

/-! ## Copies -/

/-- Bytes that are as many as the data of an image take their place. -/
theorem Png.Image.filled_eq {image : Image} {bytes : Array UInt8}
    (same : image.data.size = bytes.size) : image.filled bytes = { image with data := bytes } := by
  simp [filled, same]

/-- The data of an image are those of the picture. -/
theorem Png.data_ofFrame_eq (f : Frame) (scale : Rat) (palette : Palette) :
    (Image.ofFrame f scale palette).data = f.render scale palette := by
  rw [Image.data_ofFrame, Frame.render, magnification_natCast]
  rfl

theorem Png.ofFrame_eq (f : Frame) (scale : Rat) (palette : Palette) :
    Image.ofFrame f scale palette =
      { width := f.width * magnification scale
        height := f.height * magnification scale
        data := f.render scale palette } := by
  have data := data_ofFrame_eq f scale palette
  simp only [Image.ofFrame] at data ⊢
  rw [data]

/-! ## Room -/

/-- So many bytes have room if an array may have them and there is room for them. -/
theorem refusalOf_eq_none_iff {hasRoom : Nat → Bool} {tooLong : Rat → PictureRefusal}
    {bytes : Nat} :
    refusalOf hasRoom tooLong bytes = none ↔ bytes ≤ longestArray ∧ hasRoom bytes = true := by
  rw [refusalOf]
  split
  · rename_i long
    simp [Nat.not_le.mpr long]
  · rename_i short
    cases room : hasRoom bytes <;> simp [Nat.not_lt.mp short]

namespace Studio

variable {studio : Studio} {f : Frame} {scale : Rat} {s : Nat} {palette : Palette}

/-- A picture that there is room for is painted. -/
theorem picture_eq_ok (room : f.refusal? scale studio = none) :
    studio.picture f scale palette = .ok (f.render scale palette) := by
  rw [picture, room]

/-- A picture that there is no room for is refused. -/
theorem picture_eq_error {refusal : PictureRefusal}
    (refused : f.refusal? scale studio = some refusal) :
    studio.picture f scale palette = .error refusal := by
  rw [picture, refused]

/-- The room for a picture is the same once its scale is whole. -/
theorem refusal?_natCast (magnified : magnification scale = s) :
    f.refusal? (s : Rat) studio = studio.refusal? (f.pictureSize s) := by
  rw [Frame.refusal?, ← magnified, magnification_natCast]

theorem picture_natCast_eq_ok (magnified : magnification scale = s)
    (room : studio.refusal? (f.pictureSize s) = none) :
    studio.picture f (s : Rat) palette = .ok (f.render (s : Rat) palette) :=
  picture_eq_ok ((refusal?_natCast magnified).trans room)

/-! ## Images -/

/-- A frame with a cell, whose picture of `s` pixels to a cell has room and sides that the format
allows. -/
structure Fits (studio : Studio) (f : Frame) (s : Nat) : Prop where
  room : studio.refusal? (f.pictureSize s) = none
  wide : 1 ≤ f.width
  high : 1 ≤ f.height
  narrow : f.width * s < 2147483648
  low : f.height * s < 2147483648

/-- **A frame that fits comes to its image.** -/
theorem image_eq_ok (documented : studio.Documented) (magnified : magnification scale = s)
    (fits : studio.Fits f s) :
    studio.image f scale palette = .ok (Png.Image.ofFrame f scale palette) := by
  have positive : 1 ≤ s := by
    rw [← magnified]
    exact (magnification_bounds scale).1
  obtain ⟨data, size, begun⟩ := documented.newImage _ _ (Nat.mul_pos fits.wide positive)
    fits.narrow (Nat.mul_pos fits.high positive) fits.low fits.room
  have painted : studio.picture f (s : Rat) palette = .ok (f.render (s : Rat) palette) :=
    picture_natCast_eq_ok magnified fits.room
  have same : data.size = (f.render (s : Rat) palette).size := by
    rw [size, f.size_render, ← magnified, magnification_natCast, Frame.pictureSize]
  simp only [image, magnified, begun, painted]
  show Except.ok (Png.Image.filled _ _) = _
  rw [Png.Image.filled_eq same, Png.Image.ofFrame, magnified]

theorem image_refusal?_eq_none (documented : studio.Documented)
    (magnified : magnification scale = s) (fits : studio.Fits f s) :
    Png.refusal? f scale studio = none := by
  rw [Png.refusal?, image_eq_ok documented magnified fits]

/-- An image without data has no place for a picture. -/
theorem image_eq_noPixels (magnified : magnification scale = s)
    (room : studio.refusal? (f.pictureSize s) = none)
    (begun : studio.newImage (f.width * s) (f.height * s) = .ok none) :
    studio.image f scale palette = .error .noPixels := by
  have painted : studio.picture f (s : Rat) palette = .ok (f.render (s : Rat) palette) :=
    picture_natCast_eq_ok magnified room
  simp only [image, magnified, begun, painted]
  rfl

/-- There is room for the picture of a frame that is not refused an image. -/
theorem room_of_image (magnified : magnification scale = s)
    (accepted : Png.refusal? f scale studio = none) :
    studio.refusal? (f.pictureSize s) = none := by
  cases refused : studio.refusal? (f.pictureSize s) with
  | none => rfl
  | some refusal =>
    have unpainted : studio.picture f (s : Rat) Palette.monochrome = .error refusal :=
      picture_eq_error ((refusal?_natCast magnified).trans refused)
    simp only [Png.refusal?, image, magnified, unpainted] at accepted
    cases begun : studio.newImage (f.width * s) (f.height * s) with
    | error other =>
      rw [begun] at accepted
      cases accepted
    | ok begun? =>
      rw [begun] at accepted
      cases accepted

/-- **The image of a grid**: whether there is one does not depend on its cells. -/
theorem image_ofGrid (documented : studio.Documented)
    (accepted : Png.refusal? (Frame.ofGrid Grid.blank) scale studio = none) (g : Grid) :
    studio.image (Frame.ofGrid g) scale Palette.monochrome =
      .ok (Png.Image.ofFrame (Frame.ofGrid g) scale Palette.monochrome) := by
  have room := room_of_image rfl accepted
  obtain ⟨short, -⟩ := refusalOf_eq_none_iff.mp room
  have few : 64 * magnification scale * (32 * magnification scale) * 4 ≤ longestArray := short
  -- more than `2 ^ 20` pixels to a cell would be more bytes than an array has
  have small : magnification scale ≤ 1048576 := by
    by_contra large
    have square : 1048577 * 1048577 ≤ magnification scale * magnification scale :=
      Nat.mul_le_mul (by omega) (by omega)
    have bytes : 64 * magnification scale * (32 * magnification scale) * 4 =
        8192 * (magnification scale * magnification scale) := by ring
    rw [bytes, longestArray] at few
    omega
  have narrow : 64 * magnification scale < 2147483648 := by omega
  have low : 32 * magnification scale < 2147483648 := by omega
  exact image_eq_ok documented rfl ⟨room, Nat.le_add_left 1 63, Nat.le_add_left 1 31, narrow, low⟩

/-! ## A studio -/

/-- **A studio of any limit does what a studio is known to do.** -/
theorem documented_ofLimit (limit : Nat) : (ofLimit limit).Documented where
  newImage := by
    intro width height wide narrow high low room
    have pixels : width * height * 4 ≠ 0 := by
      have area := Nat.mul_pos wide high
      omega
    have begun : refusalOf (fun bytes => decide (bytes < limit)) .imageTooLong
        (width * height * 4) = none :=
      refusalOf_eq_none_iff.mpr (refusalOf_eq_none_iff.mp room)
    refine ⟨Array.replicate (width * height * 4) 0, Array.size_replicate, ?_⟩
    simp only [ofLimit, wrapSigned32_natCast narrow, wrapSigned32_natCast low,
      Int.toNat_natCast]
    simp only [zeros, begun, if_neg pixels]

end Studio

end Chip8
