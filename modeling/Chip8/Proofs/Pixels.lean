/-
# Chip8.Proofs.Pixels -- what a magnified picture shows

The picture of a frame has a square of `s` by `s` pixels for each cell, so the pixel in a
column and a row shows the cell in column `column / s` and row `row / s`
(`pixelAt?_render`).  A magnification is at most `2 ^ 31 - 1` and is not changed by magnifying
again (`magnification_natCast`), so the image of a grid is `64 * s` by `32 * s` pixels and
shows its cells in white and black (`shows_ofGrid`).
-/
import Chip8.Proofs.Painting
import Chip8.Proofs.Sprite
import Chip8.Screen.Studio

set_option autoImplicit false

namespace Chip8

/-! ## Magnification -/

theorem magnification_bounds (scale : Rat) :
    1 ≤ magnification scale ∧ magnification scale < 2147483648 := by
  have below : wrapSigned32 scale < 2147483648 := Int.bmod_lt (by decide)
  unfold magnification
  omega

/-- Magnifying by a magnification is the same again. -/
theorem magnification_natCast (scale : Rat) :
    magnification (magnification scale : Rat) = magnification scale := by
  obtain ⟨positive, small⟩ := magnification_bounds scale
  rw [magnification, wrapSigned32_natCast small]
  omega

/-! ## Pixels -/

namespace Picture

theorem extract_four (picture : Array UInt8) {k : Nat} (inside : k + 3 < picture.size) :
    (picture.extract k (k + 4)).toList =
      [picture[k], picture[k + 1], picture[k + 2], picture[k + 3]] := by
  have four : min (k + 4) picture.size - k = 4 := by omega
  apply List.ext_getElem
  · rw [Array.length_toList, Array.size_extract, four]
    rfl
  · intro j here there
    rw [Array.getElem_toList, Array.getElem_extract]
    match j, there with
    | 0, _ | 1, _ | 2, _ | 3, _ => rfl

end Picture

/-- **A pixel shows the cell that its square stands for.** -/
theorem Frame.pixelAt?_render (f : Frame) {scale : Rat} {s : Nat}
    (magnified : magnification scale = s) (palette : Palette) {column row : Nat}
    (inside : column < f.width * s) (below : row < f.height * s) :
    Picture.pixelAt? (f.render scale palette) ((row * (f.width * s) + column) * 4) =
      some (if f.cell (column / s) (row / s) then palette.on.pixel
        else palette.off.pixel).toList := by
  have room : (row * (f.width * s) + column) * 4 + 3 < (f.render scale palette).size := by
    rw [f.size_render, magnified]
    exact Picture.pixel_room inside below
  have byte : ∀ channel (small : channel < 4)
      (there : (row * (f.width * s) + column) * 4 + channel < (f.render scale palette).size),
      (f.render scale palette)[(row * (f.width * s) + column) * 4 + channel] =
        if f.cell (column / s) (row / s) then palette.on.pixel[channel]
        else palette.off.pixel[channel] := by
    intro channel small there
    rw [← Picture.pictureByte_pixel f _ _ inside small]
    simp only [f.render_eq, Array.getElem_ofFn, magnified]
  rw [Picture.pixelAt?, if_pos (by omega), Picture.extract_four _ room, Option.some_inj,
    byte 1 (by decide), byte 2 (by decide), byte 3 (by decide)]
  have first : (f.render scale palette)[(row * (f.width * s) + column) * 4] =
      if f.cell (column / s) (row / s) then palette.on.pixel[0] else palette.off.pixel[0] :=
    byte 0 (by decide) (by omega)
  rw [first]
  split <;> rfl

/-! ## Grids -/

theorem Grid.getElem_eq_get (g : Grid) {k : Nat} (inside : k < 2048) {place : Fin 2048}
    (same : k = place.val) : g[k] = g.get place := by
  subst same
  rfl

/-- The cells of the frame of a grid. -/
theorem Frame.cell_ofGrid (g : Grid) {column row : Nat} (right : column < 64) (below : row < 32) :
    (ofGrid g).cell column row = g.get (Grid.placeOf column row) := by
  have place : row * 64 + column = (Grid.placeOf column row).val := by
    simp only [Grid.placeOf]
    omega
  have inside : row * 64 + column < 2048 := by omega
  have there : row * 64 + column < g.toArray.size := by
    rw [g.size_toArray]
    exact inside
  show g.toArray.getD (row * 64 + column) false = _
  rw [Array.getD, dif_pos there]
  exact g.getElem_eq_get inside place

namespace Png.Image

/-- An image of `s` pixels to a cell that shows the lit cells of a grid in white and the
others in black. -/
structure Shows (image : Image) (s : Nat) (g : Grid) : Prop where
  width : image.width = 64 * s
  height : image.height = 32 * s
  size : image.data.size = image.width * image.height * 4
  pixel : ∀ column row, column < image.width → row < image.height →
    Picture.pixelAt? image.data ((row * image.width + column) * 4) =
      some (if g.get (Grid.placeOf (column / s) (row / s)) then [255, 255, 255, 255]
        else [0, 0, 0, 255])

section Frame

variable (f : Frame) (scale : Rat) (palette : Palette)

theorem width_ofFrame : (ofFrame f scale palette).width = f.width * magnification scale := rfl

theorem height_ofFrame : (ofFrame f scale palette).height = f.height * magnification scale := rfl

theorem data_ofFrame :
    (ofFrame f scale palette).data = f.render (magnification scale : Rat) palette := by
  simp only [ofFrame]

end Frame

/-- **The image of a grid shows its cells.** -/
theorem shows_ofGrid (g : Grid) (scale : Rat) :
    (ofFrame (Frame.ofGrid g) scale Palette.monochrome).Shows (magnification scale) g := by
  have again := magnification_natCast scale
  constructor
  · exact width_ofFrame _ _ _
  · exact height_ofFrame _ _ _
  · rw [data_ofFrame, Frame.size_render, again, width_ofFrame, height_ofFrame, Frame.pictureSize]
  · intro column row right below
    rw [width_ofFrame] at right
    rw [height_ofFrame] at below
    have across : column / magnification scale < 64 :=
      Nat.div_lt_of_lt_mul (Nat.mul_comm 64 _ ▸ right)
    have down : row / magnification scale < 32 :=
      Nat.div_lt_of_lt_mul (Nat.mul_comm 32 _ ▸ below)
    rw [data_ofFrame, width_ofFrame,
      Frame.pixelAt?_render _ again Palette.monochrome right below,
      Frame.cell_ofGrid g across down]
    split <;> rfl

end Png.Image

end Chip8
