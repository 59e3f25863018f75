/-
# Chip8.Proofs.Painting -- pictures painted pixel by pixel

A picture begins with zeros, and its pixels are painted one after another, the rows from the top
down and each of them from left to right.  `pictureByte` says which byte a picture is to have at
which place, and `Painted` of a picture on the way that its first pixels have these bytes while
the others are still zero.  Painting the next pixel keeps that (`Painted.next`), so a row takes
the picture from its first pixel to that of the row below (`Painted.nextRow`), and all rows to the
end: every byte of a picture is stored, and it is the byte of its cell (`render_eq`).
-/
import Chip8.Screen.Picture

set_option autoImplicit false

namespace Chip8

namespace Picture

/-- The byte at place `k` of the picture of a frame, `s` pixels to a cell. -/
def pictureByte (f : Frame) (s : Nat) (off on : Vector UInt8 4) (k : Nat) : UInt8 :=
  let pixel := k / 4
  let column := pixel % (f.width * s)
  let row := pixel / (f.width * s)
  have channel : k % 4 < 4 := Nat.mod_lt k (by decide)
  if f.cell (column / s) (row / s) then on[k % 4] else off[k % 4]

/-- The four bytes of a pixel are the components of the colour of its cell. -/
theorem pictureByte_pixel (f : Frame) {s column row channel : Nat} (off on : Vector UInt8 4)
    (inside : column < f.width * s) (small : channel < 4) :
    pictureByte f s off on ((row * (f.width * s) + column) * 4 + channel) =
      if f.cell (column / s) (row / s) then on[channel] else off[channel] := by
  have pixel : ((row * (f.width * s) + column) * 4 + channel) / 4 =
      row * (f.width * s) + column := by omega
  have part : ((row * (f.width * s) + column) * 4 + channel) % 4 = channel := by omega
  have across : (row * (f.width * s) + column) % (f.width * s) = column := by
    rw [Nat.mul_comm, Nat.mul_add_mod, Nat.mod_eq_of_lt inside]
  have down : (row * (f.width * s) + column) / (f.width * s) = row := by
    rw [Nat.mul_comm, Nat.mul_add_div (by omega), Nat.div_eq_of_lt inside, Nat.add_zero]
  simp only [pictureByte, pixel, part, across, down]

/-! ## One pixel -/

theorem size_paintPixel (picture : Array UInt8) (k : Nat) (pixel : Vector UInt8 4) :
    (paintPixel picture k pixel).size = picture.size := by
  simp only [paintPixel, Array.size_setIfInBounds]

/-- A pixel stores its four bytes and no other. -/
theorem getElem?_paintPixel (picture : Array UInt8) {k : Nat} (room : k + 3 < picture.size)
    (pixel : Vector UInt8 4) (j : Nat) :
    (paintPixel picture k pixel)[j]? =
      if k ≤ j ∧ j < k + 4 then pixel[j - k]? else picture[j]? := by
  simp only [paintPixel, Array.getElem?_setIfInBounds, Array.size_setIfInBounds]
  by_cases within : k ≤ j ∧ j < k + 4
  · rw [if_pos within]
    obtain ⟨channel, rfl⟩ := Nat.exists_eq_add_of_le within.1
    rw [Nat.add_sub_cancel_left]
    match channel, within with
    | 0, _ | 1, _ | 2, _ | 3, _ => simp; omega
    | more + 4, ⟨_, high⟩ => omega
  · rw [if_neg within, if_neg (by omega), if_neg (by omega), if_neg (by omega), if_neg (by omega)]

/-! ## One after another -/

/-- A picture whose first pixels are painted, and whose other bytes are zero. -/
structure Painted (f : Frame) (s : Nat) (off on : Vector UInt8 4) (pixels : Nat)
    (picture : Array UInt8) : Prop where
  size : picture.size = f.pictureSize s
  byte : ∀ k < f.pictureSize s,
    picture[k]? = some (if k < pixels * 4 then pictureByte f s off on k else 0)

section Painting

variable {f : Frame} {s : Nat} {off on : Vector UInt8 4} {picture : Array UInt8} {row : Nat}

theorem painted_replicate : Painted f s off on 0 (Array.replicate (f.pictureSize s) 0) where
  size := Array.size_replicate
  byte := by
    intro k inside
    rw [Array.getElem?_replicate, if_pos inside, Nat.zero_mul, if_neg (Nat.not_lt_zero k)]

/-- A row above the lower edge has room for its pixels. -/
theorem pixel_room {column : Nat} (right : column < f.width * s) (below : row < f.height * s) :
    (row * (f.width * s) + column) * 4 + 3 < f.pictureSize s := by
  have rows : (row + 1) * (f.width * s) ≤ f.height * s * (f.width * s) :=
    Nat.mul_le_mul_right _ below
  rw [Nat.add_mul, Nat.one_mul] at rows
  rw [Frame.pictureSize, Nat.mul_comm (f.width * s)]
  omega

/-- **The next pixel is painted.** -/
theorem Painted.next {column : Nat}
    (painted : Painted f s off on (row * (f.width * s) + column) picture)
    (right : column < f.width * s) (below : row < f.height * s) :
    Painted f s off on (row * (f.width * s) + (column + 1))
      (paintPixel picture ((row * (f.width * s) + column) * 4)
        (if f.cell (column / s) (row / s) then on else off)) where
  size := by rw [size_paintPixel, painted.size]
  byte := by
    intro k inside
    have room : (row * (f.width * s) + column) * 4 + 3 < picture.size := by
      rw [painted.size]
      exact pixel_room right below
    rw [getElem?_paintPixel _ room]
    split
    · rename_i within
      obtain ⟨channel, rfl⟩ := Nat.exists_eq_add_of_le within.1
      have small : channel < 4 := by omega
      have done : (row * (f.width * s) + column) * 4 + channel <
          (row * (f.width * s) + (column + 1)) * 4 := by omega
      rw [if_pos done, pictureByte_pixel f off on right small, Nat.add_sub_cancel_left,
        Vector.getElem?_eq_getElem small]
      split <;> rfl
    · rename_i elsewhere
      have same : k < (row * (f.width * s) + column) * 4 ↔
          k < (row * (f.width * s) + (column + 1)) * 4 := by omega
      rw [painted.byte k inside]
      simp only [same]

/-- **A row takes a picture from its first pixel to that of the row below.** -/
theorem Painted.nextRow (painted : Painted f s off on (row * (f.width * s)) picture)
    (below : row < f.height * s) :
    Painted f s off on ((row + 1) * (f.width * s)) (f.paintRow s off on picture row) := by
  have columns : ∀ n ≤ f.width * s, Painted f s off on (row * (f.width * s) + n)
      ((List.range n).foldl (fun picture column =>
        paintPixel picture ((row * (f.width * s) + column) * 4)
          (if f.cell (column / s) (row / s) then on else off)) picture) := by
    intro n
    induction n with
    | zero => exact fun _ => painted
    | succ n ih =>
      intro most
      rw [List.range_succ, List.foldl_append, List.foldl_cons, List.foldl_nil]
      exact (ih (by omega)).next (by omega) below
  rw [Nat.add_mul, Nat.one_mul]
  exact columns (f.width * s) (Nat.le_refl _)

/-- **All rows paint all pixels.** -/
theorem painted_rows (painted : Painted f s off on 0 picture) {rows : Nat}
    (most : rows ≤ f.height * s) :
    Painted f s off on (rows * (f.width * s))
      ((List.range rows).foldl (f.paintRow s off on) picture) := by
  induction rows with
  | zero =>
    rw [Nat.zero_mul]
    exact painted
  | succ rows ih =>
    rw [List.range_succ, List.foldl_append, List.foldl_cons, List.foldl_nil]
    exact (ih (by omega)).nextRow most

end Painting

end Picture

namespace Frame

variable (f : Frame) (scale : Rat) (palette : Palette)

theorem painted_render :
    Picture.Painted f (magnification scale) palette.off.pixel palette.on.pixel
      (f.height * magnification scale * (f.width * magnification scale))
      (f.render scale palette) :=
  Picture.painted_rows Picture.painted_replicate (Nat.le_refl _)

theorem size_render : (f.render scale palette).size = f.pictureSize (magnification scale) :=
  (f.painted_render scale palette).size

/-- **Every byte of a picture is that of its cell.** -/
theorem render_eq :
    f.render scale palette = Array.ofFn (n := f.pictureSize (magnification scale)) fun k =>
      Picture.pictureByte f (magnification scale) palette.off.pixel palette.on.pixel k.val := by
  have painted := f.painted_render scale palette
  apply Array.ext
  · rw [painted.size, Array.size_ofFn]
  · intro k inside there
    have within : k < f.pictureSize (magnification scale) := painted.size ▸ inside
    have all : k < f.height * magnification scale * (f.width * magnification scale) * 4 := by
      rw [Nat.mul_comm (f.height * _)]
      exact within
    have byte := painted.byte k within
    rw [if_pos all, Array.getElem?_eq_getElem inside, Option.some_inj] at byte
    rw [byte, Array.getElem_ofFn]

end Frame

end Chip8
