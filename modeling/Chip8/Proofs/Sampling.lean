/-
# Chip8.Proofs.Sampling -- frames read back from their pictures

A frame of numbers is magnified into squares of `s` by `s` pixels.  Where there is room for the
bytes a studio paints its picture, and each pixel has the colour of the cell whose square it lies
in, the components modulo 256 and full opacity.  So whoever knows the bytes of a lit pixel reads
the cells off the top-left pixels of the squares (`sampled_render`).  If the format of images
allows the sides, the image of the frame has the data of the picture.
-/
import Mathlib.Tactic.Ring
import Chip8.Proofs.Images

set_option autoImplicit false

namespace Chip8

/-! ## Colours of whole components -/

namespace Colour

/-- The colour of three whole components. -/
def ofInts (c : Int × Int × Int) : Colour := { red := c.1, green := c.2.1, blue := c.2.2 }

/-- Each of three components modulo 256, and full opacity. -/
def bytes (c : Int × Int × Int) : List UInt8 :=
  [UInt8.ofNat (c.1 % 256).toNat, UInt8.ofNat (c.2.1 % 256).toNat,
    UInt8.ofNat (c.2.2 % 256).toNat, 255]

theorem toList_pixel_ofInts (c : Int × Int × Int) : (ofInts c).pixel.toList = bytes c := by
  rw [pixel, ofInts, wrapByte_intCast, wrapByte_intCast, wrapByte_intCast]
  rfl

theorem emod_eq_of_ofNat {a b : Int}
    (same : UInt8.ofNat (a % 256).toNat = UInt8.ofNat (b % 256).toNat) : a % 256 = b % 256 := by
  have equal := congrArg UInt8.toNat same
  rw [UInt8.toNat_ofNat', UInt8.toNat_ofNat'] at equal
  omega

/-- Two colours of the same bytes are the same modulo 256. -/
theorem bytes_inj {c d : Int × Int × Int} (same : bytes c = bytes d) :
    c.1 % 256 = d.1 % 256 ∧ c.2.1 % 256 = d.2.1 % 256 ∧ c.2.2 % 256 = d.2.2 % 256 := by
  simp only [bytes, List.cons.injEq] at same
  exact ⟨emod_eq_of_ofNat same.1, emod_eq_of_ofNat same.2.1, emod_eq_of_ofNat same.2.2.1⟩

end Colour

/-! ## Frames of numbers -/

/-- A cell is on if it is listed with a number other than zero. -/
theorem Frame.cell_ofNumbers (width height : Nat) (pixels : List Rat) (x y : Nat) :
    (ofNumbers width height pixels).cell x y = (pixels.getD (y * width + x) 0 != 0) := by
  show ((pixels.map (· != 0)).toArray).getD (y * width + x) false = _
  rw [Array.getD_eq_getD_getElem?, List.getElem?_toArray, List.getElem?_map,
    List.getD_eq_getElem?_getD]
  cases pixels[y * width + x]? <;> rfl

/-! ## Sampling -/

/-- What a reader of a picture of `s` pixels to a cell takes the cells to be: those are on whose
top-left pixel has the given four bytes. -/
def Picture.sampled (picture : Array UInt8) (width height s : Nat) (on : List UInt8) : List Bool :=
  (List.range (width * height)).map fun k =>
    pixelAt? picture ((k / width * s * (width * s) + k % width * s) * 4) == some on

section Picture

variable (width height : Nat) (pixels : List Rat) (scale : Rat) (off on : Int × Int × Int)

/-- The pixel of a picture in whole colours. -/
theorem Frame.pixelAt?_render_ofInts {s column row : Nat} (magnified : magnification scale = s)
    (inside : column < width * s) (below : row < height * s) :
    Picture.pixelAt?
        ((ofNumbers width height pixels).render scale ⟨Colour.ofInts off, Colour.ofInts on⟩)
        ((row * (width * s) + column) * 4) =
      some (Colour.bytes
        (if pixels.getD (row / s * width + column / s) 0 = 0 then off else on)) := by
  have pixel := (ofNumbers width height pixels).pixelAt?_render magnified
    ⟨Colour.ofInts off, Colour.ofInts on⟩ inside below
  rw [cell_ofNumbers] at pixel
  refine pixel.trans (congrArg some ?_)
  simp only [bne_iff_ne, ne_eq, ite_not]
  split <;> exact Colour.toList_pixel_ofInts _

/-- **A frame is read back from its picture**, if the colours of its cells differ. -/
theorem Frame.sampled_render {s : Nat} (magnified : magnification scale = s)
    (differ : Colour.bytes off ≠ Colour.bytes on) :
    Picture.sampled
        ((ofNumbers width height pixels).render scale ⟨Colour.ofInts off, Colour.ofInts on⟩)
        width height s (Colour.bytes on) =
      (List.range (width * height)).map fun k => pixels.getD k 0 != 0 := by
  have positive : 0 < s := by
    rw [← magnified]
    exact (magnification_bounds scale).1
  apply List.map_congr_left
  intro k listed
  have few : k < width * height := List.mem_range.mp listed
  have wide : 0 < width := Nat.pos_of_mul_pos_right (Nat.zero_lt_of_lt few)
  have right : k % width < width := Nat.mod_lt k wide
  have down : k / width < height := Nat.div_lt_of_lt_mul few
  rw [pixelAt?_render_ofInts width height pixels scale off on magnified
    (Nat.mul_lt_mul_of_pos_right right positive) (Nat.mul_lt_mul_of_pos_right down positive),
    Nat.mul_div_cancel _ positive, Nat.mul_div_cancel _ positive, Nat.div_add_mod']
  by_cases dark : pixels.getD k 0 = 0
  · rw [if_pos dark, bne_eq_false_iff_eq.mpr dark, beq_eq_false_iff_ne]
    exact fun same => differ (Option.some.inj same)
  · rw [if_neg dark, bne_iff_ne.mpr dark, beq_self_eq_true]

end Picture

/-- **A picture shows its frame.**  Take a frame of numbers in any two whole colours, at any
scale, and a studio that does what it is known to do.  If an array may have the bytes of the
picture and there is room for them, the picture is painted.  It has four bytes for each pixel;
those of the pixel in a column and a row are the components, modulo 256, of the colour of the cell
in column `column / s` and row `row / s`, and full opacity.  If the two colours differ modulo 256,
the cells are read back from the top-left pixels of the squares.  If there is a pixel and the
format allows the sides, the image is made too, and it has `width * s` times `height * s` pixels
and the data of the picture. -/
theorem picture_shows_frame {studio : Studio} (documented : studio.Documented)
    (width height : Nat) (pixels : List Rat) (scale : Rat) (off on : Int × Int × Int)
    (short : 4 * width * height * magnification scale * magnification scale ≤ 2 ^ 53 - 1)
    (room : studio.hasRoom (4 * width * height * magnification scale * magnification scale)) :
    let f := Frame.ofNumbers width height pixels
    let s := magnification scale
    let palette : Palette := ⟨Colour.ofInts off, Colour.ofInts on⟩
    ∃ picture, studio.picture f scale palette = .ok picture ∧
      picture.size = 4 * width * height * s * s ∧
      (∀ column row, column < width * s → row < height * s →
        Picture.pixelAt? picture (4 * (row * (width * s) + column)) =
          some (Colour.bytes
            (if pixels.getD (row / s * width + column / s) 0 = 0 then off else on))) ∧
      (¬ (off.1 % 256 = on.1 % 256 ∧ off.2.1 % 256 = on.2.1 % 256 ∧
          off.2.2 % 256 = on.2.2 % 256) →
        Picture.sampled picture width height s (Colour.bytes on) =
          (List.range (width * height)).map fun k => pixels.getD k 0 != 0) ∧
      (1 ≤ width → 1 ≤ height → width * s < 2 ^ 31 → height * s < 2 ^ 31 →
        studio.image f scale palette =
          .ok { width := width * s, height := height * s, data := picture }) := by
  intro f s palette
  have magnified : magnification scale = s := rfl
  have size : f.pictureSize s = 4 * width * height * s * s := by
    show width * s * (height * s) * 4 = _
    ring
  have unrefused : studio.refusal? (f.pictureSize s) = none := by
    rw [size]
    exact refusalOf_eq_none_iff.mpr ⟨short, room⟩
  refine ⟨f.render scale palette, Studio.picture_eq_ok unrefused, ?_, ?_, ?_, ?_⟩
  · rw [f.size_render, size]
  · intro column row inside below
    rw [Nat.mul_comm 4]
    exact Frame.pixelAt?_render_ofInts width height pixels scale off on magnified inside below
  · intro differ
    exact Frame.sampled_render width height pixels scale off on magnified
      fun same => differ (Colour.bytes_inj same)
  · intro wide high narrow low
    have made : studio.image f scale palette = .ok (Png.Image.ofFrame f scale palette) :=
      Studio.image_eq_ok documented magnified ⟨unrefused, wide, high, narrow, low⟩
    exact made.trans (congrArg Except.ok (Png.ofFrame_eq f scale palette))

/-- Two cells, the second of which is not listed, at the scale two and a half, where there is room
for the 32 bytes of the picture and no more. -/
theorem picture_shows_frame_twoCells :
    let studio := Studio.ofLimit 33
    let f := Frame.ofNumbers 2 1 [7]
    let palette : Palette := ⟨Colour.ofInts (0, 0, 256), Colour.ofInts (-1, 300, 0)⟩
    ∃ picture, studio.picture f (5 / 2) palette = .ok picture ∧ picture.size = 32 ∧
      Picture.pixelAt? picture (4 * (1 * 4 + 1)) = some [255, 44, 0, 255] ∧
      Picture.pixelAt? picture (4 * (1 * 4 + 3)) = some [0, 0, 0, 255] ∧
      Picture.sampled picture 2 1 2 [255, 44, 0, 255] = [true, false] ∧
      studio.image f (5 / 2) palette = .ok { width := 4, height := 2, data := picture } := by
  intro studio f palette
  have two : magnification (5 / 2) = 2 := by decide +kernel
  obtain ⟨picture, painted, size, pixel, sampled, image⟩ :=
    picture_shows_frame (Studio.documented_ofLimit 33) 2 1 [7] (5 / 2) (0, 0, 256) (-1, 300, 0)
      (by rw [two]; decide) (by rw [two]; decide)
  rw [two] at size pixel sampled image
  exact ⟨picture, painted, size, pixel 1 1 (by decide) (by decide),
    pixel 3 1 (by decide) (by decide), sampled (by decide),
    image (by decide) (by decide) (by decide) (by decide)⟩

/-- There are pictures and images that are refused.  However much room there is, a single cell at
the scale `2 ^ 30` asks for an array of `2 ^ 62` bytes, which is longer than any.  A row of
`2 ^ 31` pixels is no signed 32-bit number of pixels wide, so there is no image with data. -/
theorem picture_without_room :
    let endless : Studio := { Studio.standard with hasRoom := fun _ => true }
    endless.picture (Frame.ofNumbers 1 1 [1]) 1073741824 Palette.monochrome =
        .error (.arrayTooLong 4611686018427387904) ∧
      Studio.standard.image (Frame.ofNumbers 2147483648 1 [1]) 1 Palette.monochrome =
        .error .noPixels := by
  intro endless
  have one : magnification 1 = 1 := by decide +kernel
  exact ⟨Studio.picture_eq_error (by decide +kernel),
    Studio.image_eq_noPixels one (by decide +kernel) (by decide +kernel)⟩

end Chip8
