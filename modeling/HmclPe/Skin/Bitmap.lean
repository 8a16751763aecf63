import Mathlib.Data.List.Basic

/-! Bitmaps as far as the launcher uses them: colours by column and row, with the exception of an
access outside of the image. -/
namespace HmclPe.Skin

/-- A colour with its alpha in the highest byte. -/
abbrev Pixel := BitVec 32

/-- A bitmap gives back the colours that were set. A premultiplied one does so for opaque colours
and for those that another such bitmap gave back, which are all that is copied here. -/
structure Bitmap where
  width : Nat
  height : Nat
  pixels : Nat × Nat → Pixel

namespace Bitmap

def Inside (bitmap : Bitmap) (x y : Nat) : Prop := x < bitmap.width ∧ y < bitmap.height

instance (bitmap : Bitmap) (x y : Nat) : Decidable (bitmap.Inside x y) :=
  inferInstanceAs (Decidable (_ ∧ _))

/-- `Bitmap.createBitmap` gives a transparent image. -/
def create (width height : Nat) : Bitmap := ⟨width,height,fun _ => 0⟩

def getPixel (bitmap : Bitmap) (x y : Nat) : Option Pixel :=
  if bitmap.Inside x y then some (bitmap.pixels (x,y)) else none

def setPixel (bitmap : Bitmap) (x y : Nat) (pixel : Pixel) : Option Bitmap :=
  if bitmap.Inside x y then
    some { bitmap with pixels := Function.update bitmap.pixels (x,y) pixel }
  else none

variable {bitmap : Bitmap} {x y : Nat}

theorem getPixel_inside (inside : bitmap.Inside x y) :
    bitmap.getPixel x y = some (bitmap.pixels (x,y)) := if_pos inside

theorem setPixel_inside (inside : bitmap.Inside x y) (pixel : Pixel) :
    bitmap.setPixel x y pixel =
      some { bitmap with pixels := Function.update bitmap.pixels (x,y) pixel } := if_pos inside

end Bitmap

end HmclPe.Skin
