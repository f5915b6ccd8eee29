import HackyLens.Photo.Theorems.PngImage
import HackyLens.Photo.Theorems.View

-- One picture in three formats.

namespace Files

open Photo LittleEndian Core Scaling

variable {picture : Picture} {width height : Nat} {file : List UInt8}

def Picture.rgb (picture : Picture) (x y i : Nat) : UInt8 :=
  [(picture x y).1, (picture x y).2.1, (picture x y).2.2].getD i 0

section OnePixel

def cleared : Inflate.State :=
  ⟨⟨0, 0, 0, 0⟩, fun _ _ => 0, fun _ => 0, 0⟩

end OnePixel

section Stripe

end Stripe
end Files
