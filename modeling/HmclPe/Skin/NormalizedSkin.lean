import HmclPe.Java.Text
import HmclPe.Lib.Assignments
import HmclPe.Skin.Bitmap

/-! Skins of the old format are brought to the new one: the limbs that the old format does not have
are mirrored from those on the other side. -/
namespace HmclPe.Skin
open HmclPe.Java HmclPe.Lib.Assignments

section Model

inductive SkinException
  | invalidSkin (message : Text)
  | illegalArgument
deriving DecidableEq

/-- A copy reads another bitmap, or the one that it writes. -/
inductive Source
  | bitmap (src : Bitmap)
  | itself

def Source.readFrom (dst : Bitmap) : Source → Bitmap
  | .bitmap src => src
  | .itself => dst

def copyPixel (src : Source) (sx sy dx dy w y : Nat) (flipHorizontal : Bool) (dst : Bitmap)
    (x : Nat) : Option Bitmap := do
  let pixel ← (src.readFrom dst).getPixel (sx + x) (sy + y)
  dst.setPixel (dx + if flipHorizontal then w - x - 1 else x) (dy + y) pixel

def copyImage (src : Source) (sx sy dx dy w h : Nat) (flipHorizontal : Bool) (dst : Bitmap) :
    Option Bitmap :=
  (List.range h).foldlM (fun dst y =>
    (List.range w).foldlM (copyPixel src sx sy dx dy w y flipHorizontal) dst) dst

structure Copy where
  sx : Nat
  sy : Nat
  dx : Nat
  dy : Nat
  w : Nat
  h : Nat
  flipHorizontal : Bool
deriving DecidableEq

def copyImageRelative (scale : Nat) (normalizedTexture : Bitmap) (copy : Copy) : Option Bitmap :=
  copyImage .itself (copy.sx * scale) (copy.sy * scale) (copy.dx * scale) (copy.dy * scale)
    (copy.w * scale) (copy.h * scale) copy.flipHorizontal normalizedTexture

def oldSkinCopies : List Copy :=
  [⟨4,16,20,48,4,4,true⟩,⟨8,16,24,48,4,4,true⟩,⟨0,20,24,52,4,12,true⟩,⟨4,20,20,52,4,12,true⟩,
    ⟨8,20,16,52,4,12,true⟩,⟨12,20,28,52,4,12,true⟩,⟨44,16,36,48,4,4,true⟩,⟨48,16,40,48,4,4,true⟩,
    ⟨40,20,40,52,4,12,true⟩,⟨44,20,36,52,4,12,true⟩,⟨48,20,32,52,4,12,true⟩,
    ⟨52,20,44,52,4,12,true⟩]

def convertOldSkin (scale : Nat) (normalizedTexture : Bitmap) : Option Bitmap :=
  oldSkinCopies.foldlM (copyImageRelative scale) normalizedTexture

structure NormalizedSkin where
  texture : Bitmap
  normalizedTexture : Bitmap
  scale : Nat
  oldFormat : Bool

def invalidSize (w h : Nat) : Text :=
  ("Invalid size " : String).toList ++ Nat.toDigits 10 w ++ 'x' :: Nat.toDigits 10 h

/-- `IllegalArgumentException` is that of an access outside of a bitmap. -/
def checked (result : Option Bitmap) : Except SkinException Bitmap :=
  result.elim (.error .illegalArgument) .ok

def NormalizedSkin.make (texture : Bitmap) : Except SkinException NormalizedSkin := do
  let w := texture.width
  let h := texture.height
  if w % 64 ≠ 0 then throw (.invalidSkin (invalidSize w h))
  if w ≠ h ∧ w ≠ h * 2 then throw (.invalidSkin (invalidSize w h))
  let oldFormat := decide (w ≠ h)
  let scale := w / 64
  let copied ← checked (copyImage (.bitmap texture) 0 0 0 0 w h false (Bitmap.create w w))
  let normalizedTexture ← if oldFormat then checked (convertOldSkin scale copied) else pure copied
  return ⟨texture,normalizedTexture,scale,oldFormat⟩

variable (skin : NormalizedSkin)

/-- Whether some pixel of an area meets a test; the rest is not looked at. -/
def NormalizedSkin.anyPixel (test : Pixel → Bool) (x0 y0 w h : Nat) : Option Bool :=
  (List.range (h * skin.scale)).anyM fun y => (List.range (w * skin.scale)).anyM fun x =>
    (skin.normalizedTexture.getPixel (x0 * skin.scale + x) (y0 * skin.scale + y)).map test

def NormalizedSkin.hasTransparencyRelative (x0 y0 w h : Nat) : Option Bool :=
  skin.anyPixel (fun pixel => pixel >>> 24 ≠ 0xff#32) x0 y0 w h

def NormalizedSkin.isAreaBlackRelative (x0 y0 w h : Nat) : Option Bool :=
  (skin.anyPixel (fun pixel => pixel ≠ 0xff000000#32) x0 y0 w h).map (!·)

def NormalizedSkin.isSlim : Option Bool := do
  if ← skin.hasTransparencyRelative 50 16 2 4 then return true
  if ← skin.hasTransparencyRelative 54 20 2 12 then return true
  if ← skin.hasTransparencyRelative 42 48 2 4 then return true
  if ← skin.hasTransparencyRelative 46 52 2 12 then return true
  if !(← skin.isAreaBlackRelative 50 16 2 4) then return false
  if !(← skin.isAreaBlackRelative 54 20 2 12) then return false
  if !(← skin.isAreaBlackRelative 42 48 2 4) then return false
  skin.isAreaBlackRelative 46 52 2 12

end Model

section Limbs

inductive Limb | leg | arm
deriving DecidableEq

/-- The faces of a limb, seen from the body. -/
inductive Face | top | bottom | outer | front | inner | back
deriving DecidableEq

structure Area where
  x : Nat
  y : Nat
  w : Nat
  h : Nat

def Face.width (_ : Face) : Nat := 4

def Face.height : Face → Nat
  | .top | .bottom => 4
  | _ => 12

/-- The faces are unrolled from the right to the left of the limb itself, so that the outer face is
the first one of a right limb and the third one of a left limb. -/
def rightArea (limb : Limb) (face : Face) : Area :=
  let (x,y) := match limb with
    | .leg => (0,16)
    | .arm => (40,16)
  let (dx,dy) := match face with
    | .top => (4,0)
    | .bottom => (8,0)
    | .outer => (0,4)
    | .front => (4,4)
    | .inner => (8,4)
    | .back => (12,4)
  ⟨x + dx,y + dy,face.width,face.height⟩

def leftArea (limb : Limb) (face : Face) : Area :=
  let (x,y) := match limb with
    | .leg => (16,48)
    | .arm => (32,48)
  let (dx,dy) := match face with
    | .top => (4,0)
    | .bottom => (8,0)
    | .inner => (0,4)
    | .front => (4,4)
    | .outer => (8,4)
    | .back => (12,4)
  ⟨x + dx,y + dy,face.width,face.height⟩

/-- The pixels of an area of a scaled skin. -/
def Area.Covers (area : Area) (k x y : Nat) : Prop :=
  area.x * k ≤ x ∧ x < (area.x + area.w) * k ∧ area.y * k ≤ y ∧ y < (area.y + area.h) * k

def Copy.mirror (limb : Limb) (face : Face) : Copy :=
  ⟨(rightArea limb face).x,(rightArea limb face).y,(leftArea limb face).x,(leftArea limb face).y,
    face.width,face.height,true⟩

/-- The copies are those of the faces, each to its own counterpart. -/
theorem mem_oldSkinCopies (copy : Copy) :
    copy ∈ oldSkinCopies ↔ ∃ limb face, copy = Copy.mirror limb face := by
  constructor
  · intro member
    simp only [oldSkinCopies,List.mem_cons,List.not_mem_nil,or_false] at member
    rcases member with rfl | rfl | rfl | rfl | rfl | rfl | rfl | rfl | rfl | rfl | rfl | rfl
    · exact ⟨.leg,.top,rfl⟩
    · exact ⟨.leg,.bottom,rfl⟩
    · exact ⟨.leg,.outer,rfl⟩
    · exact ⟨.leg,.front,rfl⟩
    · exact ⟨.leg,.inner,rfl⟩
    · exact ⟨.leg,.back,rfl⟩
    · exact ⟨.arm,.top,rfl⟩
    · exact ⟨.arm,.bottom,rfl⟩
    · exact ⟨.arm,.outer,rfl⟩
    · exact ⟨.arm,.front,rfl⟩
    · exact ⟨.arm,.inner,rfl⟩
    · exact ⟨.arm,.back,rfl⟩
  · rintro ⟨limb,face,rfl⟩
    cases limb <;> cases face <;> decide

end Limbs

section Assignments

abbrev Pixels := Nat × Nat → Pixel

def Source.read (pixels : Pixels) : Source → Pixels
  | .bitmap src => src.pixels
  | .itself => pixels

def flipped (flipHorizontal : Bool) (w x : Nat) : Nat := if flipHorizontal then w - x - 1 else x

variable (src : Source) (sx sy dx dy w h : Nat) (flipHorizontal : Bool)

def pixelAssignment (y x : Nat) : Assignment (Nat × Nat) Pixel :=
  ⟨(dx + flipped flipHorizontal w x,dy + y),fun pixels => src.read pixels (sx + x,sy + y)⟩

def imageAssignments : List (Assignment (Nat × Nat) Pixel) :=
  (List.range h).flatMap fun y =>
    (List.range w).flatMap fun x => [pixelAssignment src sx sy dx dy w flipHorizontal y x]

/-- A loop whose body makes some assignments makes them all, in order. -/
theorem foldlM_run {ι : Type} {width height : Nat} {step : Bitmap → ι → Option Bitmap}
    {assignments : ι → List (Assignment (Nat × Nat) Pixel)} {items : List ι}
    (one : ∀ item ∈ items, ∀ pixels, step ⟨width,height,pixels⟩ item =
      some ⟨width,height,run (assignments item) pixels⟩) (pixels : Pixels) :
    items.foldlM step ⟨width,height,pixels⟩ =
      some ⟨width,height,run (items.flatMap assignments) pixels⟩ := by
  induction items generalizing pixels with
  | nil => rfl
  | cons item items ih =>
    rw [List.foldlM_cons,one item List.mem_cons_self,List.flatMap_cons,run_append]
    exact ih (fun other member => one other (List.mem_cons_of_mem item member)) _

theorem flipped_lt {x : Nat} (inside : x < w) : flipped flipHorizontal w x < w := by
  unfold flipped
  split <;> omega

theorem flipped_flipped {x : Nat} (inside : x < w) :
    flipped flipHorizontal w (flipped flipHorizontal w x) = x := by
  unfold flipped
  split <;> omega

variable {src sx sy dx dy w h}

theorem copyImage_eq {width height : Nat} {pixels : Pixels}
    (readable : ∀ pixels x y, x < w → y < h →
      (src.readFrom ⟨width,height,pixels⟩).Inside (sx + x) (sy + y))
    (wide : dx + w ≤ width) (high : dy + h ≤ height) :
    copyImage src sx sy dx dy w h flipHorizontal ⟨width,height,pixels⟩ =
      some ⟨width,height,run (imageAssignments src sx sy dx dy w h flipHorizontal) pixels⟩ := by
  unfold copyImage imageAssignments
  apply foldlM_run
  intro y row pixels
  apply foldlM_run
  intro x column pixels
  rw [List.mem_range] at row column
  have there := flipped_lt w flipHorizontal column
  have writable : (⟨width,height,pixels⟩ : Bitmap).Inside (dx + flipped flipHorizontal w x)
      (dy + y) := by
    constructor
    · exact lt_of_lt_of_le (Nat.add_lt_add_left there dx) wide
    · exact lt_of_lt_of_le (Nat.add_lt_add_left row dy) high
  have read : ((src.readFrom ⟨width,height,pixels⟩).getPixel (sx + x) (sy + y)) =
      some (src.read pixels (sx + x,sy + y)) := by
    rw [Bitmap.getPixel_inside (readable pixels x y column row)]
    cases src <;> rfl
  rw [copyPixel,read,Option.bind_eq_bind,Option.bind_some]
  exact Bitmap.setPixel_inside writable _

variable (src sx sy dx dy w h)

theorem targets_eq :
    targets (imageAssignments src sx sy dx dy w h flipHorizontal) = (List.range h).flatMap fun y =>
      (List.range w).map fun x => (dx + flipped flipHorizontal w x,dy + y) := by
  simp only [targets,imageAssignments,List.map_flatMap,List.map_cons,List.map_nil,
    pixelAssignment]
  simp only [List.map_eq_flatMap]

variable {dx dy w h}

theorem mem_targets {p : Nat × Nat} :
    p ∈ targets (imageAssignments src sx sy dx dy w h flipHorizontal) ↔
      (dx ≤ p.1 ∧ p.1 < dx + w) ∧ dy ≤ p.2 ∧ p.2 < dy + h := by
  obtain ⟨column,row⟩ := p
  simp only [targets_eq,List.mem_flatMap,List.mem_map,List.mem_range,Prod.mk.injEq]
  constructor
  · rintro ⟨y,below,x,left,rfl,rfl⟩
    have there := flipped_lt w flipHorizontal left
    omega
  · rintro ⟨⟨left,right⟩,top,bottom⟩
    have within : column - dx < w := by omega
    refine ⟨row - dy,by omega,flipped flipHorizontal w (column - dx),
      flipped_lt w flipHorizontal within,?_,by omega⟩
    rw [flipped_flipped w flipHorizontal within]
    omega

theorem targets_nodup :
    (targets (imageAssignments src sx sy dx dy w h flipHorizontal)).Nodup := by
  rw [targets_eq,List.nodup_flatMap]
  constructor
  · intro y _
    refine List.Nodup.map_on ?_ List.nodup_range
    intro x left x' left' same
    rw [List.mem_range] at left left'
    have equal : flipped flipHorizontal w x = flipped flipHorizontal w x' :=
      Nat.add_left_cancel (Prod.mk.inj same).1
    rw [← flipped_flipped w flipHorizontal left,equal,flipped_flipped w flipHorizontal left']
  · refine List.nodup_range.imp ?_
    intro y y' different p one two
    obtain ⟨x,-,rfl⟩ := List.mem_map.mp one
    obtain ⟨x',-,same⟩ := List.mem_map.mp two
    exact different (Nat.add_left_cancel (Prod.mk.inj same).2).symm

theorem mem_imageAssignments {assignment : Assignment (Nat × Nat) Pixel} :
    assignment ∈ imageAssignments src sx sy dx dy w h flipHorizontal ↔
      ∃ x y, x < w ∧ y < h ∧
        assignment = pixelAssignment src sx sy dx dy w flipHorizontal y x := by
  simp only [imageAssignments,List.mem_flatMap,List.mem_range,List.mem_singleton]
  constructor
  · rintro ⟨y,below,x,left,rfl⟩
    exact ⟨x,y,left,below,rfl⟩
  · rintro ⟨x,y,left,below,rfl⟩
    exact ⟨y,below,x,left,rfl⟩

end Assignments

section Conversion
variable (k : Nat)

def copyAssignments (copy : Copy) : List (Assignment (Nat × Nat) Pixel) :=
  imageAssignments .itself (copy.sx * k) (copy.sy * k) (copy.dx * k) (copy.dy * k) (copy.w * k)
    (copy.h * k) copy.flipHorizontal

/-- A copy reads the upper half of the image and writes the lower quarter. -/
def Copy.Downwards (copy : Copy) : Prop :=
  copy.sx + copy.w ≤ 64 ∧ copy.sy + copy.h ≤ 32 ∧ copy.dx + copy.w ≤ 64 ∧
    32 ≤ copy.dy ∧ copy.dy + copy.h ≤ 64

def Copy.Apart (copy other : Copy) : Prop :=
  copy.dx + copy.w ≤ other.dx ∨ other.dx + other.w ≤ copy.dx ∨
    copy.dy + copy.h ≤ other.dy ∨ other.dy + other.h ≤ copy.dy

instance (copy : Copy) : Decidable copy.Downwards := inferInstanceAs (Decidable (_ ∧ _))

instance (copy other : Copy) : Decidable (copy.Apart other) :=
  inferInstanceAs (Decidable (_ ∨ _))

theorem oldSkinCopies_downwards : ∀ copy ∈ oldSkinCopies, copy.Downwards := by decide

theorem oldSkinCopies_apart : oldSkinCopies.Pairwise Copy.Apart := by decide

variable {k}

theorem copyImageRelative_eq {copy : Copy} (downwards : copy.Downwards) (pixels : Pixels) :
    copyImageRelative k ⟨64 * k,64 * k,pixels⟩ copy =
      some ⟨64 * k,64 * k,run (copyAssignments k copy) pixels⟩ := by
  obtain ⟨right,below,right',-,below'⟩ := downwards
  have scaled : ∀ {a b c : Nat}, a + b ≤ c → a * k + b * k ≤ c * k := by
    intro a b c fits
    rw [← Nat.add_mul]
    exact Nat.mul_le_mul_right k fits
  refine copyImage_eq _ ?_ (scaled right') (scaled below')
  intro pixels x y left low
  have upper : 32 * k ≤ 64 * k := Nat.mul_le_mul_right k (by decide)
  have wide := scaled right
  have high := scaled below
  constructor
  · show copy.sx * k + x < 64 * k
    omega
  · show copy.sy * k + y < 64 * k
    omega

theorem foldlM_copies {copies : List Copy} (downwards : ∀ copy ∈ copies, copy.Downwards)
    (pixels : Pixels) :
    copies.foldlM (copyImageRelative k) ⟨64 * k,64 * k,pixels⟩ =
      some ⟨64 * k,64 * k,run (copies.flatMap (copyAssignments k)) pixels⟩ :=
  foldlM_run (fun copy member pixels => copyImageRelative_eq (downwards copy member) pixels) pixels

theorem Copy.Apart.disjoint {copy other : Copy} (apart : copy.Apart other) :
    List.Disjoint (targets (copyAssignments k copy)) (targets (copyAssignments k other)) := by
  intro p one two
  obtain ⟨⟨left,right⟩,top,bottom⟩ := (mem_targets _ _ _ _).mp one
  obtain ⟨⟨left',right'⟩,top',bottom'⟩ := (mem_targets _ _ _ _).mp two
  have before : ∀ {a b c v : Nat}, a + b ≤ c → v < a * k + b * k → ¬c * k ≤ v := by
    intro a b c v fits inside
    rw [← Nat.add_mul] at inside
    exact Nat.not_le_of_lt (lt_of_lt_of_le inside (Nat.mul_le_mul_right k fits))
  rcases apart with fits | fits | fits | fits
  · exact before fits right left'
  · exact before fits right' left
  · exact before fits bottom top'
  · exact before fits bottom' top

theorem independent_copies {copies : List Copy} (downwards : ∀ copy ∈ copies, copy.Downwards)
    (apart : copies.Pairwise Copy.Apart) :
    Independent (copies.flatMap (copyAssignments k)) := by
  have places : targets (copies.flatMap (copyAssignments k)) =
      copies.flatMap fun copy => targets (copyAssignments k copy) := List.map_flatMap
  constructor
  · rw [places,List.nodup_flatMap]
    exact ⟨fun copy _ => targets_nodup _ _ _ _,apart.imp Copy.Apart.disjoint⟩
  · intro assignment member store store' agree
    obtain ⟨copy,listed,made⟩ := List.mem_flatMap.mp member
    obtain ⟨x,y,left,low,rfl⟩ := (mem_imageAssignments _ _ _ _).mp made
    apply agree
    intro written
    rw [places] at written
    obtain ⟨other,listed',inside⟩ := List.mem_flatMap.mp written
    obtain ⟨-,top,-⟩ := (mem_targets _ _ _ _).mp inside
    obtain ⟨-,upper,-⟩ := downwards copy listed
    obtain ⟨-,-,-,lower,-⟩ := downwards other listed'
    have reads : copy.sy * k + copy.h * k ≤ 32 * k := by
      rw [← Nat.add_mul]
      exact Nat.mul_le_mul_right k upper
    have writes : 32 * k ≤ other.dy * k := Nat.mul_le_mul_right k lower
    have place : other.dy * k ≤ copy.sy * k + y := top
    omega

/-- In any order the copies give the same image. -/
theorem foldlM_perm {copies : List Copy} (same : copies.Perm oldSkinCopies) (pixels : Pixels) :
    copies.foldlM (copyImageRelative k) ⟨64 * k,64 * k,pixels⟩ =
      convertOldSkin k ⟨64 * k,64 * k,pixels⟩ := by
  have independent := independent_copies (k := k) oldSkinCopies_downwards oldSkinCopies_apart
  have order : (oldSkinCopies.flatMap (copyAssignments k)).Perm
      (copies.flatMap (copyAssignments k)) := same.symm.flatMap_right _
  rw [convertOldSkin,foldlM_copies oldSkinCopies_downwards,
    foldlM_copies fun copy member => oldSkinCopies_downwards copy (same.mem_iff.mp member),
    run_perm independent order]

end Conversion

/-- The original in its place, and for the old format each face of the right limbs mirrored to the
face of the left limb, where nothing else is drawn. -/
structure Normalizes (k : Nat) (texture normalized : Bitmap) : Prop where
  width : normalized.width = 64 * k
  height : normalized.height = 64 * k
  kept : ∀ x y, texture.Inside x y → normalized.getPixel x y = texture.getPixel x y
  mirrored : texture.height = 32 * k → ∀ limb face x y, x < face.width * k → y < face.height * k →
    normalized.getPixel ((leftArea limb face).x * k + (face.width * k - 1 - x))
        ((leftArea limb face).y * k + y) =
      texture.getPixel ((rightArea limb face).x * k + x) ((rightArea limb face).y * k + y)
  blank : texture.height = 32 * k → ∀ x y, x < 64 * k → 32 * k ≤ y → y < 64 * k →
    (∀ limb face, ¬(leftArea limb face).Covers k x y) → normalized.getPixel x y = some 0

section Normalization
variable {texture : Bitmap} {k : Nat}

/-- The first copy puts the whole original into the new image. -/
theorem copied_eq {w h : Nat} (wide : texture.width = w) (high : texture.height = h)
    (fits : h ≤ w) :
    copyImage (.bitmap texture) 0 0 0 0 w h false (Bitmap.create w w) =
      some ⟨w,w,run (imageAssignments (.bitmap texture) 0 0 0 0 w h false) fun _ => 0⟩ := by
  apply copyImage_eq
  · intro pixels x y left low
    simp only [Source.readFrom,Bitmap.Inside,Nat.zero_add,wide,high]
    exact ⟨left,low⟩
  · omega
  · omega

theorem copied_pixels {w h : Nat} (p : Nat × Nat) :
    run (imageAssignments (.bitmap texture) 0 0 0 0 w h false) (fun _ => 0) p =
      if p.1 < w ∧ p.2 < h then texture.pixels p else 0 := by
  have independent : Independent (imageAssignments (.bitmap texture) 0 0 0 0 w h false) := by
    refine ⟨targets_nodup _ _ _ _,?_⟩
    intro assignment member store store' _
    obtain ⟨x,y,-,-,rfl⟩ := (mem_imageAssignments _ _ _ _).mp member
    rfl
  split
  · rename_i inside
    have listed : pixelAssignment (.bitmap texture) 0 0 0 0 w false p.2 p.1 ∈
        imageAssignments (.bitmap texture) 0 0 0 0 w h false :=
      (mem_imageAssignments _ _ _ _).mpr ⟨p.1,p.2,inside.1,inside.2,rfl⟩
    have written := run_target (fun _ => 0) independent listed
    simpa [pixelAssignment,flipped,Source.read] using written
  · rename_i outside
    apply run_other
    rw [mem_targets]
    omega

/-- A skin is mirrored pixel by pixel; what no copy writes stays. -/
theorem converted_pixels (pixels : Pixels) :
    ∃ converted, convertOldSkin k ⟨64 * k,64 * k,pixels⟩ = some ⟨64 * k,64 * k,converted⟩ ∧
      (∀ limb face x y, x < face.width * k → y < face.height * k →
        converted ((leftArea limb face).x * k + (face.width * k - 1 - x),
            (leftArea limb face).y * k + y) =
          pixels ((rightArea limb face).x * k + x,(rightArea limb face).y * k + y)) ∧
      ∀ p, (∀ limb face, ¬(leftArea limb face).Covers k p.1 p.2) → converted p = pixels p := by
  have independent := independent_copies (k := k) oldSkinCopies_downwards oldSkinCopies_apart
  refine ⟨_,foldlM_copies oldSkinCopies_downwards pixels,?_,?_⟩
  · intro limb face x y left low
    have listed : pixelAssignment .itself ((rightArea limb face).x * k)
        ((rightArea limb face).y * k) ((leftArea limb face).x * k) ((leftArea limb face).y * k)
        (face.width * k) true y x ∈ oldSkinCopies.flatMap (copyAssignments k) := by
      refine List.mem_flatMap.mpr ⟨Copy.mirror limb face,?_,?_⟩
      · exact (mem_oldSkinCopies _).mpr ⟨limb,face,rfl⟩
      · exact (mem_imageAssignments _ _ _ _).mpr ⟨x,y,left,low,rfl⟩
    have written := run_target pixels independent listed
    have place : face.width * k - 1 - x = flipped true (face.width * k) x := by
      simp only [flipped,if_true]
      omega
    rw [place]
    exact written
  · intro p free
    apply run_other
    intro written
    rw [targets,List.map_flatMap] at written
    obtain ⟨copy,listed,inside⟩ := List.mem_flatMap.mp written
    obtain ⟨limb,face,rfl⟩ := (mem_oldSkinCopies copy).mp listed
    obtain ⟨⟨left,right⟩,top,bottom⟩ := (mem_targets _ _ _ _).mp inside
    rw [← Nat.add_mul] at right bottom
    exact free limb face ⟨left,right,top,bottom⟩

theorem leftArea_below (limb : Limb) (face : Face) : 48 ≤ (leftArea limb face).y := by
  cases limb <;> cases face <;> decide

theorem rightArea_inside (limb : Limb) (face : Face) :
    (rightArea limb face).x + face.width ≤ 64 ∧ (rightArea limb face).y + face.height ≤ 32 := by
  cases limb <;> cases face <;> decide

theorem leftArea_inside (limb : Limb) (face : Face) :
    (leftArea limb face).x + face.width ≤ 64 ∧ (leftArea limb face).y + face.height ≤ 64 := by
  cases limb <;> cases face <;> decide

/-- An area that fits into the layout fits into the image at each scale. -/
theorem inside_scaled {bitmap : Bitmap} {ax ay w h x y : Nat} {columns rows : Nat}
    (wide : bitmap.width = columns * k) (high : bitmap.height = rows * k) (fits : ax + w ≤ columns)
    (fits' : ay + h ≤ rows) (left : x < w * k) (low : y < h * k) :
    bitmap.Inside (ax * k + x) (ay * k + y) := by
  have scaled := Nat.mul_le_mul_right k fits
  have scaled' := Nat.mul_le_mul_right k fits'
  rw [Nat.add_mul] at scaled scaled'
  constructor
  · rw [wide]
    omega
  · rw [high]
    omega

/-- Nothing is mirrored into the upper half. -/
theorem not_covers_upper {x y : Nat} (upper : y < 32 * k) (limb : Limb) (face : Face) :
    ¬(leftArea limb face).Covers k x y := by
  intro covers
  have lower := Nat.mul_le_mul_right k (leftArea_below limb face)
  have top := covers.2.2.1
  omega

/-- The size decides the format, and no access is outside of an image. -/
theorem make_square (wide : texture.width = 64 * k)
    (high : texture.height = 64 * k) :
    ∃ pixels, NormalizedSkin.make texture = .ok ⟨texture,⟨64 * k,64 * k,pixels⟩,k,false⟩ ∧
      ∀ p : Nat × Nat, pixels p = if p.1 < 64 * k ∧ p.2 < 64 * k then texture.pixels p else 0 := by
  refine ⟨_,?_,copied_pixels⟩
  have copied := copied_eq wide high (le_refl (64 * k))
  have whole : 64 * k / 64 = k := Nat.mul_div_cancel_left k (by decide)
  simp only [NormalizedSkin.make,wide,high,copied,whole]
  simp [checked,pure,Except.pure,bind,Except.bind]

theorem make_old (positive : 0 < k) (wide : texture.width = 64 * k)
    (high : texture.height = 32 * k) :
    ∃ pixels converted : Pixels,
      NormalizedSkin.make texture = .ok ⟨texture,⟨64 * k,64 * k,converted⟩,k,true⟩ ∧
      convertOldSkin k ⟨64 * k,64 * k,pixels⟩ = some ⟨64 * k,64 * k,converted⟩ ∧
      ∀ p : Nat × Nat, pixels p = if p.1 < 64 * k ∧ p.2 < 32 * k then texture.pixels p else 0 := by
  set pixels : Pixels :=
    run (imageAssignments (.bitmap texture) 0 0 0 0 (64 * k) (32 * k) false) fun _ => 0 with drawn
  obtain ⟨converted,turned,-⟩ := converted_pixels (k := k) pixels
  refine ⟨pixels,converted,?_,turned,copied_pixels⟩
  have copied := copied_eq wide high (by omega)
  have whole : 64 * k / 64 = k := Nat.mul_div_cancel_left k (by decide)
  have oblong : 64 * k ≠ 32 * k := by omega
  have twice : 64 * k = 32 * k * 2 := by omega
  simp only [NormalizedSkin.make,wide,high,copied,whole,← drawn]
  simp [checked,pure,Except.pure,bind,Except.bind,oblong,← twice,turned]

theorem normalizes_square (high : texture.height = 64 * k) (positive : 0 < k)
    (wide : texture.width = 64 * k) {pixels : Pixels}
    (copied : ∀ p : Nat × Nat,
      pixels p = if p.1 < 64 * k ∧ p.2 < 64 * k then texture.pixels p else 0) :
    Normalizes k texture ⟨64 * k,64 * k,pixels⟩ := by
  refine ⟨rfl,rfl,?_,?_,?_⟩
  · intro x y inside
    have left : x < 64 * k := wide ▸ inside.1
    have upper : y < 64 * k := high ▸ inside.2
    have within : (⟨64 * k,64 * k,pixels⟩ : Bitmap).Inside x y := ⟨left,upper⟩
    rw [Bitmap.getPixel_inside inside,Bitmap.getPixel_inside within]
    dsimp only
    rw [copied,if_pos ⟨left,upper⟩]
  · intro old
    omega
  · intro old
    omega

theorem normalizes_old (wide : texture.width = 64 * k) (high : texture.height = 32 * k)
    {pixels converted : Pixels}
    (turned : convertOldSkin k ⟨64 * k,64 * k,pixels⟩ = some ⟨64 * k,64 * k,converted⟩)
    (copied : ∀ p : Nat × Nat,
      pixels p = if p.1 < 64 * k ∧ p.2 < 32 * k then texture.pixels p else 0) :
    Normalizes k texture ⟨64 * k,64 * k,converted⟩ := by
  obtain ⟨other,same,mirrored,rest⟩ := converted_pixels (k := k) pixels
  obtain rfl : converted = other := by
    rw [turned] at same
    exact congrArg Bitmap.pixels (Option.some.inj same)
  refine ⟨rfl,rfl,?_,?_,?_⟩
  · intro x y inside
    have left : x < 64 * k := wide ▸ inside.1
    have upper : y < 32 * k := high ▸ inside.2
    have within : (⟨64 * k,64 * k,converted⟩ : Bitmap).Inside x y := ⟨left,by
      show y < 64 * k
      omega⟩
    rw [Bitmap.getPixel_inside inside,Bitmap.getPixel_inside within]
    dsimp only
    rw [rest (x,y) (not_covers_upper upper),copied,if_pos ⟨left,upper⟩]
  · intro _ limb face x y column row
    obtain ⟨right,below⟩ := rightArea_inside limb face
    obtain ⟨right',below'⟩ := leftArea_inside limb face
    have source := inside_scaled wide high right below column row
    have flips : face.width * k - 1 - x < face.width * k := by omega
    have target := @inside_scaled k ⟨64 * k,64 * k,converted⟩ _ _ _ _ _ _ _ _ rfl rfl right' below'
      flips row
    rw [Bitmap.getPixel_inside source,Bitmap.getPixel_inside target]
    dsimp only
    rw [mirrored limb face x y column row,copied,if_pos ⟨wide ▸ source.1,high ▸ source.2⟩]
  · intro _ x y left lower below free
    rw [Bitmap.getPixel_inside ⟨left,below⟩]
    dsimp only
    rw [rest (x,y) free,copied,if_neg]
    show ¬(x < 64 * k ∧ y < 32 * k)
    omega

theorem anyM_isSome {ι : Type} {test : ι → Option Bool} {items : List ι}
    (total : ∀ item ∈ items, ∃ answer, test item = some answer) :
    ∃ answer, items.anyM test = some answer := by
  induction items with
  | nil => exact ⟨false,rfl⟩
  | cons item items ih =>
    obtain ⟨answer,first⟩ := total item List.mem_cons_self
    obtain ⟨rest,later⟩ := ih fun other member => total other (List.mem_cons_of_mem item member)
    rw [List.anyM,first]
    cases answer with
    | true => exact ⟨true,rfl⟩
    | false => exact ⟨rest,later⟩

variable {skin : NormalizedSkin}

theorem anyPixel_isSome (scale : skin.scale = k) (width : skin.normalizedTexture.width = 64 * k)
    (height : skin.normalizedTexture.height = 64 * k) (test : Pixel → Bool) {x0 y0 w h : Nat}
    (right : x0 + w ≤ 64) (below : y0 + h ≤ 64) :
    ∃ answer, skin.anyPixel test x0 y0 w h = some answer := by
  apply anyM_isSome
  intro y row
  apply anyM_isSome
  intro x column
  rw [List.mem_range,scale] at row column
  have wide := Nat.mul_le_mul_right k right
  have high := Nat.mul_le_mul_right k below
  rw [Nat.add_mul] at wide high
  have inside : skin.normalizedTexture.Inside (x0 * skin.scale + x) (y0 * skin.scale + y) := by
    constructor
    · rw [scale,width]
      omega
    · rw [scale,height]
      omega
  rw [Bitmap.getPixel_inside inside]
  exact ⟨_,rfl⟩

theorem isSlim_isSome (scale : skin.scale = k) (width : skin.normalizedTexture.width = 64 * k)
    (height : skin.normalizedTexture.height = 64 * k) : ∃ answer, skin.isSlim = some answer := by
  have transparency : ∀ {x0 y0 w h : Nat}, x0 + w ≤ 64 → y0 + h ≤ 64 →
      ∃ answer, skin.hasTransparencyRelative x0 y0 w h = some answer :=
    fun right below => anyPixel_isSome scale width height _ right below
  have black : ∀ {x0 y0 w h : Nat}, x0 + w ≤ 64 → y0 + h ≤ 64 →
      ∃ answer, skin.isAreaBlackRelative x0 y0 w h = some answer := by
    intro x0 y0 w h right below
    obtain ⟨answer,seen⟩ := anyPixel_isSome scale width height
      (fun pixel => pixel ≠ 0xff000000#32) right below
    exact ⟨!answer,by rw [NormalizedSkin.isAreaBlackRelative,seen]; rfl⟩
  obtain ⟨a,one⟩ := transparency (show 50 + 2 ≤ 64 by decide) (show 16 + 4 ≤ 64 by decide)
  obtain ⟨b,two⟩ := transparency (show 54 + 2 ≤ 64 by decide) (show 20 + 12 ≤ 64 by decide)
  obtain ⟨c,three⟩ := transparency (show 42 + 2 ≤ 64 by decide) (show 48 + 4 ≤ 64 by decide)
  obtain ⟨d,four⟩ := transparency (show 46 + 2 ≤ 64 by decide) (show 52 + 12 ≤ 64 by decide)
  obtain ⟨a',one'⟩ := black (show 50 + 2 ≤ 64 by decide) (show 16 + 4 ≤ 64 by decide)
  obtain ⟨b',two'⟩ := black (show 54 + 2 ≤ 64 by decide) (show 20 + 12 ≤ 64 by decide)
  obtain ⟨c',three'⟩ := black (show 42 + 2 ≤ 64 by decide) (show 48 + 4 ≤ 64 by decide)
  obtain ⟨d',four'⟩ := black (show 46 + 2 ≤ 64 by decide) (show 52 + 12 ≤ 64 by decide)
  simp only [NormalizedSkin.isSlim,one,two,three,four,one',two',three',four',Option.bind_eq_bind,
    Option.bind_some,Option.pure_def]
  cases a <;> cases b <;> cases c <;> cases d <;> cases a' <;> cases b' <;> cases c' <;> simp

/-- A skin of a known size is accepted at every scale, loses no pixel and has all limbs; the order
of the copies does not matter. -/
theorem make_spec {texture : Bitmap} {k : Nat} (positive : 0 < k)
    (wide : texture.width = 64 * k)
    (high : texture.height = 64 * k ∨ texture.height = 32 * k) :
    ∃ skin, NormalizedSkin.make texture = .ok skin ∧ skin.texture = texture ∧ skin.scale = k ∧
      Normalizes k texture skin.normalizedTexture ∧ (∃ answer, skin.isSlim = some answer) ∧
      ∀ copies : List Copy, copies.Perm oldSkinCopies → ∀ pixels,
        copies.foldlM (copyImageRelative k) ⟨64 * k,64 * k,pixels⟩ =
          convertOldSkin k ⟨64 * k,64 * k,pixels⟩ := by
  rcases high with square | old
  · obtain ⟨pixels,made,copied⟩ := make_square wide square
    exact ⟨_,made,rfl,rfl,normalizes_square square positive wide copied,
      isSlim_isSome rfl rfl rfl,fun copies same pixels => foldlM_perm same pixels⟩
  · obtain ⟨pixels,converted,made,turned,copied⟩ := make_old positive wide old
    exact ⟨_,made,rfl,rfl,normalizes_old wide old turned copied,
      isSlim_isSome rfl rfl rfl,fun copies same pixels => foldlM_perm same pixels⟩

end Normalization

/-- Opaque, each pixel with its number as its colour. -/
def numberedSkin : Bitmap :=
  ⟨64,32,fun p => 0xff000000 + BitVec.ofNat 32 (64 * p.2 + p.1)⟩

theorem make_numberedSkin :
    ∃ skin, NormalizedSkin.make numberedSkin = .ok skin ∧ skin.texture = numberedSkin ∧
      skin.scale = 1 ∧ Normalizes 1 numberedSkin skin.normalizedTexture ∧
      (∃ answer, skin.isSlim = some answer) ∧
      ∀ copies : List Copy, copies.Perm oldSkinCopies → ∀ pixels,
        copies.foldlM (copyImageRelative 1) ⟨64 * 1,64 * 1,pixels⟩ =
          convertOldSkin 1 ⟨64 * 1,64 * 1,pixels⟩ :=
  make_spec Nat.one_pos rfl (.inr rfl)

end HmclPe.Skin
