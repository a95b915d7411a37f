import Mathlib.Algebra.Group.Nat.Defs
import Mathlib.Algebra.Group.Int.Defs
import Mathlib.Data.Set.Basic

/-!
# Clipping of rectangles (`drm_rect.c`, `drm_rect.h`, `drm_linux.h`)

`drm_rect_clip_scaled` cuts `dst` to `clip` and moves the edges of `src` by the same amounts, scaled.
Differences of `int`s wrap around.
-/

namespace Drm

/-- `struct drm_rect` -/
structure DrmRect where
  x1 : Int32
  y1 : Int32
  x2 : Int32
  y2 : Int32
  deriving DecidableEq, Repr

/-- `INT_MAX` -/
def intMax : Int32 := 2147483647

/-- `INT_MIN` -/
def intMin : Int32 := -2147483648

/-- `drm_rect_width` -/
def drmRectWidth (r : DrmRect) : Int32 := r.x2 - r.x1

/-- `drm_rect_height` -/
def drmRectHeight (r : DrmRect) : Int32 := r.y2 - r.y1

/-- `drm_rect_visible` -/
def drmRectVisible (r : DrmRect) : Bool := 0 < drmRectWidth r ∧ 0 < drmRectHeight r

/-- `max` of `drm_linux.h` -/
def cMax (a b : Int32) : Int32 := if b < a then a else b

/-- `min` of `drm_linux.h` -/
def cMin (a b : Int32) : Int32 := if a < b then a else b

/-- `drm_rect_intersect`: what it returns and `r1`. -/
def drmRectIntersect (r1 r2 : DrmRect) : Bool × DrmRect :=
  let r1 : DrmRect :=
    { x1 := cMax r1.x1 r2.x1
      y1 := cMax r1.y1 r2.y1
      x2 := cMin r1.x2 r2.x2
      y2 := cMin r1.y2 r2.y2 }
  (drmRectVisible r1, r1)

/-- `clamp_int64_t`, which is two statements: what the first one, `val = min(..)`, gives to an
assignment in front of the macro, and `val` after both. -/
def clampInt64T (val : Int64) : Int64 × Int64 :=
  let low := if intMax.toInt64 < val then intMax.toInt64 else val
  (low, if low < intMin.toInt64 then intMin.toInt64 else low)

/-- `src->x1 = clamp_int64_t(tmp);` -/
def storeClamped (tmp : Int64) : Int32 := (clampInt64T tmp).1.toInt32

/-- One of the first two blocks of `drm_rect_clip_scaled`. -/
def clipFirst (edge diff scale : Int32) : Int32 :=
  if 0 < diff then storeClamped (edge.toInt64 + diff.toInt64 * scale.toInt64) else edge

/-- One of the other two. -/
def clipSecond (edge diff scale : Int32) : Int32 :=
  if 0 < diff then storeClamped (edge.toInt64 - diff.toInt64 * scale.toInt64) else edge

/-- `drm_rect_clip_scaled`: what it returns, `src` and `dst`. -/
def drmRectClipScaled (src dst clip : DrmRect) (hscale vscale : Int32) : Bool × DrmRect × DrmRect :=
  let src : DrmRect :=
    { x1 := clipFirst src.x1 (clip.x1 - dst.x1) hscale
      y1 := clipFirst src.y1 (clip.y1 - dst.y1) vscale
      x2 := clipSecond src.x2 (dst.x2 - clip.x2) hscale
      y2 := clipSecond src.y2 (dst.y2 - clip.y2) vscale }
  let (visible, dst) := drmRectIntersect dst clip
  (visible, src, dst)

/-! ## What clipping is -/

/-- The pixels of a rectangle. -/
def DrmRect.pixels (r : DrmRect) : Set (Int × Int) :=
  { p | (r.x1.toInt ≤ p.1 ∧ p.1 < r.x2.toInt) ∧ r.y1.toInt ≤ p.2 ∧ p.2 < r.y2.toInt }

/-- Saturated to the range of an `int`. -/
def saturate (z : Int) : Int := max intMin.toInt (min intMax.toInt z)

/-- By how much a side that is at `out` is cut when it has to be at `limit` or more. -/
def clipped (limit out : Int32) : Int := max 0 (limit.toInt - out.toInt)

/-- `src'` is `src` with the edges moved by the amounts that `dst` is clipped by, scaled. -/
structure DrmRect.Moved (src dst clip : DrmRect) (hscale vscale : Int32) (src' : DrmRect) : Prop
    where
  x1 : src'.x1.toInt = saturate (src.x1.toInt + clipped clip.x1 dst.x1 * hscale.toInt)
  y1 : src'.y1.toInt = saturate (src.y1.toInt + clipped clip.y1 dst.y1 * vscale.toInt)
  x2 : src'.x2.toInt = saturate (src.x2.toInt - clipped dst.x2 clip.x2 * hscale.toInt)
  y2 : src'.y2.toInt = saturate (src.y2.toInt - clipped dst.y2 clip.y2 * vscale.toInt)

/-- `dst'` is the intersection of `dst` and `clip`. -/
structure DrmRect.Cut (dst clip dst' : DrmRect) : Prop where
  x1 : dst'.x1.toInt = max dst.x1.toInt clip.x1.toInt
  y1 : dst'.y1.toInt = max dst.y1.toInt clip.y1.toInt
  x2 : dst'.x2.toInt = min dst.x2.toInt clip.x2.toInt
  y2 : dst'.y2.toInt = min dst.y2.toInt clip.y2.toInt
  pixels : dst'.pixels = dst.pixels ∩ clip.pixels

/-- What `drm_rect_clip_scaled` is for. -/
structure ClipDone (src dst clip : DrmRect) (hscale vscale : Int32)
    (res : Bool × DrmRect × DrmRect) : Prop where
  visible : res.1 = true ↔ (dst.pixels ∩ clip.pixels).Nonempty
  src : src.Moved dst clip hscale vscale res.2.1
  dst : dst.Cut clip res.2.2

/-- The difference of two `int`s is an `int`. -/
def DiffFits (a b : Int32) : Prop :=
  intMin.toInt ≤ a.toInt - b.toInt ∧ a.toInt - b.toInt ≤ intMax.toInt

/-- The differences that `drm_rect_clip_scaled` computes are `int`s. -/
structure DiffsFit (dst clip : DrmRect) : Prop where
  x1 : DiffFits clip.x1 dst.x1
  y1 : DiffFits clip.y1 dst.y1
  x2 : DiffFits dst.x2 clip.x2
  y2 : DiffFits dst.y2 clip.y2

/-- The sum is not below the range of an `int`, or is `INT_MIN` in 32 bits. -/
def NotBelow (z : Int) : Prop := intMin.toInt ≤ z ∨ (2 ^ 32 : Int) ∣ z - intMin.toInt

/-- No edge of `src` has to be moved below the range of an `int`. -/
structure EdgesNotBelow (src dst clip : DrmRect) (hscale vscale : Int32) : Prop where
  x1 : NotBelow (src.x1.toInt + clipped clip.x1 dst.x1 * hscale.toInt)
  y1 : NotBelow (src.y1.toInt + clipped clip.y1 dst.y1 * vscale.toInt)
  x2 : NotBelow (src.x2.toInt - clipped dst.x2 clip.x2 * hscale.toInt)
  y2 : NotBelow (src.y2.toInt - clipped dst.y2 clip.y2 * vscale.toInt)

/-- The distance from one side of the intersection to the other. -/
def cutWidth (dst clip : DrmRect) : Int :=
  min dst.x2.toInt clip.x2.toInt - max dst.x1.toInt clip.x1.toInt

def cutHeight (dst clip : DrmRect) : Int :=
  min dst.y2.toInt clip.y2.toInt - max dst.y1.toInt clip.y1.toInt

/-- A distance that is greater than 0 in 32 bits. -/
def PositiveInInt (d : Int) : Prop := (0 < d ∧ d ≤ intMax.toInt) ∨ d < intMin.toInt

/-- Width and height of the intersection are greater than 0 exactly when they are in 32 bits; this is
so whenever both are `int`s. -/
def SizeFits (dst clip : DrmRect) : Prop :=
  (0 < cutWidth dst clip ∧ 0 < cutHeight dst clip) ↔
    PositiveInInt (cutWidth dst clip) ∧ PositiveInInt (cutHeight dst clip)

end Drm
