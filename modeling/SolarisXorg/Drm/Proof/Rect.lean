import Mathlib.Algebra.Group.Int.Defs
import SolarisXorg.Drm.Rect

/-!
# Clipping of rectangles

The 64 bits of a moved edge are exact (`scaled_toInt`), and the part of `clamp_int64_t` that is stored
saturates at `INT_MAX` only (`storeClamped_iff`). `dst` is always cut as it should be
(`intersect_cut`), and whether it is visible is right when its size is (`visible_iff`). Together
these say when `drm_rect_clip_scaled` does what it is for (`clip_scaled_iff`).
-/

namespace Drm

variable {src dst clip : DrmRect} {hscale vscale a b edge diff scale : Int32}

theorem intMax_toInt : intMax.toInt = 2 ^ 31 - 1 := rfl

theorem intMin_toInt : intMin.toInt = -2 ^ 31 := rfl

/-! ## `int` arithmetic -/

theorem cMax_toInt : (cMax a b).toInt = max a.toInt b.toInt := by
  unfold cMax
  split
  case isTrue h =>
    have := Int32.lt_iff_toInt_lt.1 h
    omega
  case isFalse h =>
    have := mt Int32.lt_iff_toInt_lt.2 h
    omega

theorem cMin_toInt : (cMin a b).toInt = min a.toInt b.toInt := by
  unfold cMin
  split
  case isTrue h =>
    have := Int32.lt_iff_toInt_lt.1 h
    omega
  case isFalse h =>
    have := mt Int32.lt_iff_toInt_lt.2 h
    omega

theorem sub_toInt (h : DiffFits a b) : (a - b).toInt = a.toInt - b.toInt := by
  obtain ⟨hlow, hhigh⟩ := h
  rw [intMin_toInt] at hlow
  rw [intMax_toInt] at hhigh
  rw [Int32.toInt_sub]
  exact Int.bmod_eq_of_le (by omega) (by omega)

/-- A difference of two `int`s as an `int` is positive. -/
theorem sub_pos_iff : 0 < a - b ↔ PositiveInInt (a.toInt - b.toInt) := by
  have ha := a.toInt_lt
  have ha' := a.le_toInt
  have hb := b.toInt_lt
  have hb' := b.le_toInt
  rw [Int32.lt_iff_toInt_lt, Int32.toInt_sub, Int32.toInt_zero, PositiveInInt, intMax_toInt,
    intMin_toInt]
  rw [Int.bmod_def]
  omega

/-! ## Edges of `src` -/

/-- A moved edge does not overflow 64 bits. -/
theorem product_bounds (hd : 0 < diff) :
    -(2 ^ 62 : Int) ≤ diff.toInt * scale.toInt ∧ diff.toInt * scale.toInt ≤ 2 ^ 62 := by
  have hd0 : 0 < diff.toInt := Int32.lt_iff_toInt_lt.1 hd
  have hd1 := diff.toInt_lt
  have hs0 := scale.le_toInt
  have hs1 := scale.toInt_lt
  have hhigh : diff.toInt * scale.toInt ≤ diff.toInt * 2 ^ 31 :=
    Int.mul_le_mul_of_nonneg_left (by omega) (by omega)
  have hlow : diff.toInt * -2 ^ 31 ≤ diff.toInt * scale.toInt :=
    Int.mul_le_mul_of_nonneg_left hs0 (by omega)
  omega

theorem scaled_toInt (hd : 0 < diff) :
    (edge.toInt64 + diff.toInt64 * scale.toInt64).toInt =
        edge.toInt + diff.toInt * scale.toInt ∧
      (edge.toInt64 - diff.toInt64 * scale.toInt64).toInt =
        edge.toInt - diff.toInt * scale.toInt := by
  obtain ⟨hlow, hhigh⟩ := @product_bounds diff scale hd
  have he0 := edge.le_toInt
  have he1 := edge.toInt_lt
  have hmul : (diff.toInt64 * scale.toInt64).toInt = diff.toInt * scale.toInt := by
    rw [Int64.toInt_mul, Int32.toInt_toInt64, Int32.toInt_toInt64]
    exact Int.bmod_eq_of_le (by omega) (by omega)
  rw [Int64.toInt_add, Int64.toInt_sub, hmul, Int32.toInt_toInt64]
  constructor
  · exact Int.bmod_eq_of_le (by omega) (by omega)
  · exact Int.bmod_eq_of_le (by omega) (by omega)

/-- **What is stored is saturated** unless the lower end of the range matters. -/
theorem storeClamped_iff {tmp : Int64} :
    (storeClamped tmp).toInt = saturate tmp.toInt ↔ NotBelow tmp.toInt := by
  have hmax : intMax.toInt64.toInt = 2 ^ 31 - 1 := rfl
  have hlow : (clampInt64T tmp).1.toInt = min (2 ^ 31 - 1) tmp.toInt := by
    unfold clampInt64T
    dsimp only
    split
    case isTrue h =>
      have := Int64.lt_iff_toInt_lt.1 h
      omega
    case isFalse h =>
      have := mt Int64.lt_iff_toInt_lt.2 h
      omega
  rw [storeClamped, Int64.toInt_toInt32, hlow, saturate, NotBelow, intMax_toInt, intMin_toInt]
  rw [Int.bmod_def]
  omega

theorem saturate_toInt : saturate edge.toInt = edge.toInt := by
  have h0 := edge.le_toInt
  have h1 := edge.toInt_lt
  rw [saturate, intMin_toInt, intMax_toInt]
  omega

theorem notBelow_toInt : NotBelow edge.toInt := .inl edge.le_toInt

/-- A side that is not clipped leaves its edge, and what is clipped of one is `diff`. -/
theorem clipped_eq (h : DiffFits a b) : clipped a b = if 0 < a - b then (a - b).toInt else 0 := by
  have hpos : 0 < a - b ↔ 0 < (a - b).toInt := by
    rw [Int32.lt_iff_toInt_lt, Int32.toInt_zero]
  rw [clipped, ← sub_toInt h]
  simp only [hpos]
  split <;> omega

theorem clipFirst_iff (h : DiffFits a b) :
    (clipFirst edge (a - b) scale).toInt = saturate (edge.toInt + clipped a b * scale.toInt) ↔
      NotBelow (edge.toInt + clipped a b * scale.toInt) := by
  rw [clipFirst, clipped_eq h]
  split
  case isTrue hd =>
    rw [← (scaled_toInt hd).1]
    exact storeClamped_iff
  case isFalse =>
    rw [Int.zero_mul, Int.add_zero, saturate_toInt]
    exact iff_of_true rfl notBelow_toInt

theorem clipSecond_iff (h : DiffFits a b) :
    (clipSecond edge (a - b) scale).toInt = saturate (edge.toInt - clipped a b * scale.toInt) ↔
      NotBelow (edge.toInt - clipped a b * scale.toInt) := by
  rw [clipSecond, clipped_eq h]
  split
  case isTrue hd =>
    rw [← (scaled_toInt hd).2]
    exact storeClamped_iff
  case isFalse =>
    rw [Int.zero_mul, Int.sub_zero, saturate_toInt]
    exact iff_of_true rfl notBelow_toInt

theorem moved_iff (h : DiffsFit dst clip) :
    src.Moved dst clip hscale vscale (drmRectClipScaled src dst clip hscale vscale).2.1 ↔
      EdgesNotBelow src dst clip hscale vscale := by
  constructor
  · intro hm
    exact ⟨(clipFirst_iff h.x1).1 hm.x1, (clipFirst_iff h.y1).1 hm.y1,
      (clipSecond_iff h.x2).1 hm.x2, (clipSecond_iff h.y2).1 hm.y2⟩
  · intro he
    exact ⟨(clipFirst_iff h.x1).2 he.x1, (clipFirst_iff h.y1).2 he.y1,
      (clipSecond_iff h.x2).2 he.x2, (clipSecond_iff h.y2).2 he.y2⟩

/-! ## `dst` -/

theorem intersect_cut : dst.Cut clip (drmRectIntersect dst clip).2 where
  x1 := cMax_toInt
  y1 := cMax_toInt
  x2 := cMin_toInt
  y2 := cMin_toInt
  pixels := by
    ext ⟨x, y⟩
    simp only [drmRectIntersect, DrmRect.pixels, Set.mem_ofPred_eq, Set.mem_inter_iff, cMax_toInt,
      cMin_toInt]
    omega

/-- There is a pixel exactly when both distances are positive. -/
theorem pixels_nonempty_iff :
    (dst.pixels ∩ clip.pixels).Nonempty ↔ 0 < cutWidth dst clip ∧ 0 < cutHeight dst clip := by
  simp only [Set.Nonempty, DrmRect.pixels, Set.mem_inter_iff, Set.mem_ofPred_eq, Prod.exists,
    cutWidth, cutHeight]
  constructor
  · rintro ⟨x, y, h⟩
    omega
  · intro h
    refine ⟨max dst.x1.toInt clip.x1.toInt, max dst.y1.toInt clip.y1.toInt, ?_⟩
    omega

theorem intersect_visible : (drmRectIntersect dst clip).1 = true ↔
    PositiveInInt (cutWidth dst clip) ∧ PositiveInInt (cutHeight dst clip) := by
  have hpos : ∀ r : DrmRect, drmRectVisible r = true ↔ PositiveInInt (r.x2.toInt - r.x1.toInt) ∧
      PositiveInInt (r.y2.toInt - r.y1.toInt) := by
    intro r
    rw [drmRectVisible, decide_eq_true_iff, drmRectWidth, drmRectHeight, sub_pos_iff, sub_pos_iff]
  have hcut : dst.Cut clip (drmRectIntersect dst clip).2 := intersect_cut
  rw [drmRectIntersect, hpos, cutWidth, cutHeight]
  rw [← hcut.x1, ← hcut.x2, ← hcut.y1, ← hcut.y2]
  rfl

/-- **The answer is right** when the size is right in 32 bits. -/
theorem visible_iff :
    ((drmRectIntersect dst clip).1 = true ↔ (dst.pixels ∩ clip.pixels).Nonempty) ↔
      SizeFits dst clip := by
  rw [intersect_visible, pixels_nonempty_iff, SizeFits]
  exact iff_comm

/-! ## Both -/

/-- Nothing else is asked of rectangles whose intersection has an `int` for width and height. -/
theorem SizeFits.of_fits
    (hw : intMin.toInt ≤ cutWidth dst clip ∧ cutWidth dst clip ≤ intMax.toInt)
    (hh : intMin.toInt ≤ cutHeight dst clip ∧ cutHeight dst clip ≤ intMax.toInt) :
    SizeFits dst clip := by
  unfold SizeFits PositiveInInt
  omega

/-- **`drm_rect_clip_scaled` does what it is for** exactly when no edge of `src` goes below the range
of an `int` and the size of the intersection is right in 32 bits. -/
theorem clip_scaled_iff (h : DiffsFit dst clip) :
    ClipDone src dst clip hscale vscale (drmRectClipScaled src dst clip hscale vscale) ↔
      EdgesNotBelow src dst clip hscale vscale ∧ SizeFits dst clip := by
  constructor
  · intro hd
    exact ⟨(moved_iff h).1 hd.src, visible_iff.1 hd.visible⟩
  · rintro ⟨he, hs⟩
    exact ⟨visible_iff.2 hs, (moved_iff h).2 he, intersect_cut⟩

/-- A window that is clipped on two sides. -/
theorem clip_scaled_iff_window :
    ClipDone ⟨0, 0, 6553600, 6553600⟩ ⟨-10, 0, 90, 100⟩ ⟨0, 0, 1920, 60⟩ 65536 65536
      (true, ⟨655360, 0, 6553600, 3932160⟩, ⟨0, 0, 90, 60⟩) := by
  have hfit : DiffsFit ⟨-10, 0, 90, 100⟩ ⟨0, 0, 1920, 60⟩ :=
    ⟨by unfold DiffFits; decide, by unfold DiffFits; decide, by unfold DiffFits; decide,
      by unfold DiffFits; decide⟩
  have hsize : SizeFits ⟨-10, 0, 90, 100⟩ ⟨0, 0, 1920, 60⟩ := .of_fits (by decide) (by decide)
  have hedges : EdgesNotBelow ⟨0, 0, 6553600, 6553600⟩ ⟨-10, 0, 90, 100⟩ ⟨0, 0, 1920, 60⟩ 65536
      65536 := ⟨.inl (by decide), .inl (by decide), .inl (by decide), .inl (by decide)⟩
  exact (clip_scaled_iff hfit).2 ⟨hedges, hsize⟩

/-- A window of 100 pixels that lies 60000 pixels to the right: the right edge of `src` should saturate
at the lower end of the range and is 488636416 instead. -/
theorem clip_scaled_wraps :
    DiffsFit ⟨60000, 0, 60100, 100⟩ ⟨0, 0, 1920, 1080⟩ ∧
      ¬ ClipDone ⟨0, 0, 6553600, 6553600⟩ ⟨60000, 0, 60100, 100⟩ ⟨0, 0, 1920, 1080⟩ 65536 65536
        (drmRectClipScaled ⟨0, 0, 6553600, 6553600⟩ ⟨60000, 0, 60100, 100⟩ ⟨0, 0, 1920, 1080⟩ 65536
          65536) := by
  refine ⟨⟨by unfold DiffFits; decide, by unfold DiffFits; decide, by unfold DiffFits; decide,
    by unfold DiffFits; decide⟩, fun hd => ?_⟩
  have hx2 := hd.src.x2
  revert hx2
  decide

end Drm
