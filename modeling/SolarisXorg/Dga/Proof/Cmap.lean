import SolarisXorg.Dga.Cmap

/-!
# Calls on a grabbed colormap

Both writers clip the count alike (`clip_toInt`, `clip_inside`) and make the same of the shared
colormap (`apply_eq`).
-/

namespace Dga.Cmap

open Lib

variable {m m' : Grabbedcmap} {a : CmArgs}

/-! ## `int`s -/

theorem toInt_add_of_le {x y : Int32} (hlow : -2 ^ 31 ≤ x.toInt + y.toInt)
    (hhigh : x.toInt + y.toInt < 2 ^ 31) : (x + y).toInt = x.toInt + y.toInt := by
  rw [Int32.toInt_add]
  exact Int.bmod_eq_of_le (by omega) (by omega)

theorem toInt_sub_of_le {x y : Int32} (hlow : -2 ^ 31 ≤ x.toInt - y.toInt)
    (hhigh : x.toInt - y.toInt < 2 ^ 31) : (x - y).toInt = x.toInt - y.toInt := by
  rw [Int32.toInt_sub]
  exact Int.bmod_eq_of_le (by omega) (by omega)

section

variable {reallen index count : Int32}

theorem clip_toInt (hreallen : 0 ≤ reallen.toInt) (hindex : 0 ≤ index.toInt)
    (hfits : index.toInt + count.toInt < 2 ^ 31) :
    (clip reallen index count).toInt =
      if reallen.toInt < index.toInt + count.toInt then reallen.toInt - index.toInt
      else count.toInt := by
  have hlt := index.toInt_lt
  have hlt' := reallen.toInt_lt
  have hle := count.le_toInt
  have hsum : (index + count).toInt = index.toInt + count.toInt :=
    toInt_add_of_le (by omega) hfits
  rw [clip]
  simp only [Int32.lt_iff_toInt_lt, hsum]
  split
  · exact toInt_sub_of_le (by omega) (by omega)
  · rfl

/-- What is written are entries of the colormap. -/
theorem clip_inside (hreallen : 0 ≤ reallen.toInt) (hindex : 0 ≤ index.toInt)
    (hfits : index.toInt + count.toInt < 2 ^ 31) :
    index.toInt + (clip reallen index count).toInt ≤ reallen.toInt := by
  rw [clip_toInt hreallen hindex hfits]
  split <;> omega

end

/-! ## A call -/

/-- `dga_cm_put` and `dga_cm_write` do the same to the shared colormap. -/
theorem apply_eq (k : Call) : k.apply m =
    if 0 < clip m.cmReallen k.args.index k.args.count then
      (writeShadow m (clip m.cmReallen k.args.index k.args.count) k.args).map bump
    else some m := by
  cases k with
  | put clutpostOk c a =>
    rw [Call.apply, dgaCmPut, apply_ite (Option.map _), Option.map_map]
    rfl
  | write c a =>
    rw [Call.apply, dgaCmWrite, apply_ite (Option.map _), Option.map_map]
    rfl

/-- What is written besides the shadow. -/
theorem writeShadow_some {count : Int32} (h : writeShadow m count a = some m') :
    ∃ planes flags, m' = { widen m a.index count with planes := planes, flags := flags } := by
  rw [writeShadow] at h
  obtain ⟨planes, -, h⟩ := Option.bind_eq_some_iff.1 h
  obtain ⟨flags, -, h⟩ := Option.bind_eq_some_iff.1 h
  cases h
  exact ⟨planes, flags, rfl⟩

@[simp]
theorem widen_cmReallen (index count : Int32) : (widen m index count).cmReallen = m.cmReallen := by
  rw [widen]
  split <;> split <;> rfl

end Dga.Cmap
