import SolarisXorg.Drm.Proof.Vblank

/-!
# The cooked vblank counter across a disabled interrupt

`hwCounter max n` is what a hardware counter that takes the values `0 .. max` shows after `n`
vblanks. `vblank_disable_and_save` saves it, `drm_update_vblank_count` adds the difference on
re-enable. When the counter has not wrapped in between the difference is the number of vblanks
(`drmUpdateVblankCount_in_order`); when it has, `max_vblank_count` is added where the counter's
period, one more, is lost, and one vblank is missing (`drmUpdateVblankCount_wrapped`).
-/

namespace Drm

variable {max : BitVec 32} {c c₁ : VblCrtc} {n d : Nat}

/-- A counter of the values `0 .. max`, after `n` vblanks. -/
def hwCounter (max : BitVec 32) (n : Nat) : BitVec 32 := BitVec.ofNat 32 (n % (max.toNat + 1))

theorem hwCounter_toNat (max : BitVec 32) (n : Nat) :
    (hwCounter max n).toNat = n % (max.toNat + 1) := by
  have hlt : n % (max.toNat + 1) < max.toNat + 1 := Nat.mod_lt _ (Nat.succ_pos _)
  have hmax := max.isLt
  rw [hwCounter, BitVec.toNat_ofNat]
  exact Nat.mod_eq_of_lt (by omega)

theorem drmUpdateVblankCount_in_order (hl : c.lastVblank = hwCounter max n)
    (h : n % (max.toNat + 1) + d ≤ max.toNat) :
    (drmUpdateVblankCount max c (hwCounter max (n + d))).count = c.count + BitVec.ofNat 32 d := by
  have hmax := max.isLt
  have hlast := hwCounter_toNat max n
  have hcur : (hwCounter max (n + d)).toNat = n % (max.toNat + 1) + d := by
    rw [hwCounter_toNat, ← Nat.mod_add_mod]
    exact Nat.mod_eq_of_lt (by omega)
  have hle : ¬ hwCounter max (n + d) < hwCounter max n := by
    rw [BitVec.lt_def]
    omega
  have hdiff : hwCounter max (n + d) - hwCounter max n = BitVec.ofNat 32 d := by
    bv_omega
  simp only [drmUpdateVblankCount, hl, if_neg hle, hdiff]

theorem drmUpdateVblankCount_wrapped (hd : d ≤ max.toNat) (hl : c.lastVblank = hwCounter max n)
    (h : max.toNat < n % (max.toNat + 1) + d) :
    (drmUpdateVblankCount max c (hwCounter max (n + d))).count + 1 =
      c.count + BitVec.ofNat 32 d := by
  have hmax := max.isLt
  have hlast := hwCounter_toNat max n
  have hlt : n % (max.toNat + 1) < max.toNat + 1 := Nat.mod_lt _ (Nat.succ_pos _)
  have hcur : (hwCounter max (n + d)).toNat + (max.toNat + 1) = n % (max.toNat + 1) + d := by
    rw [hwCounter_toNat, ← Nat.mod_add_mod, Nat.mod_eq_sub_mod (by omega),
      Nat.mod_eq_of_lt (by omega)]
    omega
  have hwrap : hwCounter max (n + d) < hwCounter max n := by
    rw [BitVec.lt_def]
    omega
  simp only [drmUpdateVblankCount, hl, if_pos hwrap]
  bv_omega

/-- **The cooked counter catches up exactly when the hardware counter has not wrapped**: after
`vblank_disable_and_save` has saved the counter, the first `drm_vblank_get` adds the `d` vblanks that
went by if and only if the saved value plus `d` is a value of the counter. -/
theorem vblank_count_catches_up_iff {samples : List VblSample} {moved : Bool}
    {reads : List (BitVec 32)} (hd : d ≤ max.toNat)
    (hsave : vblankDisableAndSave c samples moved = some c₁)
    (hlast : c₁.lastVblank = hwCounter max n)
    (hread : readCounter reads = some (hwCounter max (n + d))) :
    ∃ c₂, drmVblankGet max { c₁ with refcount := 0 } true reads = some (c₂, true) ∧
      (c₂.count = c₁.count + BitVec.ofNat 32 d ↔ n % (max.toNat + 1) + d ≤ max.toNat) := by
  have hoff : c₁.enabled = false := by
    obtain ⟨r, -, rfl⟩ := Option.map_eq_some_iff.1 hsave
    rfl
  refine ⟨_, drmVblankGet_first rfl hoff hread, ?_⟩
  constructor
  · intro hc
    by_contra hw
    have hone := drmUpdateVblankCount_wrapped (c := { c₁ with refcount := 0 + 1, enabled := true })
      hd hlast (by omega)
    rw [hc] at hone
    have : (c₁.count + BitVec.ofNat 32 d) + 1 = c₁.count + BitVec.ofNat 32 d := hone
    bv_omega
  · intro hle
    exact drmUpdateVblankCount_in_order (c := { c₁ with refcount := 0 + 1, enabled := true })
      hlast hle

/-- A 24-bit counter, saved at 5, is at 12 when the interrupt comes back. -/
theorem vblank_count_catches_up_seven :
    ∃ c₂, drmVblankGet 0xffffff ⟨0, false, 100, 5, 0⟩ true [11, 12, 12, 12] = some (c₂, true) ∧
      c₂.count = 107 := by
  have hsave : vblankDisableAndSave ⟨0, true, 100, 0, 0⟩ [⟨5, 5, true⟩] false =
      some ⟨0, false, 100, 5, 0⟩ := rfl
  have hread : readCounter [11, 12, 12, 12] = some (hwCounter 0xffffff (5 + 7)) := by decide
  obtain ⟨c₂, hget, hiff⟩ := vblank_count_catches_up_iff (by decide) hsave (by decide) hread
  exact ⟨c₂, hget, hiff.2 (by decide)⟩

/-- The same counter, saved at its last value, wraps with the next vblank: nothing is added. -/
theorem vblank_count_misses_wrap :
    hwCounter 0xffffff 0xffffff = 0xffffff ∧ hwCounter 0xffffff (0xffffff + 1) = 0 ∧
      vblankDisableAndSave ⟨0, true, 100, 0, 0⟩ [⟨0xffffff, 0xffffff, true⟩] false =
        some ⟨0, false, 100, 0xffffff, 0⟩ ∧
      ∃ c₂, drmVblankGet 0xffffff ⟨0, false, 100, 0xffffff, 0⟩ true [0, 0] = some (c₂, true) ∧
        c₂.count ≠ 100 + BitVec.ofNat 32 1 := by
  refine ⟨by decide, by decide, by decide, ⟨1, true, 100, 0xffffff, 0⟩, by decide, by decide⟩

end Drm
