import SolarisXorg.Drm.Ioctl

/-!
# The copies of `drm_ioctl` and their buffer

The length of a copy is the size in the table's command word (`ioctlDispatch_fits_iff`), and the
buffer has 128 bytes, or the size that `drm_ioctl` has worked with if that is larger
(`ioctlKdata_capacity`). For a core command the two sizes are one; for a driver's command the second
is the size in the caller's word (`ioctlEntry_eq_some`). `drmIoctl_copies_fit_iff` puts them together.
-/

namespace Drm

variable {l : IocLayout} {core driver : List IoctlDesc} {dmaIoctl : Option Nat} {env : IoctlEnv}
  {cmd : BitVec 32} {ioctl : IoctlDesc} {asize func : Nat} {kdata : Kdata}

theorem map_pair_eq_some {o : Option IoctlDesc} {f : IoctlDesc → Nat} :
    o.map (fun i => (i, f i)) = some (ioctl, asize) ↔ o = some ioctl ∧ asize = f ioctl := by
  cases o with
  | none => simp
  | some i =>
    simp only [Option.map_some, Option.some.injEq, Prod.mk.injEq]
    constructor
    · rintro ⟨rfl, rfl⟩
      exact ⟨rfl, rfl⟩
    · rintro ⟨rfl, rfl⟩
      exact ⟨rfl, rfl⟩

/-- The entry is the driver's, with the size in the caller's word, or the core's, with its own. -/
theorem ioctlEntry_eq_some :
    ioctlEntry l core driver cmd = some (ioctl, asize) ↔
      (driverEntry l driver cmd = some ioctl ∧ asize = l.size cmd) ∨
        (¬ (l.commandBase ≤ l.nr cmd ∧ l.nr cmd < l.commandEnd) ∧
          core[l.nr cmd]? = some ioctl ∧ asize = l.size ioctl.cmd) := by
  unfold ioctlEntry driverEntry
  by_cases hdrv : l.commandBase ≤ l.nr cmd ∧ l.nr cmd < l.commandEnd
  · have hout : ¬ (core.length ≤ l.nr cmd ∧
        (l.nr cmd < l.commandBase ∨ l.commandEnd ≤ l.nr cmd)) := by omega
    have hin : ¬ (l.commandEnd ≤ l.nr cmd ∨ l.nr cmd < l.commandBase) := by omega
    simp only [if_neg hout, if_neg hin, not_true_eq_false, hdrv, false_and, or_false,
      true_and]
    split
    case isTrue => exact map_pair_eq_some
    case isFalse hlen =>
      have hnone : driver[l.nr cmd - l.commandBase]? = none :=
        List.getElem?_eq_none (by omega)
      simp [hnone]
  · have hin : l.commandEnd ≤ l.nr cmd ∨ l.nr cmd < l.commandBase := by omega
    have hno : ¬ (l.commandBase ≤ l.nr cmd ∧ l.nr cmd < l.commandEnd ∧
        l.nr cmd < l.commandBase + driver.length) := fun h => hdrv ⟨h.1, h.2.1⟩
    simp only [if_neg hdrv, if_neg hno, if_pos hin, reduceCtorEq, false_and, false_or]
    split
    case isTrue hlen =>
      have hnone : core[l.nr cmd]? = none := List.getElem?_eq_none hlen.1
      simp [hnone]
    case isFalse =>
      rw [map_pair_eq_some]
      exact (and_iff_right hdrv).symm

theorem and_or_ne_zero_of_left {c v w : BitVec 32} (h : c &&& v ≠ 0#32) : c &&& (v ||| w) ≠ 0#32 := by
  intro h0
  rw [BitVec.and_or_distrib_left] at h0
  exact h (BitVec.or_eq_zero_iff.1 h0).1

/-- An entry that copies has a buffer of 128 bytes, or of the size asked for. -/
theorem ioctlKdata_capacity (h : ioctlKdata l env ioctl.cmd asize = some kdata)
    (hcopy : PlainCopy l env ioctl) : kdata.capacity = max 128 asize := by
  have hio : ioctl.cmd &&& (l.iocIn ||| l.iocOut) ≠ 0#32 := by
    obtain ⟨hin, -⟩ | ⟨hout, -⟩ := hcopy
    · exact and_or_ne_zero_of_left hin
    · rw [BitVec.or_comm]
      exact and_or_ne_zero_of_left hout
  unfold ioctlKdata at h
  rw [if_neg hio] at h
  split at h
  case isTrue hle =>
    cases h
    exact (Nat.max_eq_left hle).symm
  case isFalse hle =>
    split at h
    · cases h
    · cases h
      exact (Nat.max_eq_right (Nat.le_of_lt (Nat.lt_of_not_le hle))).symm

theorem ioctlCopyin_fits_iff (n : Nat) :
    (∀ e ∈ (ioctlCopyin l env ioctl).1, e.extent ≤ n) ↔
      (ioctl.cmd &&& l.iocIn ≠ 0#32 ∧ (env.ilp32 && ioctl.copyin32) = false →
        l.size ioctl.cmd ≤ n) := by
  unfold ioctlCopyin
  split
  case isTrue h => simp [h]
  case isFalse h =>
    split
    case isTrue h32 => simp [h32, IoctlEvent.extent]
    case isFalse h32 => simp [h, h32, IoctlEvent.extent]

theorem ioctlCopyout_fits_iff (n : Nat) :
    (∀ e ∈ (ioctlCopyout l env ioctl).1, e.extent ≤ n) ↔
      (ioctl.cmd &&& l.iocOut ≠ 0#32 ∧ (env.ilp32 && ioctl.copyout32) = false →
        l.size ioctl.cmd ≤ n) := by
  unfold ioctlCopyout
  split
  case isTrue h => simp [h]
  case isFalse h =>
    split
    case isTrue h32 => simp [h32, IoctlEvent.extent]
    case isFalse h32 => simp [h, h32, IoctlEvent.extent]

theorem ioctlCopyin_fails :
    (ioctlCopyin l env ioctl).2 = true ↔ ioctl.cmd &&& l.iocIn ≠ 0#32 ∧ env.copyinFails = true := by
  unfold ioctlCopyin
  split
  case isTrue h => simp [h]
  case isFalse h => split <;> simp [h]

theorem ioctlDispatch_kdata :
    (ioctlDispatch l env ioctl func asize asize kdata).kdata = kdata := by
  unfold ioctlDispatch
  simp only
  split <;> rfl

/-- What is done to `kdata` keeps to a number of bytes if and only if the size in the entry does,
where a copy is made. -/
theorem ioctlDispatch_fits_iff (n : Nat) :
    (∀ e ∈ (ioctlDispatch l env ioctl func asize asize kdata).events, e.extent ≤ n) ↔
      (PlainCopy l env ioctl → l.size ioctl.cmd ≤ n) := by
  have hin : (∀ e ∈ (ioctlCopyin l env ioctl).1, e.extent ≤ n) ↔ _ := ioctlCopyin_fits_iff n
  have hout : (∀ e ∈ (ioctlCopyout l env ioctl).1, e.extent ≤ n) ↔ _ := ioctlCopyout_fits_iff n
  have hcall : (IoctlEvent.call func).extent ≤ n := Nat.zero_le n
  unfold ioctlDispatch PlainCopy
  simp only [Nat.lt_irrefl, false_and, if_false, List.nil_append]
  split
  case isTrue hf =>
    -- the call ends with the first copy
    obtain ⟨hne, hfails⟩ := ioctlCopyin_fails.1 hf
    rw [hin]
    simp [hne, hfails]
  case isFalse hf =>
    have hok : ioctl.cmd &&& l.iocIn ≠ 0#32 → env.copyinFails = false := by
      intro hne
      simpa using fun hfails => hf (ioctlCopyin_fails.2 ⟨hne, hfails⟩)
    simp only [List.mem_append, List.mem_singleton, or_imp, forall_and, forall_eq, hin, hout, hcall,
      and_true, eq_true hok]

/-- **The copies of `drm_ioctl` fit their buffer** exactly when the request makes none without a
converter, or is one of the core's, or its entry in the driver's table is not larger than both 128
bytes and the size in the caller's command word. -/
theorem drmIoctl_copies_fit_iff :
    (∀ e ∈ (drmIoctl l core driver dmaIoctl env cmd).events,
        e.extent ≤ (drmIoctl l core driver dmaIoctl env cmd).kdata.capacity) ↔
      ∀ ioctl, driverEntry l driver cmd = some ioctl →
        Admitted l dmaIoctl env cmd ioctl (l.size cmd) → PlainCopy l env ioctl →
          l.size ioctl.cmd ≤ max 128 (l.size cmd) := by
  unfold drmIoctl
  constructor
  · intro hfit ioctl hdrv hadm hcopy
    obtain ⟨hfunc, hden, hkd⟩ := hadm
    obtain ⟨func, hfunc⟩ := Option.isSome_iff_exists.1 hfunc
    obtain ⟨kdata, hkd⟩ := Option.isSome_iff_exists.1 hkd
    have hentry : ioctlEntry l core driver cmd = some (ioctl, l.size cmd) :=
      ioctlEntry_eq_some.2 (.inl ⟨hdrv, rfl⟩)
    simp only [hentry, hfunc, hden, hkd, Bool.false_eq_true, if_false, ioctlDispatch_kdata] at hfit
    rw [← ioctlKdata_capacity hkd hcopy]
    exact (ioctlDispatch_fits_iff _).1 hfit hcopy
  · intro hsize
    split
    case h_1 => simp
    case h_2 ioctl asize hentry =>
      split
      case h_1 => simp
      case h_2 func hfunc =>
        split
        case isTrue => simp
        case isFalse hden =>
          split
          case h_1 => simp
          case h_2 kdata hkd =>
            apply (ioctlDispatch_fits_iff _).2
            intro hcopy
            rw [ioctlDispatch_kdata, ioctlKdata_capacity hkd hcopy]
            obtain ⟨hdrv, rfl⟩ | ⟨-, -, rfl⟩ := ioctlEntry_eq_some.1 hentry
            · exact hsize ioctl hdrv ⟨by simp [hfunc], by simpa using hden, by simp [hkd]⟩ hcopy
            · exact Nat.le_max_right _ _

/-- A driver's command of 200 bytes, and a caller whose command word says 0 bytes: 200 bytes are
copied into the 128 of the stack buffer. -/
theorem drmIoctl_copies_fit_fails :
    ¬ ∀ (core driver : List IoctlDesc) (dmaIoctl : Option Nat) (env : IoctlEnv) (cmd : BitVec 32),
      ∀ e ∈ (drmIoctl solarisIoc core driver dmaIoctl env cmd).events,
        e.extent ≤ (drmIoctl solarisIoc core driver dmaIoctl env cmd).kdata.capacity := by
  intro h
  have hlen : IoctlEvent.extent (.copyin 200) ≤ 128 :=
    h [] [⟨some 0, 0, 0x80C86440, false, false⟩] none
      { suser := false
        authenticated := false
        isMaster := false
        control := false
        ilp32 := false
        kmallocFails := false
        copyinFails := false
        copyoutFails := false
        ret := fun _ => 0 }
      0x6440 (.copyin 200) (List.mem_cons_self ..)
  exact absurd hlen (by decide)

end Drm
