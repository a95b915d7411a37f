import SolarisXorg.Drm.Proof.IdrLost
import SolarisXorg.Drm.Stub

/-!
# The minors of the devices

`Minors.Owns`: the ids in use are those of the minors `owned`, and these and the minors released are
all that were created, each of them once. Creating a minor adds it to `owned` (`getMinor_owns`),
releasing it takes it out (`putMinor_owns`). The labels of `drm_get_dev` release what the device has
up to there (`errG2_owns` to `errG5_owns`), so that a call leaves the device with all of its minors
or with none (`getDev_ends`, `putDev_ends`), and `devices_balanced` carries this to every run.
`drm_put_dev` goes by the features that the driver has then, and not by the minors of the device.
-/

namespace Drm.Stub

variable {m : Minors} {owned rest : List DrmMinor} {driver : DrmDriver} {dev : DrmDevice}
  {ret : Int}

/-! ## A minor -/

/-- The minors that are there. -/
structure Minors.Owns (m : Minors) (owned : List DrmMinor) : Prop where
  padded : m.drmMinorsIdr.Padded
  ids : m.drmMinorsIdr.ids.Perm (owned.map DrmMinor.index)
  nums : (owned.map DrmMinor.num ++ m.released).Perm (List.range m.created)

theorem Minors.Owns.perm {owned' : List DrmMinor} (h : m.Owns owned) (hperm : owned.Perm owned') :
    m.Owns owned' where
  padded := h.padded
  ids := h.ids.trans (hperm.map _)
  nums := ((hperm.map _).symm.append_right _).trans h.nums

theorem drmMinorGetId_spec {idr : Idr Nat} (h : idr.Padded) (type : MinorType) {o : GetMinor}
    (hmem : o.freeMem = true) :
    ∃ ret idr', drmMinorGetId idr type o = some (ret, idr') ∧ idr'.Padded ∧
      ((∃ e, ret = .error e ∧ e < 0 ∧ idr'.ids.Perm idr.ids) ∨
        ∃ id, ret = .ok id ∧ idr'.ids.Perm (id :: idr.ids)) := by
  have hbase : 0 ≤ type.base.toInt := by cases type <;> decide
  obtain ⟨ret, idr₁, hcall, hidr₁, ⟨e, rfl, he, hids⟩ | ⟨id, rfl, hids⟩⟩ :=
    h.getNewAbove none hbase o.usedMem
  · refine ⟨.error e, idr₁, ?_, hidr₁, .inl ⟨e, rfl, he, hids ▸ .refl _⟩⟩
    rw [drmMinorGetId, hcall]
    rfl
  rw [drmMinorGetId, hcall, Option.bind_some]
  dsimp only
  by_cases hlimit : type.limit < id
  case neg =>
    rw [if_neg hlimit]
    exact ⟨_, _, rfl, hidr₁, .inr ⟨id, rfl, hids⟩⟩
  obtain ⟨idr₂, hremove, hidr₂, hids₂⟩ := hidr₁.remove (hids.mem_iff.2 (.head _))
  rw [if_pos hlimit, hmem, hremove]
  exact ⟨_, _, rfl, hidr₂, .inl ⟨_, rfl, by decide, (hids₂.symm.trans hids).cons_inv⟩⟩

/-- `drm_get_minor` adds a minor or fails. -/
theorem getMinor_owns (h : m.Owns owned) (minor : Option DrmMinor) (type : MinorType) {o : GetMinor}
    (hmem : o.freeMem = true) :
    ∃ ret minor' m', drmGetMinor m minor type o = some (ret, minor', m') ∧
      ((ret = 0 ∧ ∃ new, minor' = some new ∧ m'.Owns (new :: owned)) ∨
        ret ≠ 0 ∧ (minor' = minor ∨ minor' = none) ∧ m'.Owns owned) := by
  obtain ⟨ret, idr₁, hcall, hidr₁, ⟨e, rfl, he, hids⟩ | ⟨id, rfl, hids⟩⟩ :=
    drmMinorGetId_spec h.padded type hmem
  · rw [drmGetMinor, hcall]
    exact ⟨_, _, _, rfl, .inr ⟨by omega, .inl rfl, hidr₁, hids.trans h.ids, h.nums⟩⟩
  rw [drmGetMinor, hcall, Option.bind_some]
  dsimp only
  by_cases hkzalloc : o.kzalloc = true
  case neg =>
    obtain ⟨idr₂, hremove, hidr₂, hids₂⟩ := hidr₁.remove (hids.mem_iff.2 (.head _))
    rw [if_neg hkzalloc, hmem, hremove]
    exact ⟨_, _, _, rfl, .inr ⟨by decide, .inr rfl, hidr₂,
      ((hids₂.symm.trans hids).cons_inv).trans h.ids, h.nums⟩⟩
  rw [if_pos hkzalloc]
  obtain ⟨hreplaced, hids₂⟩ := hidr₁.replace (some m.created) id
  by_cases hsysfs : o.sysfs = 0
  case neg =>
    obtain ⟨idr₃, hremove, hidr₃, hids₃⟩ := hreplaced.remove (hids₂ ▸ hids.mem_iff.2 (.head _))
    rw [if_neg hsysfs, hmem, hremove]
    refine ⟨_, _, _, rfl, .inr ⟨hsysfs, .inr rfl, hidr₃, ?_, h.nums⟩⟩
    rw [hids₂] at hids₃
    exact ((hids₃.symm.trans hids).cons_inv).trans h.ids
  rw [if_pos hsysfs]
  refine ⟨_, _, _, rfl, .inl ⟨rfl, _, rfl, hreplaced, ?_, ?_⟩⟩
  · dsimp only
    rw [hids₂]
    exact hids.trans (h.ids.cons id)
  · dsimp only
    rw [List.range_succ]
    exact (h.nums.cons _).trans (List.perm_append_singleton _ _).symm

/-- `drm_put_minor` of a minor that is there releases it. -/
theorem putMinor_owns {minor : DrmMinor} (h : m.Owns (minor :: owned)) :
    ∃ m', drmPutMinor m (some minor) true = some m' ∧ m'.Owns owned := by
  obtain ⟨idr', hremove, hidr', hids⟩ := h.padded.remove (h.ids.mem_iff.2 (.head _))
  refine ⟨⟨idr', m.created, m.released ++ [minor.num]⟩, ?_, hidr',
    (hids.symm.trans h.ids).cons_inv, ?_⟩
  · rw [drmPutMinor, Option.bind_some, hremove]
    rfl
  · rw [← List.append_assoc]
    exact (List.perm_append_singleton _ _).trans h.nums

/-! ## The labels of `drm_get_dev` -/

section

variable {freeMem : MinorType → Bool}

theorem errG2_owns (dev : DrmDevice) (ret : Int) (hmem : ∀ type, freeMem type = true)
    (hagp : drmCoreHasAGP driver = dev.agpmaster.isSome)
    (h : m.Owns (dev.agpmaster.toList ++ rest)) :
    ∃ m', errG2 driver freeMem m dev ret = some (ret, { dev with agpmaster := none }, m') ∧
      m'.Owns rest := by
  rw [errG2, hagp, hmem]
  cases hagpmaster : dev.agpmaster with
  | none =>
    rw [hagpmaster] at h
    refine ⟨m, ?_, h⟩
    rw [if_neg (by decide), ← hagpmaster]
  | some minor =>
    rw [hagpmaster] at h
    obtain ⟨m', hput, howns⟩ := putMinor_owns h
    refine ⟨m', ?_, howns⟩
    rw [if_pos (Option.isSome_some), hput]
    rfl

theorem errG3_owns (dev : DrmDevice) (ret : Int) (hmem : ∀ type, freeMem type = true)
    (hagp : drmCoreHasAGP driver = dev.agpmaster.isSome) (hvgatext : dev.vgatext.isSome = true)
    (h : m.Owns (dev.vgatext.toList ++ (dev.agpmaster.toList ++ rest))) :
    ∃ m', errG3 driver freeMem m dev ret =
        some (ret, { dev with vgatext := none, agpmaster := none }, m') ∧ m'.Owns rest := by
  obtain ⟨minor, hminor⟩ := Option.isSome_iff_exists.1 hvgatext
  rw [hminor] at h
  obtain ⟨m₁, hput, howns⟩ := putMinor_owns h
  rw [errG3, hminor, hmem, hput, Option.bind_some]
  exact errG2_owns { dev with vgatext := none } ret hmem hagp howns

theorem errG4_owns (dev : DrmDevice) (ret : Int) (hmem : ∀ type, freeMem type = true)
    (hagp : drmCoreHasAGP driver = dev.agpmaster.isSome) (hvgatext : dev.vgatext.isSome = true)
    (hcontrol : drmCoreCheckFeature driver driverModeset = dev.control.isSome)
    (h : m.Owns (dev.control.toList ++ (dev.vgatext.toList ++ (dev.agpmaster.toList ++ rest)))) :
    ∃ m', errG4 driver freeMem m dev ret =
        some (ret, { dev with control := none, vgatext := none, agpmaster := none }, m') ∧
      m'.Owns rest := by
  rw [errG4, hcontrol, hmem]
  cases hminor : dev.control with
  | none =>
    rw [hminor] at h
    obtain ⟨m', hend, howns⟩ := errG3_owns dev ret hmem hagp hvgatext h
    refine ⟨m', ?_, howns⟩
    rw [if_neg (by decide), hend, hminor]
  | some minor =>
    rw [hminor] at h
    obtain ⟨m₁, hput, howns⟩ := putMinor_owns h
    rw [if_pos (Option.isSome_some), hput, Option.bind_some]
    exact errG3_owns { dev with control := none } ret hmem hagp hvgatext howns

theorem errG5_owns (dev : DrmDevice) (ret : Int) (hmem : ∀ type, freeMem type = true)
    (hagp : drmCoreHasAGP driver = dev.agpmaster.isSome) (hvgatext : dev.vgatext.isSome = true)
    (hcontrol : drmCoreCheckFeature driver driverModeset = dev.control.isSome)
    (hprimary : dev.primary.isSome = true) (h : m.Owns (dev.minors ++ rest)) :
    ∃ m', errG5 driver freeMem m dev ret = some (ret, ⟨dev.driver, none, none, none, none⟩, m') ∧
      m'.Owns rest := by
  obtain ⟨minor, hminor⟩ := Option.isSome_iff_exists.1 hprimary
  rw [DrmDevice.minors, hminor, List.append_assoc, List.append_assoc, List.append_assoc] at h
  obtain ⟨m₁, hput, howns⟩ := putMinor_owns h
  rw [errG5, hminor, hmem, hput, Option.bind_some]
  exact errG4_owns { dev with primary := none } ret hmem hagp hvgatext hcontrol howns

end

/-! ## `drm_get_dev` -/

/-- A device that has all the minors that the features of its driver ask for. -/
structure DrmDevice.Whole (driver : DrmDriver) (dev : DrmDevice) : Prop where
  vgatext : dev.vgatext.isSome = true
  agpmaster : drmCoreHasAGP driver = dev.agpmaster.isSome
  control : drmCoreCheckFeature driver driverModeset = dev.control.isSome
  primary : dev.primary.isSome = true

/-- A device that has none. -/
def DrmDevice.Blank (dev : DrmDevice) : Prop :=
  dev.vgatext = none ∧ dev.agpmaster = none ∧ dev.control = none ∧ dev.primary = none

/-- `drm_get_dev` succeeds, with all the minors, or fails, with none. -/
def Ends (driver : DrmDriver) (o : GetDev) (rest : List DrmMinor) (ret : Int) (dev : DrmDevice)
    (m : Minors) : Prop :=
  ret = 0 ∧ dev.Whole driver ∧ m.Owns (dev.minors ++ rest) ∧ (∀ ret ∈ o.load, ret = 0) ∧
      o.kstats = true ∨
    ret ≠ 0 ∧ dev.Blank ∧ m.Owns rest

section

variable {o : GetDev}

theorem getDevLoad_ends (hmem : ∀ type, o.freeMem type = true) (hdev : dev.Whole driver)
    (h : m.Owns (dev.minors ++ rest)) :
    ∃ ret dev' m', getDevLoad driver m dev o = some (ret, dev', m') ∧
      Ends driver o rest ret dev' m' := by
  obtain ⟨hvgatext, hagp, hcontrol, hprimary⟩ := id hdev
  rw [getDevLoad]
  by_cases hload : o.load.getD 0 ≠ 0
  case pos =>
    obtain ⟨m', hend, howns⟩ :=
      errG5_owns dev (o.load.getD 0) hmem hagp hvgatext hcontrol hprimary h
    rw [if_pos hload]
    exact ⟨_, _, m', hend, .inr ⟨hload, ⟨rfl, rfl, rfl, rfl⟩, howns⟩⟩
  rw [if_neg hload]
  rw [Ne, not_not] at hload
  by_cases hkstats : o.kstats = true
  case neg =>
    obtain ⟨m', hend, howns⟩ := errG5_owns dev EFAULT hmem hagp hvgatext hcontrol hprimary h
    rw [if_neg hkstats]
    exact ⟨_, _, m', hend, .inr ⟨by decide, ⟨rfl, rfl, rfl, rfl⟩, howns⟩⟩
  rw [if_pos hkstats]
  refine ⟨_, _, m, rfl, .inl ⟨rfl, hdev, h, fun ret hret => ?_, hkstats⟩⟩
  rwa [Option.mem_def.1 hret] at hload

theorem getDevPrimary_ends (hmem : ∀ type, o.freeMem type = true) (hget : o.primary.freeMem = true)
    (hvgatext : dev.vgatext.isSome = true) (hagp : drmCoreHasAGP driver = dev.agpmaster.isSome)
    (hcontrol : drmCoreCheckFeature driver driverModeset = dev.control.isSome)
    (hprimary : dev.primary = none)
    (h : m.Owns (dev.control.toList ++ (dev.vgatext.toList ++ (dev.agpmaster.toList ++ rest)))) :
    ∃ ret dev' m', getDevPrimary driver m dev o = some (ret, dev', m') ∧
      Ends driver o rest ret dev' m' := by
  obtain ⟨ret, minor', m₁, hcall, ⟨rfl, new, rfl, howns⟩ | ⟨hret, hminor, howns⟩⟩ :=
    getMinor_owns h dev.primary .legacy hget
  · rw [getDevPrimary, hcall, Option.bind_some]
    dsimp only
    rw [if_neg (by decide)]
    refine getDevLoad_ends hmem ⟨hvgatext, hagp, hcontrol, rfl⟩ ?_
    rw [DrmDevice.minors, List.append_assoc, List.append_assoc, List.append_assoc]
    exact howns
  · have hnone : minor' = none := hminor.elim (fun h => h.trans hprimary) id
    rw [getDevPrimary, hcall, Option.bind_some]
    dsimp only
    rw [if_pos hret]
    obtain ⟨m', hend, howns'⟩ :=
      errG4_owns { dev with primary := minor' } ret hmem hagp hvgatext hcontrol howns
    exact ⟨_, _, m', hend, .inr ⟨hret, ⟨rfl, rfl, rfl, hnone⟩, howns'⟩⟩

theorem getDevControl_ends (hmem : ∀ type, o.freeMem type = true)
    (hget : o.control.freeMem = true) (hget' : o.primary.freeMem = true)
    (hvgatext : dev.vgatext.isSome = true) (hagp : drmCoreHasAGP driver = dev.agpmaster.isSome)
    (hcontrol : dev.control = none) (hprimary : dev.primary = none)
    (h : m.Owns (dev.vgatext.toList ++ (dev.agpmaster.toList ++ rest))) :
    ∃ ret dev' m', getDevControl driver m dev o = some (ret, dev', m') ∧
      Ends driver o rest ret dev' m' := by
  rw [getDevControl]
  by_cases hmodeset : drmCoreCheckFeature driver driverModeset = true
  case neg =>
    rw [if_neg hmodeset]
    refine getDevPrimary_ends hmem hget' hvgatext hagp ?_ hprimary ?_
    · rw [hcontrol, Bool.eq_false_iff.2 hmodeset]
      rfl
    · rw [hcontrol]
      exact h
  rw [if_pos hmodeset]
  obtain ⟨ret, minor', m₁, hcall, ⟨rfl, new, rfl, howns⟩ | ⟨hret, hminor, howns⟩⟩ :=
    getMinor_owns h dev.control .control hget
  · rw [hcall, Option.bind_some]
    dsimp only
    rw [if_neg (by decide)]
    exact getDevPrimary_ends hmem hget' hvgatext hagp hmodeset hprimary howns
  · have hnone : minor' = none := hminor.elim (fun h => h.trans hcontrol) id
    rw [hcall, Option.bind_some]
    dsimp only
    rw [if_pos hret]
    obtain ⟨m', hend, howns'⟩ :=
      errG3_owns { dev with control := minor' } ret hmem hagp hvgatext howns
    exact ⟨_, _, m', hend, .inr ⟨hret, ⟨rfl, rfl, hnone, hprimary⟩, howns'⟩⟩

/-- `drm_fill_in_dev` reports all failures but that of the workqueue. -/
theorem fillIn_eq_zero (h : drmFillInDev driver o = 0) :
    o.ctxbitmap = 0 ∧ (drmCoreCheckFeature driver driverGem → o.gem = 0) := by
  rw [drmFillInDev] at h
  dsimp only at h
  by_cases hctxbitmap : o.ctxbitmap ≠ 0
  case pos =>
    rw [if_pos hctxbitmap] at h
    exact absurd h hctxbitmap
  rw [if_neg hctxbitmap] at h
  refine ⟨not_not.1 hctxbitmap, fun hfeature => ?_⟩
  rw [if_pos hfeature] at h
  by_cases hret : o.gem ≠ 0
  case pos =>
    rw [if_pos hret] at h
    exact absurd h hret
  exact not_not.1 hret

theorem DrmDevice.Whole.done {driver' : DrmDriver} (h : dev.Whole driver')
    (hctxbitmap : o.ctxbitmap = 0) (hgem : drmCoreCheckFeature driver driverGem → o.gem = 0)
    (hworkqueue : o.workqueue = true) (hload : ∀ ret ∈ o.load, ret = 0)
    (hkstats : o.kstats = true) :
    o.Done dev driver driver' where
  ctxbitmap := hctxbitmap
  gem := hgem
  workqueue := hworkqueue
  vgatext := Option.isSome_iff_ne_none.1 h.vgatext
  agpmaster hagp := Option.isSome_iff_ne_none.1 (h.agpmaster ▸ hagp)
  control hmodeset := Option.isSome_iff_ne_none.1 (h.control ▸ hmodeset)
  primary := Option.isSome_iff_ne_none.1 h.primary
  load := hload
  kstats := hkstats

/-- `drm_get_dev` behind `agp_support_detect`, where the AGP minor is created if there is AGP. -/
theorem getDevAgp_ends (dev : DrmDevice) (hmem : ∀ type, o.freeMem type = true)
    (hgetAgp : o.agpmaster.freeMem = true) (hget : o.control.freeMem = true)
    (hget' : o.primary.freeMem = true) {vgatext : DrmMinor}
    (hvgatext : dev.vgatext = some vgatext) (hagpmaster : dev.agpmaster = none)
    (hcontrol : dev.control = none) (hprimary : dev.primary = none)
    (hagp : drmCoreHasAGP driver = true →
      ∃ minor m', drmGetMinor m dev.agpmaster .agpmaster o.agpmaster = some (0, minor, m'))
    (h : m.Owns (vgatext :: rest)) :
    ∃ ret dev' m', getDevAgp driver m dev o = some (ret, dev', m') ∧
      Ends driver o rest ret dev' m' := by
  have hsome : dev.vgatext.isSome = true := by
    rw [hvgatext]
    rfl
  rw [getDevAgp]
  by_cases hfeature : drmCoreHasAGP driver = true
  case neg =>
    rw [if_neg hfeature]
    refine getDevControl_ends hmem hget hget' hsome ?_ hcontrol hprimary ?_
    · rw [hagpmaster, Bool.eq_false_iff.2 hfeature]
      rfl
    · rw [hvgatext, hagpmaster]
      exact h
  rw [if_pos hfeature]
  obtain ⟨ret, minor', m₁, hcall, ⟨rfl, new, rfl, howns⟩ | ⟨hret, -⟩⟩ :=
    getMinor_owns h dev.agpmaster .agpmaster hgetAgp
  · rw [hcall, Option.bind_some]
    dsimp only
    rw [if_neg (by decide)]
    refine getDevControl_ends hmem hget hget' hsome hfeature hcontrol hprimary ?_
    dsimp only
    rw [hvgatext]
    exact howns.perm (List.Perm.swap _ _ _)
  · obtain ⟨_, _, hcall'⟩ := hagp hfeature
    rw [hcall] at hcall'
    cases hcall'
    exact absurd rfl hret

/-- **`drm_get_dev`** under the conditions. -/
theorem getDev_ends {s : Devices} {d num driverData : Nat} (hblank : (s.devs d).Blank)
    (hok : GetDevOk s d num driverData o) (h : s.minors.Owns rest) :
    ∃ driver' ret dev' m', drmGetDev (s.drivers num) s.minors (s.devs d) o num driverData =
        some (driver', ret, dev', m') ∧
      ((ret = 0 ∧ dev'.Whole driver' ∧ o.Done dev' (s.drivers num) driver' ∧
          m'.Owns (dev'.minors ++ rest)) ∨
        ret ≠ 0 ∧ dev'.Blank ∧ m'.Owns rest) := by
  obtain ⟨hvgatext, hagpmaster, hcontrol, hprimary⟩ := hblank
  obtain ⟨hget, hgetAgp, hgetControl, hgetPrimary⟩ := hok.getMem
  rw [drmGetDev]
  dsimp only
  by_cases hfill : drmFillInDev (s.drivers num) o ≠ 0
  case pos =>
    refine ⟨_, _, { s.devs d with driver := num }, s.minors, if_pos hfill, .inr ⟨hfill, ?_, h⟩⟩
    exact ⟨hvgatext, hagpmaster, hcontrol, hprimary⟩
  have hzero : drmFillInDev (s.drivers num) o = 0 := not_not.1 hfill
  obtain ⟨hctxbitmap, hgem⟩ := fillIn_eq_zero hzero
  have hworkqueue := hok.workqueue hctxbitmap hgem
  rw [if_neg hfill]
  obtain ⟨ret, minor', m₁, hcall, ⟨rfl, new, rfl, howns⟩ | ⟨hret, hminor, howns⟩⟩ :=
    getMinor_owns h (s.devs d).vgatext .vgatext hget
  case inr =>
    have hnone : minor' = none := hminor.elim (fun h => h.trans hvgatext) id
    -- there is no AGP minor to release
    have hagp : ¬drmCoreHasAGP (s.drivers num) = true := by
      intro hagp
      obtain ⟨_, _, hcall'⟩ := hok.vgatext hzero hagp
      rw [hcall] at hcall'
      cases hcall'
      exact hret rfl
    refine ⟨s.drivers num, ret, { s.devs d with driver := num, vgatext := minor' }, m₁, ?_,
      .inr ⟨hret, ⟨hnone, hagpmaster, hcontrol, hprimary⟩, howns⟩⟩
    rw [hcall, Option.bind_some]
    dsimp only
    rw [if_pos hret, errG2, if_neg hagp]
    rfl
  obtain ⟨ret, dev', m', hend, hends⟩ := getDevAgp_ends
    { s.devs d with driver := num, vgatext := some new } hok.putMem hgetAgp hgetControl hgetPrimary
    rfl hagpmaster hcontrol hprimary (hok.agpmaster hzero (some new) m₁ hcall) howns
  refine ⟨(s.drivers num).detected driverData, ret, dev', m', ?_, ?_⟩
  · rw [hcall, Option.bind_some]
    dsimp only
    rw [if_neg (by decide), hend]
    rfl
  · rcases hends with ⟨hret, hwhole, howns', hload, hkstats⟩ | hfails
    · exact .inl ⟨hret, hwhole, hwhole.done hctxbitmap hgem hworkqueue hload hkstats, howns'⟩
    · exact .inr hfails

end

/-! ## `drm_put_dev` -/

/-- A minor that a feature asks for. -/
theorem putIf_owns {minor : Option DrmMinor} {feature : Bool} (hfeature : feature = minor.isSome)
    (h : m.Owns (minor.toList ++ rest)) :
    ∃ m', (if feature then drmPutMinor m minor true else some m) = some m' ∧ m'.Owns rest := by
  rw [hfeature]
  cases minor with
  | none => exact ⟨m, rfl, h⟩
  | some minor => exact putMinor_owns h

/-- `drm_put_dev` releases all minors of the device. -/
theorem putDev_ends {freeMem : MinorType → Bool} (hmem : ∀ type, freeMem type = true)
    (hdev : dev.Whole driver) (h : m.Owns (dev.minors ++ rest)) :
    ∃ dev' m', drmPutDev driver m dev freeMem = some (dev', m') ∧ dev'.Blank ∧ m'.Owns rest := by
  obtain ⟨hvgatext, hagp, hcontrol, hprimary⟩ := hdev
  obtain ⟨vgatext, hvgatext⟩ := Option.isSome_iff_exists.1 hvgatext
  obtain ⟨primary, hprimary⟩ := Option.isSome_iff_exists.1 hprimary
  have hperm : (dev.minors ++ rest).Perm
      (vgatext :: (dev.agpmaster.toList ++ (dev.control.toList ++ primary :: rest))) := by
    rw [DrmDevice.minors, hvgatext, hprimary, List.perm_iff_count]
    intro minor
    simp only [Option.toList_some, List.count_append, List.count_cons, List.count_nil]
    omega
  obtain ⟨m₁, hput₁, howns₁⟩ := putMinor_owns (h.perm hperm)
  obtain ⟨m₂, hput₂, howns₂⟩ := putIf_owns hagp howns₁
  obtain ⟨m₃, hput₃, howns₃⟩ := putIf_owns hcontrol howns₂
  obtain ⟨m₄, hput₄, howns₄⟩ := putMinor_owns howns₃
  rw [drmPutDev]
  simp only [hmem]
  rw [hvgatext, hput₁, Option.bind_some, hput₂, Option.bind_some, hput₃, Option.bind_some, hprimary,
    hput₄]
  refine ⟨_, m₄, rfl, ⟨rfl, ?_, ?_, rfl⟩, howns₄⟩
  · dsimp only
    rw [hagp]
    cases dev.agpmaster <;> rfl
  · dsimp only
    rw [hcontrol]
    cases dev.control <;> rfl

/-! ## Calls for all devices -/

/-- The minors in `drm_minors_idr` are those of the registered devices, and these have at least the
two that no feature asks for. -/
structure Devices.Inv (s : Devices) : Prop where
  owns : s.minors.Owns s.owned
  nodup : s.registered.Nodup
  kept : ∀ d ∈ s.registered, (s.devs d).vgatext.isSome = true ∧ (s.devs d).primary.isSome = true
  blank : ∀ d ∉ s.registered, (s.devs d).Blank

theorem init_inv (drivers : Nat → DrmDriver) : (Devices.init drivers).Inv where
  owns := ⟨idrInit_padded, .refl _, .refl _⟩
  nodup := List.nodup_nil
  kept _ hd := absurd hd List.not_mem_nil
  blank _ _ := ⟨rfl, rfl, rfl, rfl⟩

/-- A device's minors do not matter where it is not registered. -/
theorem owned_update {registered : List Nat} {devs : Nat → DrmDevice} {d : Nat} (dev : DrmDevice)
    (hd : d ∉ registered) :
    (registered.flatMap fun e => (Function.update devs d dev e).minors) =
      registered.flatMap fun e => (devs e).minors := by
  refine List.flatMap_congr fun e he => ?_
  rw [Function.update_of_ne]
  rintro rfl
  exact hd he

/-- A call changes one device. -/
theorem Devices.Inv.update {s : Devices} (h : s.Inv) (drivers : Nat → DrmDriver) {d : Nat}
    {registered : List Nat}
    (hnodup : registered.Nodup) (hsame : ∀ e, e ≠ d → (e ∈ registered ↔ e ∈ s.registered))
    (hdev : d ∈ registered ∧ dev.vgatext.isSome = true ∧ dev.primary.isSome = true ∨
      d ∉ registered ∧ dev.Blank)
    (howns : m.Owns (registered.flatMap fun e => (Function.update s.devs d dev e).minors)) :
    Devices.Inv ⟨m, drivers, Function.update s.devs d dev, registered⟩ := by
  refine ⟨howns, hnodup, fun e he => ?_, fun e he => ?_⟩
  · dsimp only at he ⊢
    by_cases hed : e = d
    case pos =>
      rw [hed] at he ⊢
      rw [Function.update_self]
      exact (hdev.resolve_right fun h => h.1 he).2
    rw [Function.update_of_ne hed]
    exact h.kept e ((hsame e hed).1 he)
  · dsimp only at he ⊢
    by_cases hed : e = d
    case pos =>
      rw [hed] at he ⊢
      rw [Function.update_self]
      exact (hdev.resolve_left fun h => he h.1).2
    rw [Function.update_of_ne hed]
    exact h.blank e fun hreg => he ((hsame e hed).2 hreg)

/-- `drm_get_dev` of a device that is not registered. -/
theorem Devices.Inv.getDev {s : Devices} (h : s.Inv) {d num driverData : Nat} {o : GetDev}
    (hok : GetDevOk s d num driverData o) :
    ∃ ret s', s.call (.getDev d num driverData o) = some (ret, s') ∧ s'.Inv ∧
      (ret = 0 → o.Done (s'.devs d) (s.drivers num) (s'.drivers num)) := by
  have hd := hok.unregistered
  obtain ⟨driver', ret, dev', m', hcall,
      ⟨rfl, hwhole, hdone, howns⟩ | ⟨hret, hblank, howns⟩⟩ :=
    getDev_ends (h.blank d hd) hok h.owns
  · refine ⟨0, ⟨m', Function.update s.drivers num driver', Function.update s.devs d dev',
      d :: s.registered⟩, ?_, ?_, fun _ => ?_⟩
    · rw [Devices.call, hcall]
      rfl
    · refine h.update _ (List.nodup_cons.2 ⟨hd, h.nodup⟩) (fun e he => ?_)
        (.inl ⟨.head _, hwhole.vgatext, hwhole.primary⟩) ?_
      · rw [List.mem_cons, or_iff_right he]
      · rw [List.flatMap_cons, owned_update dev' hd, Function.update_self]
        exact howns
    · dsimp only
      rw [Function.update_self, Function.update_self]
      exact hdone
  · refine ⟨ret, ⟨m', Function.update s.drivers num driver', Function.update s.devs d dev',
      s.registered⟩, ?_, ?_, fun hzero => absurd hzero hret⟩
    · rw [Devices.call, hcall, Option.map_some]
      simp only [if_neg hret]
    · refine h.update _ h.nodup (fun _ _ => .rfl) (.inr ⟨hd, hblank⟩) ?_
      rw [owned_update dev' hd]
      exact howns

/-- `drm_put_dev` of a device that is registered, where the features of its driver still are those
of its minors. -/
theorem Devices.Inv.putDev {s : Devices} (h : s.Inv) {d : Nat} {freeMem : MinorType → Bool}
    (hok : PutDevOk s d freeMem) :
    ∃ s', s.call (.putDev d freeMem) = some (0, s') ∧ s'.Inv := by
  obtain ⟨hd, hmem, hagp, hmodeset⟩ := hok
  have hperm : s.owned.Perm ((s.devs d).minors ++
      (s.registered.erase d).flatMap fun e => (s.devs e).minors) :=
    (List.perm_cons_erase hd).flatMap_right _
  have herase : d ∉ s.registered.erase d := h.nodup.not_mem_erase
  obtain ⟨hvgatext, hprimary⟩ := h.kept d hd
  obtain ⟨dev', m', hcall, hblank, howns⟩ :=
    putDev_ends hmem ⟨hvgatext, hagp, hmodeset, hprimary⟩ (h.owns.perm hperm)
  refine ⟨⟨m', s.drivers, Function.update s.devs d dev', s.registered.erase d⟩, ?_, ?_⟩
  · rw [Devices.call, hcall]
    rfl
  · refine h.update _ (h.nodup.erase d) (fun e he => List.mem_erase_of_ne he)
      (.inr ⟨herase, hblank⟩) ?_
    rw [owned_update dev' herase]
    exact howns

/-- **A call** under the conditions has a result, keeps the balance, and where `drm_get_dev` returns
0, all its steps have succeeded. -/
theorem Devices.Inv.call {s : Devices} (h : s.Inv) {c : Call} (hok : CallOk s c) :
    ∃ ret s', s.call c = some (ret, s') ∧ s'.Inv ∧ c.Reports s ret s' := by
  cases c with
  | getDev d num driverData o =>
    obtain ⟨ret, s', hcall, hinv, hdone⟩ := h.getDev hok
    refine ⟨ret, s', hcall, hinv, fun d' num' driverData' o' heq => ?_⟩
    cases heq
    exact hdone
  | putDev d freeMem =>
    obtain ⟨s', hcall, hinv⟩ := h.putDev hok
    refine ⟨0, s', hcall, hinv, fun d' num' driverData' o' heq => ?_⟩
    cases heq

theorem Devices.Inv.balanced {s : Devices} (h : s.Inv) : s.Balanced where
  live id := by
    rw [Idr.used_iff, h.owns.ids.mem_iff, List.mem_map]
    constructor
    · intro ⟨minor, hminor, hindex⟩
      obtain ⟨d, hd, hminor⟩ := List.mem_flatMap.1 hminor
      exact ⟨d, hd, minor, hminor, hindex⟩
    · intro ⟨d, hd, minor, hminor, hindex⟩
      exact ⟨minor, List.mem_flatMap.2 ⟨d, hd, hminor⟩, hindex⟩
  ids := h.owns.ids.nodup_iff.1 h.owns.padded.1
  created n := by
    rw [← List.mem_append, h.owns.nums.mem_iff, List.mem_range]
  released := h.owns.nums.nodup_iff.2 List.nodup_range

theorem run_inv {drivers : Nat → DrmDriver} {ls : List (Call × Int)} {s : Devices}
    (h : Lib.Run CallStep (Devices.init drivers) ls s) : s.Inv := by
  refine h.inv (I := Devices.Inv) (init_inv drivers) fun t l u ht hstep => ?_
  obtain ⟨hok, hcall⟩ := hstep
  obtain ⟨ret, s', hcall', hinv, -⟩ := ht.call hok
  rw [hcall] at hcall'
  cases hcall'
  exact hinv

/-- **The ids in use are those of the registered devices.** In every state that calls under the
conditions lead to, each minor created is one of a registered device or was released once; the next
call does not release a minor that is not there, and does not return 0 where a step has failed. The
devices of one driver share its features. -/
theorem devices_balanced {drivers : Nat → DrmDriver} {ls : List (Call × Int)} {s : Devices}
    (h : Lib.Run CallStep (Devices.init drivers) ls s) :
    s.Balanced ∧ ∀ c, CallOk s c → ∃ ret s', s.call c = some (ret, s') ∧ c.Reports s ret s' := by
  have hinv := run_inv h
  refine ⟨hinv.balanced, fun c hok => ?_⟩
  obtain ⟨ret, s', hcall, -, hdone⟩ := hinv.call hok
  exact ⟨ret, s', hcall, hdone⟩

/-- A minor is created. -/
def minorCreated : GetMinor := ⟨true, true, true, 0⟩

/-- A device is registered. -/
def deviceDone : GetDev :=
  ⟨0, 0, true, minorCreated, minorCreated, minorCreated, minorCreated, none, true, fun _ => true⟩

/-- The driver of i915, whose `driver_data` is the generation: there is no AGP from the sixth on. -/
def i915Driver : DrmDriver where
  driverFeatures := driverUseAgp ||| driverGem ||| driverModeset
  agpSupportDetect := some fun gen features =>
    if 6 ≤ gen then features &&& ~~~driverUseAgp else features

/-- The state before the first call. -/
def noDevice : Devices := Devices.init fun _ => i915Driver

/-- The device `d` of the generation `gen` is registered. -/
def registerGen (d gen : Nat) : Call := .getDev d 0 gen deviceDone

/-- The state behind a call. -/
def Devices.after (s : Devices) (c : Call) : Devices := ((s.call c).map Prod.snd).getD s

theorem registerGen_ok {s : Devices} {d gen : Nat} (hd : d ∉ s.registered)
    (hvgatext : drmCoreHasAGP (s.drivers 0) →
      ∃ minor m, drmGetMinor s.minors (s.devs d).vgatext .vgatext minorCreated = some (0, minor, m))
    (hagp : ¬ drmCoreHasAGP ((s.drivers 0).detected gen)) : CallOk s (registerGen d gen) where
  unregistered := hd
  workqueue _ _ := rfl
  vgatext _ := hvgatext
  agpmaster _ _ _ _ h := absurd h hagp
  getMem := ⟨rfl, rfl, rfl, rfl⟩
  putMem _ := rfl

/-- Two devices without AGP are registered, and the first is put. -/
def onePut : Devices :=
  ((noDevice.after (registerGen 0 6)).after (registerGen 1 7)).after (.putDev 0 fun _ => true)

theorem onePut_run : Lib.Run CallStep noDevice
    [(registerGen 0 6, 0), (registerGen 1 7, 0), (.putDev 0 fun _ => true, 0)] onePut := by
  have hfirst : Lib.Run CallStep noDevice [(registerGen 0 6, 0)]
      (noDevice.after (registerGen 0 6)) :=
    .snoc .nil ⟨registerGen_ok List.not_mem_nil (fun _ => ⟨_, _, rfl⟩) (by decide), rfl⟩
  have hsecond : Lib.Run CallStep noDevice [(registerGen 0 6, 0), (registerGen 1 7, 0)]
      ((noDevice.after (registerGen 0 6)).after (registerGen 1 7)) :=
    .snoc hfirst ⟨registerGen_ok (by decide) (fun h => absurd h (by decide)) (by decide), rfl⟩
  exact .snoc hsecond ⟨⟨by decide, fun _ => rfl, rfl, rfl⟩, rfl⟩

theorem devices_balanced_put : onePut.Balanced ∧ onePut.registered = [1] ∧
    onePut.owned.map DrmMinor.index = [1, 65, 385] ∧ onePut.minors.released.length = 3 :=
  ⟨(devices_balanced onePut_run).1, rfl, rfl, rfl⟩

/-- A device with AGP is registered, then one without, and the first is put. -/
def agpLost : Devices :=
  ((noDevice.after (registerGen 0 5)).after (registerGen 1 6)).after (.putDev 0 fun _ => true)

/-- Where the AGP minor is not created, the vgatext minor is lost; where the vgatext minor is not,
an AGP minor is released that is not there; without a workqueue the device is registered; and where
a device without AGP is registered behind one with AGP, the AGP minor of this one is lost. -/
theorem getDev_unbalanced :
    (∃ s, noDevice.call (.getDev 0 0 5
        { deviceDone with agpmaster := { minorCreated with sysfs := -1 } }) = some (-1, s) ∧
      s.registered = [] ∧ s.minors.drmMinorsIdr.Used 384) ∧
    noDevice.call (.getDev 0 0 5
      { deviceDone with vgatext := { minorCreated with sysfs := EFAULT } }) = none ∧
    (∃ s, noDevice.call (.getDev 0 0 5 { deviceDone with workqueue := false }) = some (0, s)) ∧
    ∃ s t, noDevice.call (registerGen 0 5) = some (0, s) ∧
      s.call (registerGen 1 6) = some (0, t) ∧
      t.call (.putDev 0 fun _ => true) = some (0, agpLost) ∧ agpLost.registered = [1] ∧
      agpLost.minors.drmMinorsIdr.Used 448 ∧ ¬ agpLost.Balanced := by
  have hused : agpLost.minors.drmMinorsIdr.Used 448 := by decide
  have howned : 448 ∉ agpLost.owned.map DrmMinor.index := by decide
  refine ⟨⟨_, rfl, rfl, by decide⟩, rfl, ⟨_, rfl⟩, _, _, rfl, rfl, rfl, rfl, hused, fun h => ?_⟩
  obtain ⟨d, hd, minor, hminor, hindex⟩ := (h.live 448).1 hused
  exact howned (List.mem_map.2 ⟨minor, List.mem_flatMap.2 ⟨d, hd, hminor⟩, hindex⟩)

end Drm.Stub
