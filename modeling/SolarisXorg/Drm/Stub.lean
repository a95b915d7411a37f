import SolarisXorg.Drm.Idr

/-!
# Registration of devices (`drm_stub.c`)

`drm_get_dev` creates the minors of a device, one after the other, each with an id from
`drm_minors_idr`; `drm_put_dev` and the labels behind which `drm_get_dev` unwinds release them
again. What may fail in a call is an argument of it. A call has no result where the kernel panics,
which is where `drm_put_minor` is called for a minor that is not there (or where an idr would
panic).

There is one `struct drm_driver` for all the devices of a driver, and `agp_support_detect` of one of
them changes the features of all of them.

A minor has a number, by which it is told from all others that were created. `created` and
`released` are what `drm_get_minor` and `drm_put_minor` have done so far.
-/

namespace Drm.Stub

/-! ## Minors -/

/-- `DRM_MINOR_LEGACY` and so on, the types of minors. -/
inductive MinorType where
  | legacy | control | render | vgatext | agpmaster
  deriving DecidableEq

/-- `DRM_MINOR_ID_BASE_LEGACY` and so on. -/
def MinorType.base : MinorType → Int32
  | legacy => 0
  | control => 64
  | render => 128
  | vgatext => 384
  | agpmaster => 448

/-- `DRM_MINOR_ID_LIMIT_LEGACY` and so on. -/
def MinorType.limit : MinorType → Nat
  | legacy => 63
  | control => 127
  | render => 383
  | vgatext => 447
  | agpmaster => 511

/-- `struct drm_minor` -/
structure DrmMinor where
  num : Nat
  type : MinorType
  index : Nat
  deriving DecidableEq

/-- `drm_minors_idr`, with the minors created and released so far. -/
structure Minors where
  drmMinorsIdr : Idr Nat
  created : Nat
  released : List Nat

/-- What the calls in `drm_get_minor` come to: memory for the node of a used id and, where the id is
given back, of a free one; memory for the minor; and the value of `drm_sysfs_device_add`. -/
structure GetMinor where
  usedMem : Bool
  freeMem : Bool
  kzalloc : Bool
  sysfs : Int

/-- `drm_minor_get_id` -/
def drmMinorGetId (idr : Idr Nat) (type : MinorType) (o : GetMinor) :
    Option (Except Int Nat × Idr Nat) :=
  (idrGetNewAbove idr none type.base o.usedMem).bind fun r =>
    match r.1 with
    | .error ret => some (.error ret, r.2)
    | .ok newId =>
      if type.limit < newId then
        (idrRemove r.2 newId o.freeMem).map fun r => (.error (-EINVAL), r.2)
      else some (.ok newId, r.2)

/-- `drm_get_minor`: its value, and `*minor` afterwards. -/
def drmGetMinor (m : Minors) (minor : Option DrmMinor) (type : MinorType) (o : GetMinor) :
    Option (Int × Option DrmMinor × Minors) :=
  (drmMinorGetId m.drmMinorsIdr type o).bind fun r =>
    match r.1 with
    | .error minorId => some (minorId, minor, { m with drmMinorsIdr := r.2 })
    | .ok minorId =>
      if o.kzalloc then
        let newMinor : DrmMinor := { num := m.created, type := type, index := minorId }
        let idr := (idrReplace r.2 (some newMinor.num) minorId).2
        if o.sysfs = 0 then
          some (0, some newMinor, { m with drmMinorsIdr := idr, created := m.created + 1 })
        else
          (idrRemove idr minorId o.freeMem).map fun r =>
            (o.sysfs, none, { m with drmMinorsIdr := r.2 })
      else
        (idrRemove r.2 minorId o.freeMem).map fun r =>
          (-ENOMEM, none, { m with drmMinorsIdr := r.2 })

/-- `drm_put_minor`, behind which `*minor_p` is NULL; `freeMem` is memory for the node of the free
id. -/
def drmPutMinor (m : Minors) (minorP : Option DrmMinor) (freeMem : Bool) : Option Minors :=
  minorP.bind fun minor =>
    (idrRemove m.drmMinorsIdr minor.index freeMem).map fun r =>
      { m with drmMinorsIdr := r.2, released := m.released ++ [minor.num] }

/-! ## Devices -/

/-- `DRIVER_USE_AGP` -/
def driverUseAgp : UInt32 := 0x1

/-- `DRIVER_GEM` -/
def driverGem : UInt32 := 0x1000

/-- `DRIVER_MODESET` -/
def driverModeset : UInt32 := 0x2000

/-- `struct drm_driver`; `agp_support_detect`, if there is one, is what it makes of the features for
the `driver_data` of a device. -/
structure DrmDriver where
  driverFeatures : UInt32
  agpSupportDetect : Option (Nat → UInt32 → UInt32)

/-- The driver as `agp_support_detect` leaves it. -/
def DrmDriver.detected (driver : DrmDriver) (driverData : Nat) : DrmDriver :=
  match driver.agpSupportDetect with
  | none => driver
  | some detect => { driver with driverFeatures := detect driverData driver.driverFeatures }

/-- `struct drm_device`; `driver` is the number of its driver. -/
structure DrmDevice where
  driver : Nat
  vgatext : Option DrmMinor
  agpmaster : Option DrmMinor
  control : Option DrmMinor
  primary : Option DrmMinor

/-- `drm_core_check_feature`, for the driver of the device. -/
def drmCoreCheckFeature (driver : DrmDriver) (feature : UInt32) : Bool :=
  driver.driverFeatures &&& feature ≠ 0

/-- `drm_core_has_AGP` -/
def drmCoreHasAGP (driver : DrmDriver) : Bool := drmCoreCheckFeature driver driverUseAgp

/-- What the calls in `drm_get_dev` come to: the values of `drm_ctxbitmap_init`, `drm_gem_init` and
of the load hook, if there is one; whether there is a workqueue and `drm_init_kstats` succeeds; the
calls for the minors; and memory for the nodes of free ids, where they are released. -/
structure GetDev where
  ctxbitmap : Int
  gem : Int
  workqueue : Bool
  vgatext : GetMinor
  agpmaster : GetMinor
  control : GetMinor
  primary : GetMinor
  load : Option Int
  kstats : Bool
  freeMem : MinorType → Bool

/-- `drm_fill_in_dev`. Where the workqueue is not created, `retcode` is that of the call before. -/
def drmFillInDev (driver : DrmDriver) (o : GetDev) : Int :=
  let retcode := o.ctxbitmap
  if retcode ≠ 0 then retcode
  else if drmCoreCheckFeature driver driverGem then
    let retcode := o.gem
    if retcode ≠ 0 then retcode
    else if o.workqueue then 0
    else retcode
  else if o.workqueue then 0
  else retcode

section

variable (driver : DrmDriver) (freeMem : MinorType → Bool)

/-- Behind `err_g2`. -/
def errG2 (m : Minors) (dev : DrmDevice) (ret : Int) : Option (Int × DrmDevice × Minors) :=
  if drmCoreHasAGP driver then
    (drmPutMinor m dev.agpmaster (freeMem .agpmaster)).map fun m =>
      (ret, { dev with agpmaster := none }, m)
  else some (ret, dev, m)

/-- Behind `err_g3`. -/
def errG3 (m : Minors) (dev : DrmDevice) (ret : Int) : Option (Int × DrmDevice × Minors) :=
  (drmPutMinor m dev.vgatext (freeMem .vgatext)).bind fun m =>
    errG2 driver freeMem m { dev with vgatext := none } ret

/-- Behind `err_g4`. -/
def errG4 (m : Minors) (dev : DrmDevice) (ret : Int) : Option (Int × DrmDevice × Minors) :=
  if drmCoreCheckFeature driver driverModeset then
    (drmPutMinor m dev.control (freeMem .control)).bind fun m =>
      errG3 driver freeMem m { dev with control := none } ret
  else errG3 driver freeMem m dev ret

/-- Behind `err_g5`. -/
def errG5 (m : Minors) (dev : DrmDevice) (ret : Int) : Option (Int × DrmDevice × Minors) :=
  (drmPutMinor m dev.primary (freeMem .legacy)).bind fun m =>
    errG4 driver freeMem m { dev with primary := none } ret

end

/-- `EFAULT` -/
def EFAULT : Int := 14

section

variable (driver : DrmDriver) (m : Minors) (dev : DrmDevice) (o : GetDev)

/-- `drm_get_dev` from the load hook on. -/
def getDevLoad : Option (Int × DrmDevice × Minors) :=
  let ret := o.load.getD 0
  if ret ≠ 0 then errG5 driver o.freeMem m dev ret
  else if o.kstats then some (0, dev, m)
  else errG5 driver o.freeMem m dev EFAULT

/-- `drm_get_dev` from the legacy minor on. -/
def getDevPrimary : Option (Int × DrmDevice × Minors) :=
  (drmGetMinor m dev.primary .legacy o.primary).bind fun r =>
    let dev := { dev with primary := r.2.1 }
    if r.1 ≠ 0 then errG4 driver o.freeMem r.2.2 dev r.1 else getDevLoad driver r.2.2 dev o

/-- `drm_get_dev` from the control minor on. -/
def getDevControl : Option (Int × DrmDevice × Minors) :=
  if drmCoreCheckFeature driver driverModeset then
    (drmGetMinor m dev.control .control o.control).bind fun r =>
      let dev := { dev with control := r.2.1 }
      if r.1 ≠ 0 then errG3 driver o.freeMem r.2.2 dev r.1 else getDevPrimary driver r.2.2 dev o
  else getDevPrimary driver m dev o

/-- `drm_get_dev` from the AGP minor on. -/
def getDevAgp : Option (Int × DrmDevice × Minors) :=
  if drmCoreHasAGP driver then
    (drmGetMinor m dev.agpmaster .agpmaster o.agpmaster).bind fun r =>
      let dev := { dev with agpmaster := r.2.1 }
      if r.1 ≠ 0 then some (r.1, dev, r.2.2) else getDevControl driver r.2.2 dev o
  else getDevControl driver m dev o

/-- `drm_get_dev` for the driver with the number `num`, and the driver afterwards. -/
def drmGetDev (num driverData : Nat) : Option (DrmDriver × Int × DrmDevice × Minors) :=
  let dev := { dev with driver := num }
  let ret := drmFillInDev driver o
  if ret ≠ 0 then some (driver, ret, dev, m)
  else
    (drmGetMinor m dev.vgatext .vgatext o.vgatext).bind fun r =>
      let dev := { dev with vgatext := r.2.1 }
      if r.1 ≠ 0 then (errG2 driver o.freeMem r.2.2 dev r.1).map (driver, ·)
      else
        let driver := driver.detected driverData
        (getDevAgp driver r.2.2 dev o).map (driver, ·)

end

/-- `drm_put_dev`, as far as it is about the minors. -/
def drmPutDev (driver : DrmDriver) (m : Minors) (dev : DrmDevice) (freeMem : MinorType → Bool) :
    Option (DrmDevice × Minors) :=
  (drmPutMinor m dev.vgatext (freeMem .vgatext)).bind fun m =>
  (if drmCoreHasAGP driver then drmPutMinor m dev.agpmaster (freeMem .agpmaster) else some m).bind
    fun m =>
  (if drmCoreCheckFeature driver driverModeset then drmPutMinor m dev.control (freeMem .control)
    else some m).bind fun m =>
  (drmPutMinor m dev.primary (freeMem .legacy)).map fun m =>
    let agpmaster := if drmCoreHasAGP driver then none else dev.agpmaster
    let control := if drmCoreCheckFeature driver driverModeset then none else dev.control
    ({ dev with vgatext := none, agpmaster := agpmaster, control := control, primary := none }, m)

/-! ## Calls for all devices -/

/-- The devices, and the drivers that they share; `registered` are the devices whose `drm_get_dev`
returned 0 and that were not put. -/
structure Devices where
  minors : Minors
  drivers : Nat → DrmDriver
  devs : Nat → DrmDevice
  registered : List Nat

inductive Call where
  | getDev (d num driverData : Nat) (o : GetDev)
  | putDev (d : Nat) (freeMem : MinorType → Bool)

/-- The driver of a device. -/
def Devices.driver (s : Devices) (d : Nat) : DrmDriver := s.drivers (s.devs d).driver

/-- A call, and its value. -/
def Devices.call (s : Devices) : Call → Option (Int × Devices)
  | .getDev d num driverData o =>
    (drmGetDev (s.drivers num) s.minors (s.devs d) o num driverData).map fun r =>
      (r.2.1, { minors := r.2.2.2, drivers := Function.update s.drivers num r.1,
                devs := Function.update s.devs d r.2.2.1,
                registered :=
                  if r.2.1 = (0 : Int) then d :: s.registered else s.registered })
  | .putDev d freeMem =>
    (drmPutDev (s.driver d) s.minors (s.devs d) freeMem).map fun r =>
      (0, { s with minors := r.2, devs := Function.update s.devs d r.1,
                   registered := s.registered.erase d })

/-- After `drm_core_init` and the initialisation of the drivers, with devices that were zeroed. -/
def Devices.init (drivers : Nat → DrmDriver) : Devices where
  minors := { drmMinorsIdr := idrInit, created := 0, released := [] }
  drivers := drivers
  devs _ := ⟨0, none, none, none, none⟩
  registered := []

/-- The minors of a device. -/
def DrmDevice.minors (dev : DrmDevice) : List DrmMinor :=
  dev.primary.toList ++ (dev.control.toList ++ (dev.vgatext.toList ++ dev.agpmaster.toList))

/-- The minors of the devices that are registered. -/
def Devices.owned (s : Devices) : List DrmMinor := s.registered.flatMap fun d => (s.devs d).minors

/-- The ids in use are those of the minors of the registered devices, and each of these has its own;
each minor created is either one of them and was not released, or was released once. -/
structure Devices.Balanced (s : Devices) : Prop where
  live : ∀ id, s.minors.drmMinorsIdr.Used id ↔
    ∃ d ∈ s.registered, ∃ minor ∈ (s.devs d).minors, minor.index = id
  ids : (s.owned.map DrmMinor.index).Nodup
  created : ∀ n, n ∈ s.owned.map DrmMinor.num ∨ n ∈ s.minors.released ↔ n < s.minors.created
  released : (s.owned.map DrmMinor.num ++ s.minors.released).Nodup

/-- All steps of `drm_get_dev` have succeeded; `driver` and `driver'` are the driver before and
after it. -/
structure GetDev.Done (o : GetDev) (dev : DrmDevice) (driver driver' : DrmDriver) : Prop where
  ctxbitmap : o.ctxbitmap = 0
  gem : drmCoreCheckFeature driver driverGem → o.gem = 0
  workqueue : o.workqueue = true
  vgatext : dev.vgatext ≠ none
  agpmaster : drmCoreHasAGP driver' → dev.agpmaster ≠ none
  control : drmCoreCheckFeature driver' driverModeset → dev.control ≠ none
  primary : dev.primary ≠ none
  load : ∀ ret ∈ o.load, ret = 0
  kstats : o.kstats = true

/-- Where a call of `drm_get_dev` returns 0, all its steps have succeeded. -/
def Call.Reports (s : Devices) (c : Call) (ret : Int) (s' : Devices) : Prop :=
  ∀ d num driverData o, c = .getDev d num driverData o → ret = 0 →
    o.Done (s'.devs d) (s.drivers num) (s'.drivers num)

/-! ## The calls that keep the balance -/

/-- The device is not registered. The workqueue is created, if `drm_fill_in_dev` gets there. If the
driver has AGP to begin with, the vgatext minor is created; if it has AGP behind
`agp_support_detect`, so is the AGP minor. There is memory for the nodes of free ids. -/
structure GetDevOk (s : Devices) (d num driverData : Nat) (o : GetDev) : Prop where
  unregistered : d ∉ s.registered
  workqueue : o.ctxbitmap = 0 → (drmCoreCheckFeature (s.drivers num) driverGem → o.gem = 0) →
    o.workqueue = true
  vgatext : drmFillInDev (s.drivers num) o = 0 → drmCoreHasAGP (s.drivers num) →
    ∃ minor m, drmGetMinor s.minors (s.devs d).vgatext .vgatext o.vgatext = some (0, minor, m)
  agpmaster : drmFillInDev (s.drivers num) o = 0 → ∀ minor m,
    drmGetMinor s.minors (s.devs d).vgatext .vgatext o.vgatext = some (0, minor, m) →
    drmCoreHasAGP ((s.drivers num).detected driverData) →
    ∃ minor' m', drmGetMinor m (s.devs d).agpmaster .agpmaster o.agpmaster = some (0, minor', m')
  getMem : o.vgatext.freeMem ∧ o.agpmaster.freeMem ∧ o.control.freeMem ∧ o.primary.freeMem
  putMem : ∀ type, o.freeMem type = true

/-- The device is registered, and there is memory for the nodes of free ids. Its driver has AGP
exactly if the device has an AGP minor, and sets modes exactly if it has a control minor: no
`agp_support_detect` for another device has changed that since it was registered. -/
structure PutDevOk (s : Devices) (d : Nat) (freeMem : MinorType → Bool) : Prop where
  registered : d ∈ s.registered
  mem : ∀ type, freeMem type = true
  agp : drmCoreHasAGP (s.driver d) = (s.devs d).agpmaster.isSome
  modeset : drmCoreCheckFeature (s.driver d) driverModeset = (s.devs d).control.isSome

def CallOk (s : Devices) : Call → Prop
  | .getDev d num driverData o => GetDevOk s d num driverData o
  | .putDev d freeMem => PutDevOk s d freeMem

/-- A call that keeps to the conditions. -/
def CallStep (s : Devices) (l : Call × Int) (s' : Devices) : Prop :=
  CallOk s l.1 ∧ s.call l.1 = some (l.2, s')

end Drm.Stub
