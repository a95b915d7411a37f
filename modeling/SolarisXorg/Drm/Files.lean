import Mathlib.Algebra.Group.Nat.Defs
import SolarisXorg.Drm.Idr

/-!
# Open files and masters (`drm_sunmod.c`, `drm_fops.c`, `drm_stub.c`)

One minor of a device: the table `clone_idr` of its open files, the device's `filelist` and
`open_count`, and the `drm_master` structures that its files share. Calls come one after the other.
What the driver's hooks, `kmalloc` and the idr's allocations answer is part of the call.

`live` lists the `drm_file` structures that are allocated, `master` the `drm_master` structures.
`others` are the files that are open on other minors of the device. `opened` is what the system
keeps: the clone ids that `drm_sun_open` has returned and that are not closed yet; the other calls
come for these only. `fault` is set when a null pointer or a structure that is freed is used.
-/

namespace Drm

/-- `struct drm_file`, with the clone id it was opened under. -/
structure DrmFile where
  cloneId : Nat
  isMaster : Bool
  authenticated : Bool
  master : Option Nat
  deriving DecidableEq, Repr

/-- The device, seen from one minor. -/
structure DrmDev where
  /-- `minor->master` -/
  minorMaster : Option Nat
  /-- `minor->clone_idr` -/
  cloneIdr : Idr Nat
  /-- `refcount` of the allocated masters -/
  master : Nat → Option (BitVec 32)
  file : Nat → DrmFile
  live : List Nat
  others : List Nat
  filelist : List Nat
  openCount : Int
  opened : List Nat
  fault : Bool

/-- `kref_get` of a master; the flag is whether it is freed already. -/
def mastersGet (master : Nat → Option (BitVec 32)) (m : Nat) :
    (Nat → Option (BitVec 32)) × Bool :=
  match master m with
  | some refcount => (Function.update master m (some (refcount + 1)), false)
  | none => (master, true)

/-- `kref_put` of a master, with `drm_master_destroy`; the flag is whether the pointer is null or
the master is freed already. -/
def mastersPut (master : Nat → Option (BitVec 32)) :
    Option Nat → (Nat → Option (BitVec 32)) × Bool
  | none => (master, true)
  | some m =>
    match master m with
    | some refcount =>
      (Function.update master m (if refcount - 1 = 0 then none else some (refcount - 1)), false)
    | none => (master, true)

/-- `DRM_CLONEID_MAX`, an `int`. -/
structure CloneLimit where
  max : Nat
  fits : max < 2 ^ 31

/-- `drm_sun_open` and what it meets. -/
structure OpenCall where
  /-- `FEXCL` -/
  excl : Bool
  /-- `DRM_SWITCH_POWER_ON` -/
  powerOn : Bool
  /-- `DRM_SUSER` -/
  suser : Bool
  /-- the `drm_file` that `kmalloc` returns -/
  priv : Option Nat
  /-- the `drm_master` that `kzalloc` returns -/
  newMaster : Option Nat
  /-- the hooks `open`, `master_create` and `master_set`, and `drm_setup`, succeed -/
  driverOpen : Bool
  masterCreate : Bool
  masterSet : Bool
  setup : Bool
  /-- the allocations of `idr_get_new_above` and `idr_remove` succeed -/
  memNew : Bool
  memRemove : Bool
  deriving DecidableEq, Repr

namespace DrmDev

variable (s : DrmDev)

def setFile (p : Nat) (f : DrmFile) : DrmDev := { s with file := Function.update s.file p f }

/-! ## Masters -/

/-- `drm_master_get` -/
def masterGet (m : Nat) : DrmDev :=
  { s with
    master := (mastersGet s.master m).1
    fault := s.fault || (mastersGet s.master m).2 }

/-- `kref_put` of `drm_master_put` -/
def masterPut (m : Option Nat) : DrmDev :=
  { s with
    master := (mastersPut s.master m).1
    fault := s.fault || (mastersPut s.master m).2 }

/-- `drm_master_put(&minor->master)` -/
def putMinorMaster : DrmDev := { s.masterPut s.minorMaster with minorMaster := none }

/-- `drm_master_put(&file->master)` -/
def putFileMaster (p : Nat) : DrmDev :=
  (s.masterPut (s.file p).master).setFile p { s.file p with master := none }

/-- `drm_master_create`, and the references of the minor and of the file to the new master. -/
def masterCreate (p m : Nat) : DrmDev :=
  let s := { s with
    master := Function.update s.master m (some 1)
    minorMaster := some m }
  (s.masterGet m).setFile p
    { s.file p with isMaster := true, authenticated := true, master := some m }

/-! ## Opening -/

/-- `kfree(priv)` -/
def freeFile (p : Nat) : DrmDev := { s with live := s.live.erase p }

/-- The file that `drm_open_helper` allocates, known to `clone_idr`. -/
def newFile (id p : Nat) (suser : Bool) : DrmDev :=
  { s.setFile p ⟨id, false, suser, none⟩ with
    live := p :: s.live
    cloneIdr := (idrReplace s.cloneIdr (some p) id).2 }

end DrmDev

/-- `drm_open_helper`; the flag is whether it returns 0. -/
def drmOpenHelper (s : DrmDev) (id : Nat) (c : OpenCall) : DrmDev × Bool :=
  if c.excl || !c.powerOn then (s, false)
  else
    match c.priv with
    | none => (s, false)
    | some p =>
      let s := s.newFile id p c.suser
      if !c.driverOpen then (s.freeFile p, false)
      else
        match s.minorMaster with
        | none =>
          match c.newMaster with
          | none => (s.freeFile p, false)
          | some m =>
            let s := s.masterCreate p m
            if c.masterCreate && c.masterSet then ({ s with filelist := p :: s.filelist }, true)
            else ((s.putMinorMaster.putFileMaster p).freeFile p, false)
        | some m =>
          let s := (s.masterGet m).setFile p { s.file p with master := some m }
          ({ s with filelist := p :: s.filelist }, true)

/-- `drm_open` -/
def drmOpen (s : DrmDev) (id : Nat) (c : OpenCall) : DrmDev × Bool :=
  let (s, ok) := drmOpenHelper s id c
  if ok then
    ({ s with openCount := s.openCount + 1 }, if s.openCount = 0 then c.setup else true)
  else (s, false)

/-- `idr_remove` of a clone id, the return value ignored. -/
def dropCloneId (s : DrmDev) (id : Nat) (mem : Bool) : Option DrmDev :=
  (idrRemove s.cloneIdr id mem).map fun (_, idr) => { s with cloneIdr := idr }

/-- `drm_sun_open`; `none` is a panic of the idr. -/
def drmSunOpen (limit : CloneLimit) (s : DrmDev) (c : OpenCall) : Option DrmDev := do
  let (ret, idr) ← idrGetNewAbove s.cloneIdr none 0 c.memNew
  let s := { s with cloneIdr := idr }
  match ret with
  | .error _ => some s
  | .ok id =>
    if limit.max < id then dropCloneId s id c.memRemove
    else
      let (s, ok) := drmOpen s id c
      if ok then some { s with opened := id :: s.opened }
      else dropCloneId s id c.memRemove

/-! ## Closing -/

/-- `drm_release`; the flag is whether it returns 0, `busy` whether `ioctl_count` is not 0. -/
def drmRelease (s : DrmDev) (p : Nat) (busy : Bool) : DrmDev × Bool :=
  let f := s.file p
  -- the other files of the master lose their authentication
  let s₁ := if f.isMaster then
      { s with file := fun q =>
          if q ∈ s.filelist ∧ (s.file q).master = f.master ∧ q ≠ p then
            { s.file q with authenticated := false }
          else s.file q }
    else s
  let s₂ := if f.isMaster && s₁.minorMaster == f.master then s₁.putMinorMaster else s₁
  let s₃ := s₂.putFileMaster p
  let s₄ := s₃.setFile p { s₃.file p with isMaster := false }
  ({ s₄.freeFile p with
      filelist := s₄.filelist.erase p
      openCount := s₄.openCount - 1
      fault := s₄.fault || decide (p ∉ s.live) },
    !(decide (s₄.openCount - 1 = 0) && busy))

/-- `drm_sun_close` -/
def drmSunClose (s : DrmDev) (id : Nat) (busy mem : Bool) : Option DrmDev :=
  let s := { s with opened := s.opened.erase id }
  match idrFind s.cloneIdr id with
  | none => some s
  | some p =>
    let (s, ok) := drmRelease s p busy
    if ok then dropCloneId s id mem else some s

/-! ## The master calls -/

/-- `drm_setmaster_ioctl`; `masterSet` is whether the hook succeeds. -/
def drmSetmasterIoctl (s : DrmDev) (p : Nat) (masterSet : Bool) : DrmDev :=
  let f := s.file p
  if f.isMaster then s
  else if s.minorMaster ≠ none ∧ s.minorMaster ≠ f.master then s
  else
    match f.master with
    | none => s
    | some m =>
      if s.minorMaster = none then
        let s := { s.masterGet m with minorMaster := some m }
        if masterSet then s.setFile p { f with isMaster := true } else s.putMinorMaster
      else s

/-- `drm_dropmaster_ioctl` -/
def drmDropmasterIoctl (s : DrmDev) (p : Nat) : DrmDev :=
  let f := s.file p
  if !f.isMaster then s
  else if s.minorMaster = none then s
  else s.putMinorMaster.setFile p { f with isMaster := false }

/-! ## Runs -/

/-- A call on the minor. -/
inductive FilesCall
  | sunOpen (call : OpenCall)
  | sunClose (id : Nat) (busy mem : Bool)
  | setmaster (id : Nat) (masterSet : Bool)
  | dropmaster (id : Nat)
  deriving DecidableEq, Repr

/-- The call can come: memory that is handed out is free, and a clone id is one that is open. -/
def FilesCall.Comes (s : DrmDev) : FilesCall → Prop
  | .sunOpen c =>
    (∀ p, c.priv = some p → p ∉ s.live ∧ p ∉ s.others) ∧
      ∀ m, c.newMaster = some m → s.master m = none
  | .sunClose id _ _ => id ∈ s.opened
  | .setmaster id _ => id ∈ s.opened
  | .dropmaster id => id ∈ s.opened

/-- The device after a call; `none` is a panic. A call on a clone id without a file returns
`EBADF`. -/
def filesCall (limit : CloneLimit) (s : DrmDev) : FilesCall → Option DrmDev
  | .sunOpen c => drmSunOpen limit s c
  | .sunClose id busy mem => drmSunClose s id busy mem
  | .setmaster id masterSet =>
    match idrFind s.cloneIdr id with
    | none => some s
    | some p => some (drmSetmasterIoctl s p masterSet)
  | .dropmaster id =>
    match idrFind s.cloneIdr id with
    | none => some s
    | some p => some (drmDropmasterIoctl s p)

/-- One call. -/
def filesStep (limit : CloneLimit) (s : DrmDev) (c : FilesCall) (t : DrmDev) : Prop :=
  c.Comes s ∧ filesCall limit s c = some t

/-- A minor that is not open, on a device with the files `others`. -/
def filesInit (others : List Nat) (file : Nat → DrmFile) : DrmDev where
  minorMaster := none
  cloneIdr := idrInit
  master _ := none
  file := file
  live := []
  others := others
  filelist := others
  openCount := others.length
  opened := []
  fault := false

/-- The call keeps the tables together: `drm_setup` does not fail at the first open, no ioctl is in
progress at the last close, and `idr_remove` gets its memory. -/
def FilesCall.Clean (s : DrmDev) : FilesCall → Prop
  | .sunOpen c => c.memRemove = true ∧ (s.openCount = 0 → c.setup = true)
  | .sunClose _ busy mem => mem = true ∧ ¬ (s.openCount = 1 ∧ busy = true)
  | .setmaster _ _ => True
  | .dropmaster _ => True

/-- The live files whose `master` is `m`. -/
def DrmDev.filesOf (s : DrmDev) (m : Nat) : Nat :=
  s.live.countP fun p => (s.file p).master == some m

/-- The references to a master: those of the files, and that of the minor. -/
def DrmDev.masterRefs (s : DrmDev) (m : Nat) : Nat :=
  s.filesOf m + if s.minorMaster = some m then 1 else 0

end Drm
