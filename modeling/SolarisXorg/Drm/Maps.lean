import Mathlib.Logic.Function.Basic
import SolarisXorg.Drm.Idr

/-!
# Maps (`drm_bufs.c`, `drm_stub.c`, `drm_sunmod.c`, `drm_gem.c`)

A map is known by an entry of `maplist` and by an id in `map_idr`, whose object is the entry; user
space has its `user_token`, which `drm_map_handle` computes from the id. The map of the SAREA holds
the hardware lock, and `lock.hw_lock` of a master points to it.

Pointers to entries, maps and masters are numbers; addresses of mapped memory are 64 bits, with 0 for
a null pointer. What the allocations answer is part of a request. A call that follows a null pointer,
or runs into a panic of the idr, has no result. `umem_cookie` and `mtrr` are left out. Calls come one
after the other.
-/

namespace Drm

def EPERM : Int := 1
def EBUSY : Int := 16
def ENOTSUP : Int := 48

/-! ## Tokens -/

/-- `newid << PAGE_SHIFT` of an `int`, stored in the `uint64_t` `user_token`. -/
def userToken (newid : Nat) : BitVec 64 := (BitVec.ofNat 32 newid <<< 12).signExtend 64

/-- `user_token >> PAGE_SHIFT` as the `uint32_t` id that the calls of the idr take. -/
def tokenId (token : BitVec 64) : Nat := ((token >>> 12).setWidth 32).toNat

/-- `drm_map_handle`: the new token of the entry `list`, or what is returned. -/
def drmMapHandle (mapIdr : Idr Nat) (list : Nat) (mem : Bool) :
    Option (Except Int (BitVec 64) × Idr Nat) :=
  (idrGetNewAbove mapIdr (some list) 1 mem).map fun (ret, idrp) => (ret.map userToken, idrp)

/-- `__find_local_map`: the entry whose map it returns. -/
def findLocalMap (mapIdr : Idr Nat) (offset : BitVec 64) : Option Nat :=
  idrFind mapIdr (tokenId offset)

/-- The call of `idr_remove` in `drm_rmmap_locked` and in `drm_gem_object_release`. -/
def mapIdrRemove (mapIdr : Idr Nat) (token : BitVec 64) (mem : Bool) : Option (Int × Idr Nat) :=
  idrRemove mapIdr (tokenId token) mem

/-- The id is live for the entry `list`. -/
def Idr.Live (mapIdr : Idr Nat) (newid list : Nat) : Prop :=
  { id := newid, obj := some list } ∈ mapIdr.usedIds

/-- The token of a live map leads back to its id: the map is found under the token, and it is its id
that is removed with it. -/
structure TokenFinds (mapIdr : Idr Nat) (newid list : Nat) : Prop where
  id : tokenId (userToken newid) = newid
  finds : findLocalMap mapIdr (userToken newid) = some list
  removes : ∀ mem idrp, mapIdrRemove mapIdr (userToken newid) mem = some (0, idrp) →
    ∀ id, idrp.Used id ↔ mapIdr.Used id ∧ id ≠ newid

/-- All tokens of live maps do, and they are different. -/
structure TokensOk (mapIdr : Idr Nat) : Prop where
  finds : ∀ newid list, mapIdr.Live newid list → TokenFinds mapIdr newid list
  inj : ∀ newid list newid' list', mapIdr.Live newid list → mapIdr.Live newid' list' →
    userToken newid = userToken newid' → newid = newid'

/-! ## Maps -/

/-- `enum drm_map_type`, with the numbers that no name has. -/
inductive DrmMapType
  | frameBuffer
  | registers
  | shm
  | agp
  | scatterGather
  | consistent
  | gem
  | other
  deriving DecidableEq, Repr

/-- `_DRM_CONTAINS_LOCK` -/
def drmContainsLock : BitVec 32 := 0x20

/-- `_DRM_REMOVABLE` -/
def drmRemovable : BitVec 32 := 0x40

/-- `_DRM_DRIVER` -/
def drmDriver : BitVec 32 := 0x80

/-- `struct drm_local_map` -/
structure DrmLocalMap where
  offset : BitVec 64
  size : BitVec 64
  type : DrmMapType
  flags : BitVec 32
  handle : BitVec 64
  deriving DecidableEq, Repr

/-- `struct drm_map_list`: its own address, the address of its map and the map. -/
structure DrmMapList where
  list : Nat
  addr : Nat
  map : DrmLocalMap
  userToken : BitVec 64
  master : Option Nat
  deriving DecidableEq, Repr

/-- The device. -/
structure MapDev where
  maplist : List DrmMapList
  mapIdr : Idr Nat
  /-- `primary->master` -/
  primaryMaster : Option Nat
  /-- `lock.hw_lock` of the masters that there are -/
  hwLock : Nat → Option (BitVec 64)

/-- What is fixed about a device: `agp->base` and `sg->virtual`, where it has them. -/
structure MapConfig where
  agpBase : Option (BitVec 64)
  sgVirtual : Option (BitVec 64)
  deriving DecidableEq, Repr

/-- The arguments of `drm_addmap_core` and what its allocations answer. `kmalloc` takes any answer,
as the tests of the source do; the `KM_SLEEP` of this kernel gives memory each time, while the node
of the idr is `KM_NOSLEEP`. -/
structure AddmapReq where
  offset : BitVec 64
  size : BitVec 64
  type : DrmMapType
  flags : BitVec 32
  /-- `kmalloc` of the map -/
  mapMem : Option Nat
  /-- `ioremap`, `ddi_umem_alloc` or `gfxp_alloc_kernel_space` -/
  space : BitVec 64
  /-- `gfxp_umem_cookie_init` -/
  cookie : Bool
  /-- `kmalloc` of the entry -/
  listMem : Option Nat
  /-- the node in `idr_get_new_above` -/
  idMem : Bool
  deriving DecidableEq, Repr

/-- `PAGE_ALIGN` -/
def pageAlign (size : BitVec 64) : BitVec 64 := (size + 4095) &&& ~~~4095

/-- The test of `drm_find_matching_map` for one entry. -/
def matchingMap (s : MapDev) (map : DrmLocalMap) (entry : DrmMapList) : Bool :=
  map.type = entry.map.type ∧ entry.master = s.primaryMaster ∧
    ((map.type = .shm ∧ map.flags = drmContainsLock) ∨
      ((map.type = .registers ∨ map.type = .frameBuffer) ∧
        entry.map.offset &&& 0xffffffff = map.offset &&& 0xffffffff) ∨
      entry.map.offset = map.offset)

/-- `drm_find_matching_map` -/
def drmFindMatchingMap (s : MapDev) (map : DrmLocalMap) : Option DrmMapList :=
  s.maplist.find? (matchingMap s map)

/-- `list->map->size = size` -/
def MapDev.setSize (s : MapDev) (addr : Nat) (size : BitVec 64) : MapDev :=
  { s with maplist := s.maplist.map fun e =>
      if e.addr = addr then { e with map := { e.map with size := size } } else e }

/-- `primary->master->lock.hw_lock = handle` -/
def MapDev.setHwLock (s : MapDev) (m : Nat) (handle : BitVec 64) : MapDev :=
  { s with hwLock := Function.update s.hwLock m (some handle) }

/-- The first part of `drm_addmap_core`, before the `switch`. -/
def AddmapReq.checkMap (r : AddmapReq) : Except Int DrmLocalMap :=
  if r.mapMem.isNone then .error (-ENOMEM)
  else if r.flags &&& drmRemovable ≠ 0 ∧ r.type ≠ .shm then .error (-EINVAL)
  else
    let size := if r.type = .shm then pageAlign r.size else r.size
    if r.offset &&& 4095 ≠ 0 ∨ size &&& 4095 ≠ 0 then .error (-EINVAL)
    else if r.offset + size < r.offset then .error (-EINVAL)
    else .ok { offset := r.offset, size := size, type := r.type, flags := r.flags, handle := 0 }

/-- How the `switch` of `drm_addmap_core` ends. -/
inductive MapSwitch
  /-- `return ret` -/
  | fail (ret : Int)
  /-- `*maplist = list; return 0` for an entry that is there -/
  | found (s : MapDev) (list : Nat)
  /-- with the device and the map for a new entry -/
  | ready (s : MapDev) (map : DrmLocalMap)

/-- `_DRM_SHM` without a matching map -/
def addmapShm (s : MapDev) (r : AddmapReq) (map : DrmLocalMap) : Option MapSwitch :=
  if r.space = 0 then some (.fail (-ENOMEM))
  else
    let map := { map with handle := r.space, offset := r.space }
    if map.flags &&& drmContainsLock ≠ 0 then do
      let m ← s.primaryMaster
      let lock ← s.hwLock m
      if lock ≠ 0 then some (.fail (-EBUSY)) else some (.ready (s.setHwLock m r.space) map)
    else some (.ready s map)

/-- The `switch` of `drm_addmap_core`. -/
def addmapSwitch (cfg : MapConfig) (s : MapDev) (r : AddmapReq) (map : DrmLocalMap) :
    Option MapSwitch :=
  match map.type with
  | .registers | .frameBuffer =>
    match drmFindMatchingMap s map with
    | some entry => some (.found (s.setSize entry.addr map.size) entry.list)
    | none =>
      if map.type = .registers then
        if r.space = 0 then some (.fail (-ENOMEM))
        else some (.ready s { map with handle := r.space })
      else some (.ready s map)
  | .shm =>
    match drmFindMatchingMap s map with
    | some entry => some (.found (s.setSize entry.addr map.size) entry.list)
    | none => addmapShm s r map
  | .agp =>
    match cfg.agpBase with
    | none => some (.fail (-EINVAL))
    | some base =>
      if r.space = 0 then some (.fail (-EPERM))
      else if !r.cookie then some (.fail (-ENOMEM))
      else some (.ready s { map with offset := map.offset + base, handle := r.space })
  | .gem => some (.ready s map)
  | .scatterGather =>
    match cfg.sgVirtual with
    | none => some (.fail (-EINVAL))
    | some base =>
      if !r.cookie then some (.fail (-ENOMEM))
      else some (.ready s { map with offset := map.offset + base, handle := map.offset + base })
  | .consistent => some (.fail (-ENOTSUP))
  | .other => some (.fail (-EINVAL))

/-- `drm_addmap_core` up to the allocation of the entry. -/
def addmapPrepare (cfg : MapConfig) (s : MapDev) (r : AddmapReq) : Option MapSwitch :=
  match r.checkMap with
  | .error ret => some (.fail ret)
  | .ok map => addmapSwitch cfg s r map

/-- The last part of `drm_addmap_core`. The entry stays on `maplist` when `drm_map_handle` fails,
although it is freed. -/
def addmapLink (s : MapDev) (r : AddmapReq) (map : DrmLocalMap) : Option (Int × MapDev) :=
  match r.listMem with
  | none => some (-EINVAL, s)
  | some list =>
    let e : DrmMapList :=
      { list := list, addr := r.mapMem.getD 0, map := map, userToken := 0, master := none }
    (drmMapHandle s.mapIdr list r.idMem).map fun (ret, idrp) =>
      match ret with
      | .error ret => (ret, { s with maplist := e :: s.maplist, mapIdr := idrp })
      | .ok token =>
        let master := if map.flags &&& drmDriver = 0 then s.primaryMaster else none
        (0,
          { s with
            maplist := { e with userToken := token, master := master } :: s.maplist
            mapIdr := idrp })

/-- `drm_addmap_core`: what it returns and the device. -/
def drmAddmapCore (cfg : MapConfig) (s : MapDev) (r : AddmapReq) : Option (Int × MapDev) := do
  match ← addmapPrepare cfg s r with
  | .fail ret => some (ret, s)
  | .found s _ => some (0, s)
  | .ready s map => addmapLink s r map

/-- `drm_rmmap_locked` for the map at `addr` -/
def drmRmmapLocked (s : MapDev) (addr : Nat) (idMem : Bool) : Option (Int × MapDev) :=
  match s.maplist.find? (·.addr = addr) with
  | none => some (-EINVAL, s)
  | some e =>
    (mapIdrRemove s.mapIdr e.userToken idMem).map fun (_, idrp) =>
      (0, { s with maplist := s.maplist.erase e, mapIdr := idrp })

/-- The loop of `drm_master_destroy` over `maplist`; `idMem` is for the map at an address. -/
def masterDestroyLoop (m : Nat) (idMem : Nat → Bool) : List DrmMapList → MapDev → Option MapDev
  | [], s => some s
  | e :: rest, s =>
    if e.master = some m then do
      let (_, s) ← drmRmmapLocked s e.addr (idMem e.addr)
      masterDestroyLoop m idMem rest s
    else masterDestroyLoop m idMem rest s

/-- `drm_master_destroy`: the master and its `lock` are gone afterwards. -/
def drmMasterDestroy (s : MapDev) (m : Nat) (idMem : Nat → Bool) : Option MapDev :=
  (masterDestroyLoop m idMem s.maplist s).map fun s =>
    { s with hwLock := Function.update s.hwLock m none }

/-! ## Runs -/

/-- The calls that change the maps or the masters. -/
inductive MapCall
  | addmap (r : AddmapReq) (ret : Int)
  /-- `drm_rmmap`, or `drm_rmmap_ioctl` for an entry that it finds -/
  | rmmap (addr : Nat) (idMem : Bool)
  /-- `drm_map_handle` for a GEM object -/
  | gemHandle (list : Nat) (idMem : Bool)
  /-- `drm_gem_object_release` -/
  | gemRelease (token : BitVec 64) (idMem : Bool)
  /-- `drm_master_create` -/
  | masterCreate (m : Nat)
  /-- An assignment to `primary->master`. -/
  | setPrimary (m : Option Nat)
  /-- `drm_release` of the file that is master -/
  | masterRelease (m : Nat)
  | masterDestroy (m : Nat) (idMem : Nat → Bool)

/-- `t` is the device after a call on `s`. Memory for a new map or master is not in use, and
`primary->master` has a reference to its master. -/
def mapCall (cfg : MapConfig) (s : MapDev) (call : MapCall) (t : MapDev) : Prop :=
  match call with
  | .addmap r ret =>
    (∀ e ∈ s.maplist, r.mapMem ≠ some e.addr) ∧ drmAddmapCore cfg s r = some (ret, t)
  | .rmmap addr idMem => ∃ ret, drmRmmapLocked s addr idMem = some (ret, t)
  | .gemHandle list idMem =>
    ∃ ret idrp, drmMapHandle s.mapIdr list idMem = some (ret, idrp) ∧
      t = { s with mapIdr := idrp }
  | .gemRelease token idMem =>
    ∃ ret idrp, mapIdrRemove s.mapIdr token idMem = some (ret, idrp) ∧
      t = { s with mapIdr := idrp }
  | .masterCreate m => s.hwLock m = none ∧ t = s.setHwLock m 0
  | .setPrimary m => (∀ m', m = some m' → (s.hwLock m').isSome) ∧ t = { s with primaryMaster := m }
  | .masterRelease m => (s.hwLock m).isSome ∧ t = s.setHwLock m 0
  | .masterDestroy m idMem => s.primaryMaster ≠ some m ∧ drmMasterDestroy s m idMem = some t

/-- After `drm_fill_in_dev`. -/
def mapInit : MapDev where
  maplist := []
  mapIdr := idrInit
  primaryMaster := none
  hwLock _ := none

/-! ## What the calls owe -/

/-- A call changed neither `maplist`, nor the ids in use, nor a `hw_lock`. -/
structure MapDev.Unchanged (s t : MapDev) : Prop where
  maplist : t.maplist = s.maplist
  ids : ∀ id, t.mapIdr.Used id ↔ s.mapIdr.Used id
  hwLock : t.hwLock = s.hwLock

/-- A `hw_lock` that is not null is the handle of a `_DRM_SHM` map on `maplist`. -/
def MapDev.LocksMapped (s : MapDev) : Prop :=
  ∀ m lock, s.hwLock m = some lock → lock ≠ 0 →
    ∃ e ∈ s.maplist, e.map.type = .shm ∧ e.map.handle = lock

/-- The request gets as far as the entry and fails there: without memory for the entry of a map that
contains the lock, or without an id for the entry. -/
def AddmapReq.Late (cfg : MapConfig) (s : MapDev) (r : AddmapReq) : Prop :=
  ∃ s' map, addmapPrepare cfg s r = some (.ready s' map) ∧
    ((r.listMem = none ∧ map.type = .shm ∧ map.flags &&& drmContainsLock ≠ 0) ∨
      ∃ list ret idrp, r.listMem = some list ∧
        drmMapHandle s.mapIdr list r.idMem = some (.error ret, idrp))

/-- The map at `addr` is the one that a `hw_lock` points to. -/
def MapDev.IsLock (s : MapDev) (addr : Nat) : Prop :=
  ∃ e m, s.maplist.find? (·.addr = addr) = some e ∧ e.map.type = .shm ∧ e.map.handle ≠ 0 ∧
    s.hwLock m = some e.map.handle

/-- No request fails late, and no map is removed on its own that a `hw_lock` points to. -/
def MapCall.Clean (cfg : MapConfig) (s : MapDev) : MapCall → Prop
  | .addmap r _ => ¬ r.Late cfg s
  | .rmmap addr _ => ¬ s.IsLock addr
  | _ => True

/-- Runs of such calls. -/
def MapRun (cfg : MapConfig) : MapDev → List MapCall → MapDev → Prop :=
  Lib.Run fun s c t => c.Clean cfg s ∧ mapCall cfg s c t

end Drm
