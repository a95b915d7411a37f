import Mathlib.Data.Set.Card
import SolarisXorg.Drm.Idr
import SolarisXorg.Lib.Run

/-!
# GEM objects, handles and names (`drm_gem.c`, `drm_drv.c`, `drm_sun_idr.c`)

A buffer object is known to a file by handles and to all files by at most one global name. Both are
kept in hashed id lists (`struct idr_list`) whose ids come from one counter for the whole driver.
A handle and the name hold a reference to the object each, and so do callers between
`drm_gem_object_lookup` and `drm_gem_object_unreference`; `drm_gem_object_free` runs when the last
reference goes.

A pointer to an object is a number, and so is a file. A file has the empty table that `drm_gem_open`
sets up until it is used. Counters have their 32 bits. `frees` counts how often
`drm_gem_object_free` has run on an object; the driver's `gem_close_object` and `gem_free_object`
do not touch what is modelled, and the result of `gem_open_object` is an argument. The driver is one
with `DRIVER_GEM`; the `ASSERT`s, which only debugging kernels compile, are left out.
-/

namespace Drm

/-! ## Hashed id lists -/

/-- `DRM_GEM_OBJIDR_HASHNODE` -/
def gemObjidrHashnode : Nat := 1024

/-- One entry of a `struct idr_list`. -/
structure IdrListEntry (α : Type) where
  handle : UInt32
  obj : α
  deriving DecidableEq, Repr

/-- The head of a `struct idr_list`: the lists of entries by hash key. -/
structure IdrList (α : Type) where
  next : Nat → List (IdrListEntry α)

/-- The globals `fr_id` and `fr_time`. -/
structure FrIds where
  frId : UInt32 := 0
  frTime : UInt32 := 0
  deriving DecidableEq, Repr

variable {α : Type}

/-- The hash key of an id. -/
def idrListKey (name : UInt32) : Nat := name.toNat % gemObjidrHashnode

/-- `idr_list_init` -/
def idrListInit : IdrList α := ⟨fun _ => []⟩

/-- `idr_list_find` -/
def idrListFind (head : IdrList α) (name : UInt32) : Option α :=
  ((head.next (idrListKey name)).find? fun e => e.handle == name).map (·.obj)

/-- `idr_list_remove` -/
def idrListRemove (head : IdrList α) (name : UInt32) : Int × IdrList α :=
  let key := idrListKey name
  if (idrListFind head name).isSome then
    (0, ⟨Function.update head.next key ((head.next key).eraseP fun e => e.handle == name)⟩)
  else (-1, head)

/-- The new entry of `idr_list_get_new_above`, at the front of its list. -/
def IdrList.add (head : IdrList α) (id : UInt32) (obj : α) : IdrList α :=
  ⟨Function.update head.next (idrListKey id) (⟨id, obj⟩ :: head.next (idrListKey id))⟩

/-- The loop of `idr_list_get_new_above` that looks for an id that is not in the list, `n` being
how far `id` is from `0x7fffffff`. -/
def idrListAvailable (head : IdrList α) : Nat → UInt32 → UInt32
  | 0, id => id
  | n + 1, id => if (idrListFind head id).isSome then idrListAvailable head n (id + 1) else id

def EAGAIN : Int := 11

/-- The counter's next value, and whether it has been reset. -/
def FrIds.next (ids : FrIds) : FrIds :=
  if ids.frId + 1 = 0x7fffffff then { frId := 1, frTime := ids.frTime + 1 }
  else { ids with frId := ids.frId + 1 }

/-- A reset of the counter, if it comes next, does not bring `fr_time` back to 0. -/
def FrIds.NoWrap (ids : FrIds) : Prop := ids.frId + 1 = 0x7fffffff → ids.frTime + 1 ≠ 0

/-- `idr_list_get_new_above`; `mem` says whether the `KM_NOSLEEP` allocation succeeds. -/
def idrListGetNewAbove (ids : FrIds) (head : IdrList α) (obj : α) (mem : Bool) :
    Except Int UInt32 × FrIds × IdrList α :=
  let ids := ids.next
  let id := if ids.frTime ≠ 0 then
    idrListAvailable head (0x7fffffff - ids.frId.toNat) ids.frId else ids.frId
  if ids.frTime ≠ 0 ∧ ¬ id < 0x7fffffff then (.error (-EAGAIN), { ids with frId := 0 }, head)
  else
    let ids := { ids with frId := id }
    if mem then (.ok id, ids, head.add id obj) else (.error (-1), ids, head)

/-! ## Objects -/

/-- `struct drm_gem_object`: what counts its references, and how often it has been freed. -/
structure GemObject where
  refcount : UInt32 := 0
  handleCount : UInt32 := 0
  name : UInt32 := 0
  frees : Nat := 0
  deriving DecidableEq, Repr

/-- The device's objects, its name table and the handle tables of its files. -/
structure Gem where
  ids : FrIds
  files : Nat → IdrList Nat
  objectNameIdr : IdrList Nat
  object : Nat → GemObject

/-- How a call can end other than by returning: in `drm_gem_object_ref_bug`, or never, because every
id is in use and it tries again and again. -/
inductive GemStop
  | refBug
  | again
  deriving DecidableEq, Repr

def Gem.modifyObject (s : Gem) (o : Nat) (f : GemObject → GemObject) : Gem :=
  { s with object := Function.update s.object o (f (s.object o)) }

/-- `kref_get`, which is `drm_gem_object_reference`. -/
def gemObjectReference (s : Gem) (o : Nat) : Gem :=
  s.modifyObject o fun x => { x with refcount := x.refcount + 1 }

/-- `kref_put` -/
def krefPut (s : Gem) (o : Nat) (release : Gem → Except GemStop Gem) : Except GemStop Gem :=
  let s := s.modifyObject o fun x => { x with refcount := x.refcount - 1 }
  if (s.object o).refcount = 0 then release s else .ok s

/-- `drm_gem_object_free` -/
def gemObjectFree (o : Nat) (s : Gem) : Except GemStop Gem :=
  .ok (s.modifyObject o fun x => { x with frees := x.frees + 1 })

/-- `drm_gem_object_ref_bug` -/
def gemObjectRefBug (_ : Gem) : Except GemStop Gem := .error .refBug

/-- `drm_gem_object_unreference` and `drm_gem_object_unreference_unlocked` -/
def gemObjectUnreference (s : Gem) (o : Nat) : Except GemStop Gem := krefPut s o (gemObjectFree o)

/-- `drm_gem_object_handle_reference` -/
def gemObjectHandleReference (s : Gem) (o : Nat) : Gem :=
  (gemObjectReference s o).modifyObject o fun x => { x with handleCount := x.handleCount + 1 }

/-- `drm_gem_object_handle_free` -/
def gemObjectHandleFree (s : Gem) (o : Nat) : Except GemStop Gem :=
  if (s.object o).name ≠ 0 then
    let s := { s with objectNameIdr := (idrListRemove s.objectNameIdr (s.object o).name).2 }
    krefPut (s.modifyObject o fun x => { x with name := 0 }) o gemObjectRefBug
  else .ok s

/-- `drm_gem_object_handle_unreference_unlocked` -/
def gemObjectHandleUnreference (s : Gem) (o : Nat) : Except GemStop Gem :=
  if (s.object o).handleCount = 0 then .ok s
  else
    let s := s.modifyObject o fun x => { x with handleCount := x.handleCount - 1 }
    if (s.object o).handleCount = 0 then
      (gemObjectHandleFree s o).bind fun s => gemObjectUnreference s o
    else gemObjectUnreference s o

/-- `drm_gem_object_alloc`: an object in cleared memory, with the reference of its creator. -/
def gemObjectAlloc (s : Gem) (o : Nat) : Gem := s.modifyObject o fun _ => { refcount := 1 }

/-! ## Handles and names -/

def Gem.setFile (s : Gem) (file : Nat) (head : IdrList Nat) : Gem :=
  { s with files := Function.update s.files file head }

/-- `drm_gem_handle_delete`, which is all of `drm_gem_close_ioctl` -/
def gemHandleDelete (s : Gem) (file : Nat) (handle : UInt32) : Except GemStop (Int × Gem) :=
  match idrListFind (s.files file) handle with
  | none => .ok (-EINVAL, s)
  | some o =>
    let s := s.setFile file (idrListRemove (s.files file) handle).2
    (gemObjectHandleUnreference s o).map (0, ·)

/-- `drm_gem_handle_create`; `openRet` is the result of `gem_open_object`, 0 where the driver has
none. At most `tries` ids are asked for. -/
def gemHandleCreate (s : Gem) (file o : Nat) (mem : Bool) (openRet : Int) :
    Nat → Except GemStop (Except Int UInt32 × Gem)
  | 0 => .error .again
  | tries + 1 =>
    match idrListGetNewAbove s.ids (s.files file) o mem with
    | (.error ret, ids, _) =>
      let s := { s with ids := ids }
      if ret = -EAGAIN then gemHandleCreate s file o mem openRet tries else .ok (.error ret, s)
    | (.ok handle, ids, head) =>
      let s := gemObjectHandleReference ({ s with ids := ids }.setFile file head) o
      if openRet ≠ 0 then
        (gemHandleDelete s file handle).map fun r => (.error openRet, r.2)
      else .ok (.ok handle, s)

/-- `drm_gem_object_lookup` -/
def gemObjectLookup (s : Gem) (file : Nat) (handle : UInt32) : Option Nat × Gem :=
  match idrListFind (s.files file) handle with
  | none => (none, s)
  | some o => (some o, gemObjectReference s o)

/-- The naming of `drm_gem_flink_ioctl`. -/
def gemFlinkName (s : Gem) (o : Nat) (mem : Bool) : Nat → Except GemStop (Int × Gem)
  | 0 => .error .again
  | tries + 1 =>
    if (s.object o).name = 0 then
      match idrListGetNewAbove s.ids s.objectNameIdr o mem with
      | (.error ret, ids, _) =>
        let s := { s with ids := ids }
        if ret = -EAGAIN then gemFlinkName s o mem tries else .ok (ret, s)
      | (.ok name, ids, head) =>
        let s := { s with ids := ids, objectNameIdr := head }
        .ok (0, gemObjectReference (s.modifyObject o fun x => { x with name := name }) o)
    else .ok (0, s)

def ENOENT : Int := 2

/-- `drm_gem_flink_ioctl` -/
def gemFlinkIoctl (s : Gem) (file : Nat) (handle : UInt32) (mem : Bool) (tries : Nat) :
    Except GemStop (Int × Gem) :=
  match gemObjectLookup s file handle with
  | (none, s) => .ok (-ENOENT, s)
  | (some o, s) =>
    (gemFlinkName s o mem tries).bind fun r => (gemObjectUnreference r.2 o).map (r.1, ·)

/-- `drm_gem_open_ioctl` -/
def gemOpenIoctl (s : Gem) (file : Nat) (name : UInt32) (mem : Bool) (openRet : Int) (tries : Nat) :
    Except GemStop (Except Int UInt32 × Gem) :=
  match idrListFind s.objectNameIdr name with
  | none => .ok (.error (-ENOENT), s)
  | some o =>
    (gemHandleCreate (gemObjectReference s o) file o mem openRet tries).bind fun r =>
      (gemObjectUnreference r.2 o).map (r.1, ·)

/-- `idr_list_for_each` -/
def IdrList.entries (head : IdrList α) : List (IdrListEntry α) :=
  (List.range gemObjidrHashnode).flatMap head.next

/-- The loop of `drm_gem_release`. -/
def gemReleaseHandles (s : Gem) : List (IdrListEntry Nat) → Except GemStop Gem
  | [] => .ok s
  | entry :: rest => (gemObjectHandleUnreference s entry.obj).bind (gemReleaseHandles · rest)

/-- `drm_gem_release` -/
def gemRelease (s : Gem) (file : Nat) : Except GemStop Gem :=
  (gemReleaseHandles s (s.files file).entries).map (·.setFile file idrListInit)

/-! ## Runs -/

/-- The objects and the references to them that callers hold: from their creation, and from
lookups. -/
structure GemWorld where
  gem : Gem
  held : Nat → Nat
  created : Nat → Bool

/-- The calls, each run to its end. -/
inductive GemCall
  | alloc (o : Nat)
  | handleCreate (file o : Nat) (mem : Bool) (openRet : Int) (tries : Nat)
  | close (file : Nat) (handle : UInt32)
  | flink (file : Nat) (handle : UInt32) (mem : Bool) (tries : Nat)
  | openName (file : Nat) (name : UInt32) (mem : Bool) (openRet : Int) (tries : Nat)
  | lookup (file : Nat) (handle : UInt32)
  | unreference (o : Nat)
  | release (file : Nat)

/-- The world after a call. -/
def gemStep (w : GemWorld) : GemCall → Except GemStop GemWorld
  | .alloc o => .ok
    { gem := gemObjectAlloc w.gem o
      held := Function.update w.held o 1
      created := Function.update w.created o true }
  | .handleCreate file o mem openRet tries =>
    (gemHandleCreate w.gem file o mem openRet tries).map fun r => { w with gem := r.2 }
  | .close file handle => (gemHandleDelete w.gem file handle).map fun r => { w with gem := r.2 }
  | .flink file handle mem tries =>
    (gemFlinkIoctl w.gem file handle mem tries).map fun r => { w with gem := r.2 }
  | .openName file name mem openRet tries =>
    (gemOpenIoctl w.gem file name mem openRet tries).map fun r => { w with gem := r.2 }
  | .lookup file handle =>
    match gemObjectLookup w.gem file handle with
    | (none, s) => .ok { w with gem := s }
    | (some o, s) => .ok { w with gem := s, held := Function.update w.held o (w.held o + 1) }
  | .unreference o => (gemObjectUnreference w.gem o).map fun s =>
    { w with gem := s, held := Function.update w.held o (w.held o - 1) }
  | .release file => (gemRelease w.gem file).map fun s => { w with gem := s }

/-- What the callers owe: an object is created once, and who makes a handle for it or drops a
reference to it holds one. -/
def GemWorld.Admissible (w : GemWorld) : GemCall → Prop
  | .alloc o => w.created o = false
  | .handleCreate _ o _ _ _ => 0 < w.held o
  | .unreference o => 0 < w.held o
  | _ => True

/-- Nothing created, no file used. -/
def GemWorld.init : GemWorld where
  gem :=
    { ids := {}
      files := fun _ => idrListInit
      objectNameIdr := idrListInit
      object := fun _ => {} }
  held _ := 0
  created _ := false

/-- The file's handles of an object. -/
def Gem.handles (s : Gem) (o : Nat) : Set (Nat × UInt32) :=
  {p | idrListFind (s.files p.1) p.2 = some o}

/-- How many more references to one object than before a call may hold on its way. -/
def GemCall.extraRefs : GemCall → Nat
  | .handleCreate .. => 1
  | .flink .. => 2
  | .openName .. => 2
  | .lookup .. => 1
  | _ => 0

/-- No 32-bit counter wraps during the call. -/
def GemWorld.CountersFit (w : GemWorld) (c : GemCall) : Prop :=
  (∀ o, (w.gem.object o).refcount.toNat + c.extraRefs < 2 ^ 32) ∧ w.gem.ids.NoWrap

/-- A call as its callers may make it, that returns. -/
def gemCall (w : GemWorld) (c : GemCall) (w' : GemWorld) : Prop :=
  w.Admissible c ∧ gemStep w c = .ok w'

/-- What the counters and the name of an object are to say: the handles that lead to it, one
reference for each of these, for the name and for each holder; and that it is freed once, when none
is left. -/
structure GemWorld.Counted (w : GemWorld) (o : Nat) : Prop where
  finite : (w.gem.handles o).Finite
  handleCount : (w.gem.object o).handleCount.toNat = (w.gem.handles o).ncard
  refcount : (w.gem.object o).refcount.toNat = (w.gem.object o).handleCount.toNat +
    (if (w.gem.object o).name = 0 then 0 else 1) + w.held o
  name : ∀ n, idrListFind w.gem.objectNameIdr n = some o ↔ (w.gem.object o).name = n ∧ n ≠ 0
  named : (w.gem.object o).name ≠ 0 → 0 < (w.gem.object o).handleCount.toNat
  freed : (w.gem.object o).frees =
    if w.gem.handles o = ∅ ∧ (w.gem.object o).name = 0 ∧ w.held o = 0 then 1 else 0

end Drm
