import SolarisXorg.Lib.Act
import SolarisXorg.Drm.Gem

/-!
# Execbuffer (`i915_gem_execbuffer.c`)

`i915_gem_do_execbuffer` looks the objects of its list up, places them in the GTT, writes the
relocations into them, hands the batch to a ring and puts the objects on the active list. A look-up
takes a reference; the loop at `err` gives back one for each object that is still on the list. If
the user's relocations cannot be read with `struct_mutex` held, `i915_gem_execbuffer_relocate_slow`
gives all of them back, drops the mutex, reads the relocations and looks the objects up again.

Objects, their reference counts and the handle tables are those of `Drm.Gem`; `EbObject` has what
the driver adds. What the call does not decide itself is an argument: the results of the functions it
calls (`Called`), the user's memory, the state in which it finds everything when it has the mutex
again. The objects behind hardware contexts have no handles and are left out, as are fences, page
tables and what is written to the ring.
-/

namespace I915.Exec

open Drm (EINVAL ENOMEM ENOENT)

def EBUSY : Int := 16
def EFAULT : Int := 14
def ENOSPC : Int := 28
def EPERM : Int := 1

/-! ## The lists of objects -/

/-- A list of `exec_list` nodes, as its head sees it. `list_add_tail` does not look whether the node
is on the list already. `selfNext`: the last node's `next` is the node itself. `offHead`: the first
node's `prev` is not the head. -/
structure ExecList where
  nodes : List Nat := []
  selfNext : Bool := false
  offHead : Bool := false
  deriving DecidableEq, Repr

/-- `list_add_tail`: the node becomes the last one, after the one that was last. If it was on the
list, the nodes after it are no longer reached from the head, and where it was last itself it is now
its own `next`. -/
def ExecList.addTail (l : ExecList) (o : Nat) : ExecList where
  nodes := l.nodes.takeWhile (· ≠ o) ++ [o]
  selfNext := l.nodes.getLast? == some o
  offHead := l.offHead || l.nodes.head? == some o

/-- A loop that takes the first node off until the list is empty ends. Otherwise it comes to a node
for the second time: the head's `next` stays there. -/
def ExecList.drains (l : ExecList) : Bool := !l.selfNext && !l.offHead

/-! ## The state -/

def domainCpu : UInt32 := 0x1
def domainRender : UInt32 := 0x2
def domainCommand : UInt32 := 0x8
def domainGtt : UInt32 := 0x40

/-- `I915_GEM_GPU_DOMAINS` -/
def gpuDomains : UInt32 := 0x3e

/-- `struct drm_i915_gem_object`. `gttSpace` says that it is bound, `tiled` and `cached` that its
tiling mode and cache level are not `NONE`, `listed` that its `exec_list` is not empty; `words` is
what its pages hold. -/
structure EbObject where
  size : UInt64 := 0
  gttSpace : Bool := false
  gttOffset : UInt32 := 0
  mapAndFenceable : Bool := false
  tiled : Bool := false
  cached : Bool := false
  pinCount : UInt32 := 0
  readDomains : UInt32 := 0
  writeDomain : UInt32 := 0
  pendingReadDomains : UInt32 := 0
  pendingWriteDomain : UInt32 := 0
  active : Bool := false
  listed : Bool := false
  execEntry : Nat := 0
  words : UInt64 → UInt32 := fun _ => 0

/-- `struct drm_i915_gem_relocation_entry` -/
structure Reloc where
  targetHandle : UInt32
  delta : UInt32
  offset : UInt64
  presumedOffset : UInt64
  readDomains : UInt32
  writeDomain : UInt32
  deriving DecidableEq, Repr

/-- Which pass over the relocations the call has begun last. -/
inductive RelocPass
  | none
  | fast
  | slow
  deriving DecidableEq, Repr

/-- The device, and the locals of the call that outlive a function: what it has written into the
entries of `exec` and whether there are relocations to do. For the statements, `pass` and `done` are
the pass it is in and the relocations that pass has done, each with the object it is in, and
`others` is what other threads have added to the references of an object beyond that of the active
list while the mutex was free. -/
structure Eb where
  gem : Drm.Gem
  obj : Nat → EbObject
  relativeConstantsMode : UInt64
  entryOffset : Nat → UInt64 := fun _ => 0
  entryFlags : Nat → UInt64 := fun _ => 0
  needRelocs : Bool := false
  pass : RelocPass := .none
  done : List (Nat × Reloc) := []
  others : Nat → UInt32 := fun _ => 0

def Eb.modify (s : Eb) (o : Nat) (f : EbObject → EbObject) : Eb :=
  { s with obj := Function.update s.obj o (f (s.obj o)) }

/-- `drm_gem_object_reference` -/
def Eb.reference (s : Eb) (o : Nat) : Eb := { s with gem := Drm.gemObjectReference s.gem o }

/-- `drm_gem_object_unreference` -/
def Eb.unreference (s : Eb) (o : Nat) : Eb :=
  match Drm.gemObjectUnreference s.gem o with
  | .ok gem => { s with gem := gem }
  | .error _ => s

/-! ## Arguments -/

/-- `struct drm_i915_gem_exec_object2`, less the user's pointer to the relocations -/
structure ExecObject where
  handle : UInt32 := 0
  relocationCount : UInt32 := 0
  alignment : UInt64 := 0
  offset : UInt64 := 0
  flags : UInt64 := 0
  deriving DecidableEq, Repr, Inhabited

/-- `struct drm_i915_gem_execbuffer2`, with the array of objects that has been copied in. Its length
is what `i915_gem_execbuffer2` lets pass. -/
structure Args where
  exec : List ExecObject
  batchStartOffset : UInt32 := 0
  batchLen : UInt32 := 0
  numCliprects : UInt32 := 0
  flags : UInt64 := 0
  contextId : UInt32 := 0
  bounded : exec.length ≤ 0xffffffff / 56 := by decide

def Args.entry (a : Args) (i : Nat) : ExecObject := a.exec.getD i default

/-- What a function that is called returns, and the objects it moves to the inactive list because
their last request has completed. -/
structure Called where
  ret : Int := 0
  retired : List Nat := []
  deriving DecidableEq, Repr

/-- `i915_gem_evict_something`: the objects that are scanned, with the result of waiting for them if
they are chosen to be evicted. -/
abbrev Scan := List (Nat × Option Called)

/-- What `i915_gem_execbuffer_reserve_object` meets: the result of `i915_gem_object_unbind`, of
`i915_gem_object_bind_to_gtt` with what it scans and the place it finds, and of
`i915_gem_object_get_fence`. -/
structure PinEnv where
  unbind : Called := {}
  scan : Scan := []
  bind : Called := {}
  offset : UInt32 := 0
  mapAndFenceable : Bool := true
  getFence : Called := {}
  deriving DecidableEq, Repr

/-- What `i915_gem_execbuffer_reserve` meets, for each object in the first and in the second try. -/
structure ReserveEnv where
  fence : Nat → Called := fun _ => {}
  object : Bool → Nat → PinEnv := fun _ _ => {}
  evict : Called := {}
  evicted : List (Nat × Called) := []

/-- A relocation as it is read from the user, with what its processing meets: whether the copy that
begins with it and the copy of its new `presumed_offset` fault, and the results of
`i915_gem_object_set_to_gtt_domain` and `i915_gem_object_put_fence`. -/
structure RelocEnv where
  reloc : Reloc
  copyFault : Bool := false
  copyBackFault : Bool := false
  setToGttDomain : Called := {}
  putFence : Called := {}
  deriving DecidableEq, Repr

/-- What `i915_gem_execbuffer_relocate_slow` meets. `state` is how it finds the device when it has
the mutex again. -/
structure SlowEnv where
  alloc : Bool := true
  copyFault : Bool := false
  lock : Int := 0
  state : Eb
  reserve : ReserveEnv := {}
  reloc : Nat → Nat → RelocEnv

inductive RingId
  | rcs
  | vcs
  | bcs
  | vecs
  deriving DecidableEq, Repr

/-- What the call meets. `reloc i j` is the `j`-th relocation of the `i`-th object. -/
structure Env where
  gen : Nat
  file : Nat
  isMaster : Bool := true
  ringInitialized : RingId → Bool := fun _ => true
  allocCliprects : Bool := true
  copyCliprects : Bool := true
  lock : Int := 0
  busy : Bool := false
  ebCreate : Bool := true
  reserve : ReserveEnv := {}
  reloc : Nat → Nat → RelocEnv
  slow : SlowEnv
  sync : Nat → Called := fun _ => {}
  invalidateCaches : Called := {}
  switchScan : Scan := []
  switchContext : Called := {}
  ringBegin : Called := {}
  solReset : Called := {}
  emitBox : Nat → Called := fun _ => {}
  dispatch : Nat → Called := fun _ => {}
  addRequest : Called := {}

/-! ## The active list -/

/-- `i915_gem_object_move_to_active` -/
def objectMoveToActive (s : Eb) (o : Nat) : Eb :=
  if (s.obj o).active then s else (s.reference o).modify o fun x => { x with active := true }

/-- `i915_gem_object_move_to_inactive`, for an object that is active -/
def objectMoveToInactive (s : Eb) (o : Nat) : Eb :=
  if (s.obj o).active then
    (s.modify o fun x => { x with active := false, writeDomain := 0 }).unreference o
  else s

/-- The result of a function that may retire requests. -/
def Called.run (c : Called) (s : Eb) : Int × Eb :=
  (c.ret, c.retired.foldl objectMoveToInactive s)

/-! ## Places in the GTT -/

/-- `i915_gem_object_unbind` -/
def objectUnbind (o : Nat) (c : Called) (s : Eb) : Int × Eb :=
  if (s.obj o).gttSpace = false then (0, s)
  else if (s.obj o).pinCount ≠ 0 then (-EBUSY, s)
  else if c.ret ≠ 0 then c.run s
  else
    (0, (c.run s).2.modify o fun x =>
      { x with
        gttSpace := false
        gttOffset := 0
        mapAndFenceable := true })

/-- The second loop of `i915_gem_evict_something` at `found`. -/
def evictObjects : List (Nat × Called) → Int → Eb → Int × Eb
  | [], ret, s => (ret, s)
  | (o, c) :: rest, ret, s =>
    let (ret, s) := if ret = 0 then objectUnbind o c s else (ret, s)
    evictObjects rest ret (s.unreference o)

/-- `i915_gem_evict_something`, while the objects of `objects` are on the list of an execbuffer. It
links what it scans by `exec_list` too, and leaves these nodes empty: the list that had one of them
leads to it and no further, and the loop that is to empty that list never ends. -/
def evictSomething (objects : List Nat) (scan : Scan) : Lib.Act Eb := fun s =>
  let marked := scan.filter fun p => (s.obj p.1).pinCount = 0
  if marked.any fun p => p.1 ∈ objects then none
  else
    let chosen := marked.filterMap fun p => p.2.map (p.1, ·)
    let (ret, s) := evictObjects chosen 0 (chosen.foldl (fun s p => s.reference p.1) s)
    some (ret, marked.foldl (fun s p => s.modify p.1 fun x => { x with listed := false }) s)

/-- `i915_gem_object_bind_to_gtt`: `bind` is its result with what was evicted out of the way. -/
def objectBindToGtt (objects : List Nat) (o : Nat) (e : PinEnv) : Lib.Act Eb :=
  (evictSomething objects e.scan).andThen <| (Lib.Act.call e.bind.run).andThen <|
    .modify (·.modify o fun x =>
      { x with
        gttSpace := true
        gttOffset := e.offset
        mapAndFenceable := e.mapAndFenceable })

/-- The object is not where `alignment` and `mappable` want it. -/
def EbObject.misplaced (x : EbObject) (alignment : UInt64) (mappable : Bool) : Bool :=
  (alignment ≠ 0 && x.gttOffset.toUInt64 &&& (alignment - 1) ≠ 0) ||
    (mappable && !x.mapAndFenceable)

/-- `i915_gem_object_pin` -/
def objectPin (objects : List Nat) (o : Nat) (alignment : UInt32) (mappable : Bool) (e : PinEnv) :
    Lib.Act Eb := fun s =>
  if (s.obj o).pinCount = 0xf then some (-EBUSY, s)
  else
    let unbind : Lib.Act Eb := fun s =>
      if (s.obj o).gttSpace && (s.obj o).misplaced alignment.toUInt64 mappable then
        some (objectUnbind o e.unbind s)
      else some (0, s)
    let bind : Lib.Act Eb := fun s =>
      if (s.obj o).gttSpace then some (0, s) else objectBindToGtt objects o e s
    (unbind.andThen (bind.andThen (.modify (·.modify o fun x =>
      { x with pinCount := x.pinCount + 1 })))) s

/-! ## Reserving -/

def needsFence : UInt64 := 0x1
def execObjectWrite : UInt64 := 0x4

/-- `__EXEC_OBJECT_HAS_PIN` -/
def hasPin : UInt64 := 0x80000000

/-- `__EXEC_OBJECT_HAS_FENCE` -/
def hasFence : UInt64 := 0x40000000

/-- `use_cpu_reloc` -/
def useCpuReloc (x : EbObject) : Bool :=
  x.writeDomain == domainCpu || !x.mapAndFenceable || x.cached

/-- `need_reloc_mappable` -/
def needRelocMappable (a : Args) (x : EbObject) : Bool :=
  (a.entry x.execEntry).relocationCount ≠ 0 && !useCpuReloc x

/-- `need_mappable` -/
def needMappable (a : Args) (gen : Nat) (s : Eb) (o : Nat) : Bool :=
  let x := s.obj o
  let needFence := if gen = 5 then x.tiled
    else gen < 4 && s.entryFlags x.execEntry &&& needsFence ≠ 0 && x.tiled
  needFence || needRelocMappable a x

/-- `i915_gem_execbuffer_reserve_object` after the pin. -/
def reservePinned (gen : Nat) (o : Nat) (e : PinEnv) : Lib.Act Eb := fun s =>
  let i := (s.obj o).execEntry
  let fence : Lib.Act Eb := fun s =>
    if gen < 4 ∧ s.entryFlags i &&& needsFence ≠ 0 then some (e.getFence.run s) else some (0, s)
  (Lib.Act.andThen (.modify fun s =>
      { s with entryFlags := Function.update s.entryFlags i (s.entryFlags i ||| hasPin) }) <|
    fence.andThen <|
    Lib.Act.andThen (.modify fun s =>
      if s.entryOffset i ≠ (s.obj o).gttOffset.toUInt64 then
        { s with
          entryOffset := Function.update s.entryOffset i (s.obj o).gttOffset.toUInt64
          needRelocs := true }
      else s) <|
    .modify fun s =>
      if s.entryFlags i &&& execObjectWrite ≠ 0 then
        s.modify o fun x =>
          { x with
            pendingReadDomains := domainRender
            pendingWriteDomain := domainRender }
      else s) s

/-- `i915_gem_execbuffer_reserve_object` -/
def execbufferReserveObject (a : Args) (gen : Nat) (objects : List Nat) (o : Nat) (e : PinEnv) :
    Lib.Act Eb := fun s =>
  (objectPin objects o (a.entry (s.obj o).execEntry).alignment.toUInt32 (needMappable a gen s o) e
    |>.andThen (reservePinned gen o e)) s

/-- `i915_gem_execbuffer_unreserve_object` -/
def execbufferUnreserveObject (s : Eb) (o : Nat) : Eb :=
  if (s.obj o).gttSpace = false then s
  else
    let i := (s.obj o).execEntry
    let s := if s.entryFlags i &&& hasPin ≠ 0 then
      s.modify o fun x => { x with pinCount := x.pinCount - 1 } else s
    let flags := s.entryFlags i &&& ~~~(hasFence ||| hasPin)
    { s with entryFlags := Function.update s.entryFlags i flags }

/-- The first loop of `i915_gem_execbuffer_reserve`: those that need a mappable place come first. -/
def reserveOrder (a : Args) (gen batch : Nat) (e : ReserveEnv) :
    List Nat → List Nat → Eb → List Nat × Eb
  | [], ordered, s => (ordered, s)
  | o :: rest, ordered, s =>
    let ordered := if needMappable a gen s o then o :: ordered else ordered ++ [o]
    let s := s.modify o fun x =>
      { x with
        pendingReadDomains := gpuDomains &&& ~~~domainCommand
        pendingWriteDomain := 0 }
    let s := if gen = 5 ∧ batch ≠ o ∧ (s.obj o).gttOffset ≠ 0 then ((e.fence o).run s).2 else s
    reserveOrder a gen batch e rest ordered s

/-- The pass over the objects that are bound: unbound if they are misplaced, else pinned. -/
def reserveBound (a : Args) (gen : Nat) (objects : List Nat) (e : Nat → PinEnv) (o : Nat) :
    Lib.Act Eb := fun s =>
  if (s.obj o).gttSpace = false then some (0, s)
  else if (s.obj o).misplaced (a.entry (s.obj o).execEntry).alignment (needMappable a gen s o) then
    some (objectUnbind o (e o).unbind s)
  else execbufferReserveObject a gen objects o (e o) s

/-- The pass over the objects that are not bound. -/
def reserveFresh (a : Args) (gen : Nat) (objects : List Nat) (e : Nat → PinEnv) (o : Nat) :
    Lib.Act Eb := fun s =>
  if (s.obj o).gttSpace then some (0, s) else execbufferReserveObject a gen objects o (e o) s

/-- One try at placing all objects, up to where the pins are given back. -/
def reserveTry (a : Args) (gen : Nat) (objects : List Nat) (e : Nat → PinEnv) : Lib.Act Eb :=
  fun s =>
    match ((Lib.Act.each (reserveBound a gen objects e) objects).andThen
      (Lib.Act.each (reserveFresh a gen objects e) objects)) s with
    | none => none
    | some (ret, s) => some (ret, objects.foldl execbufferUnreserveObject s)

/-- `i915_gem_evict_everything` -/
def evictEverything (c : Called) (evicted : List (Nat × Called)) : Lib.Act Eb :=
  (Lib.Act.call c.run).andThen (.modify fun s =>
    evicted.foldl (fun s p => (objectUnbind p.1 p.2 s).2) s)

/-- `i915_gem_execbuffer_reserve`; the list it is given is not empty. -/
def execbufferReserve (a : Args) (gen : Nat) (e : ReserveEnv) (l : List Nat) (s : Eb) :
    List Nat × Option (Int × Eb) :=
  let (objects, s) := reserveOrder a gen (l.getLastD 0) e l [] s
  (objects, match reserveTry a gen objects (e.object false) s with
    | none => none
    | some (ret, s) =>
      if ret ≠ -ENOSPC then some (ret, s)
      else (evictEverything e.evict e.evicted).andThen
        (reserveTry a gen objects (e.object true)) s)

/-! ## Relocations -/

/-- `i915_gem_object_set_to_gtt_domain` for writing -/
def objectSetToGttDomain (o : Nat) (c : Called) (s : Eb) : Int × Eb :=
  if (s.obj o).gttSpace = false then (-EINVAL, s)
  else if (s.obj o).writeDomain = domainGtt then (0, s)
  else if c.ret ≠ 0 then c.run s
  else
    (0, (c.run s).2.modify o fun x =>
      { x with
        readDomains := domainGtt
        writeDomain := domainGtt })

/-- Adds the relocation, with the offset it now stands for, to those done. -/
def Eb.did (s : Eb) (obj : Nat) (r : Reloc) : Eb := { s with done := s.done ++ [(obj, r)] }

/-- `i915_gem_execbuffer_relocate_entry`: its result, and the entry after it. -/
def execbufferRelocateEntry (file obj : Nat) (e : RelocEnv) (s : Eb) : Int × Reloc × Eb :=
  let reloc := e.reloc
  match Drm.gemObjectLookup s.gem file reloc.targetHandle with
  | (none, _) => (-ENOENT, reloc, s)
  | (some target, gem) =>
    let s := { s with gem := gem }
    let targetOffset := (s.obj target).gttOffset
    if reloc.writeDomain &&& (reloc.writeDomain - 1) ≠ 0 then
      (-EINVAL, reloc, s.unreference target)
    else if (reloc.writeDomain ||| reloc.readDomains) &&& ~~~gpuDomains ≠ 0 then
      (-EINVAL, reloc, s.unreference target)
    else
      let s := s.modify target fun x =>
        { x with
          pendingReadDomains := x.pendingReadDomains ||| reloc.readDomains
          pendingWriteDomain := x.pendingWriteDomain ||| reloc.writeDomain }
      if targetOffset.toUInt64 = reloc.presumedOffset then
        (0, reloc, (s.unreference target).did obj reloc)
      else if reloc.offset > (s.obj obj).size - 4 then (-EINVAL, reloc, s.unreference target)
      else if reloc.offset &&& 3 ≠ 0 then (-EINVAL, reloc, s.unreference target)
      else
        -- these two returns go past `err` and keep the reference to the target
        let (ret, s) := objectSetToGttDomain obj e.setToGttDomain s
        if ret ≠ 0 then (ret, reloc, s)
        else
          let (ret, s) := e.putFence.run s
          if ret ≠ 0 then (ret, reloc, s)
          else
            let s := s.modify obj fun x =>
              { x with words := Function.update x.words reloc.offset (targetOffset + reloc.delta) }
            let reloc := { reloc with presumedOffset := targetOffset.toUInt64 }
            (0, reloc, (s.unreference target).did obj reloc)

/-- `N_RELOC(512)` -/
def nReloc : Nat := 16

/-- The `j`-th entry of an object. In the loops of `i915_gem_execbuffer_relocate_object` (`copies`),
`nReloc` entries at a time are copied in, and a changed `presumed_offset` is copied out. -/
def relocateOne (copies : Bool) (file obj : Nat) (p : RelocEnv × Nat) (s : Eb) : Int × Eb :=
  if copies = true ∧ p.2 % nReloc = 0 ∧ p.1.copyFault = true then (-EFAULT, s)
  else
    let (ret, reloc, s) := execbufferRelocateEntry file obj p.1 s
    if copies = true ∧ ret = 0 ∧ reloc.presumedOffset ≠ p.1.reloc.presumedOffset ∧
        p.1.copyBackFault = true then (-EFAULT, s)
    else (ret, s)

/-- The relocations of the `i`-th object in the user's memory, numbered. -/
def Args.relocs (a : Args) (mem : Nat → Nat → RelocEnv) (i : Nat) : List (RelocEnv × Nat) :=
  ((List.range (a.entry i).relocationCount.toNat).map (mem i)).zipIdx

/-- The relocations of one object. -/
def relocateObject (a : Args) (copies : Bool) (file : Nat) (mem : Nat → Nat → RelocEnv)
    (obj : Nat) : Lib.Act Eb := fun s =>
  Lib.Act.each (fun p => .call (relocateOne copies file obj p))
    (a.relocs mem (s.obj obj).execEntry) s

/-- `i915_gem_execbuffer_relocate_object` -/
def execbufferRelocateObject (a : Args) (file : Nat) (mem : Nat → Nat → RelocEnv) (obj : Nat) :
    Lib.Act Eb :=
  relocateObject a true file mem obj

/-- `i915_gem_execbuffer_relocate_object_slow` -/
def execbufferRelocateObjectSlow (a : Args) (file : Nat) (mem : Nat → Nat → RelocEnv) (obj : Nat) :
    Lib.Act Eb :=
  relocateObject a false file mem obj

/-- `i915_gem_execbuffer_relocate` -/
def execbufferRelocate (a : Args) (file : Nat) (mem : Nat → Nat → RelocEnv) (objects : List Nat) :
    Lib.Act Eb :=
  .each (execbufferRelocateObject a file mem) objects

/-! ## Look-ups -/

/-- The loop that looks the objects of the list up. In `i915_gem_do_execbuffer` it refuses an object
whose node is in use (`checked`), in `i915_gem_execbuffer_relocate_slow` it does not look. -/
def lookupObjects (checked : Bool) (file : Nat) :
    List (ExecObject × Nat) → ExecList → Eb → Int × ExecList × Eb
  | [], l, s => (0, l, s)
  | (x, i) :: rest, l, s =>
    match Drm.gemObjectLookup s.gem file x.handle with
    | (none, _) => (-ENOENT, l, s)
    | (some o, gem) =>
      let s := { s with gem := gem }
      if checked && (s.obj o).listed then (-EINVAL, l, s)
      else
        lookupObjects checked file rest (l.addTail o) (s.modify o fun x =>
          { x with
            listed := true
            execEntry := i })

/-- The loop that takes the objects off the list and gives their references back. -/
def putObjects (objects : List Nat) (s : Eb) : Eb :=
  objects.foldl (fun s o => (s.modify o fun x => { x with listed := false }).unreference o) s

/-- What is counted for an object beyond the reference of the active list. -/
def Eb.held (s : Eb) (o : Nat) : UInt32 :=
  (s.gem.object o).refcount - if (s.obj o).active then 1 else 0

/-- The state when the mutex has been free and is taken again. -/
def Eb.relock (s found : Eb) : Eb :=
  { s with
    gem := found.gem
    obj := found.obj
    relativeConstantsMode := found.relativeConstantsMode
    pass := .slow
    done := []
    others := fun o => s.others o + (found.held o - s.held o) }

/-- `I915_EXEC_NO_RELOC` -/
def execNoReloc : UInt64 := 0x800

/-- The look-ups and `i915_gem_execbuffer_reserve`, as `i915_gem_do_execbuffer` does them and then
again `i915_gem_execbuffer_relocate_slow`: the result, the object looked up last, and the list. -/
def acquireObjects (checked : Bool) (a : Args) (e : Env) (r : ReserveEnv) (s : Eb) :
    Option (Int × Nat × ExecList × Eb) :=
  match lookupObjects checked e.file a.exec.zipIdx {} s with
  | (ret, l, s) =>
    let last := l.nodes.getLastD 0
    if ret ≠ 0 then some (ret, last, l, s)
    else if l.drains = false then none
    else
      match execbufferReserve a e.gen r l.nodes
        { s with needRelocs := a.flags &&& execNoReloc = 0 } with
      | (_, none) => none
      | (objects, some (ret, s)) => some (ret, last, { nodes := objects }, s)

/-- `i915_gem_execbuffer_relocate_slow`: its result and the list it leaves. -/
def execbufferRelocateSlow (a : Args) (e : Env) (objects : List Nat) (s : Eb) :
    Option (Int × ExecList × Eb) :=
  let s := (putObjects objects s).relock e.slow.state
  if e.slow.alloc = false then some (-ENOMEM, {}, s)
  else if e.slow.copyFault then some (-EFAULT, {}, s)
  else if e.slow.lock ≠ 0 then some (e.slow.lock, {}, s)
  else
    match acquireObjects false a e e.slow.reserve s with
    | none => none
    | some (ret, _, l, s) =>
      if ret ≠ 0 then some (ret, l, s)
      else
        (Lib.Act.each (execbufferRelocateObjectSlow a e.file e.slow.reloc) l.nodes s).map
          fun p => (p.1, l, p.2)

/-! ## The call -/

/-- `i915_gem_check_execbuffer` -/
def checkExecbuffer (a : Args) : Bool := (a.batchStartOffset ||| a.batchLen) &&& 0x7 = 0

/-- `INT_MAX / sizeof(struct drm_i915_gem_relocation_entry)` -/
def relocsMax : Nat := 0x7fffffff / 32

/-- `validate_exec_list`, with `total` relocations so far. -/
def validateExecList : Nat → List ExecObject → Bool
  | _, [] => true
  | total, x :: rest =>
    if x.relocationCount.toNat > relocsMax - total then false
    else validateExecList (total + x.relocationCount.toNat) rest

/-- The ring that the flags ask for. -/
def execRing (flags : UInt64) : Option RingId :=
  let ring := flags &&& 0x7
  if ring = 0 ∨ ring = 1 then some .rcs
  else if ring = 2 then some .vcs
  else if ring = 3 then some .bcs
  else if ring = 4 then some .vecs
  else none

/-- `args->flags & I915_EXEC_CONSTANTS_MASK` -/
def execMode (flags : UInt64) : UInt64 := flags &&& 0xc0

/-- `I915_EXEC_CONSTANTS_REL_SURFACE` -/
def relSurface : UInt64 := 0x80

/-- `I915_EXEC_SECURE` -/
def execSecure : UInt64 := 0x200

/-- `I915_EXEC_GEN7_SOL_RESET` -/
def gen7SolReset : UInt64 := 0x100

/-- What `i915_gem_do_execbuffer` checks and allocates before it takes any reference: the ring, or
the error. -/
def preMutex (a : Args) (e : Env) (s : Eb) : Except Int RingId :=
  if checkExecbuffer a = false then .error (-EINVAL)
  else if validateExecList 0 a.exec = false then .error (-EINVAL)
  else if a.flags &&& execSecure ≠ 0 ∧ e.isMaster = false then .error (-EPERM)
  else
    match execRing a.flags with
    | none => .error (-EINVAL)
    | some ring =>
      let mode := execMode a.flags
      if ring ≠ .rcs ∧ a.contextId ≠ 0 then .error (-EPERM)
      else if e.ringInitialized ring = false then .error (-EINVAL)
      else if mode = 0xc0 then .error (-EINVAL)
      else if ring = .rcs ∧ mode ≠ s.relativeConstantsMode ∧
          (e.gen < 4 ∨ e.gen > 5 ∧ mode = relSurface) then .error (-EINVAL)
      else if a.exec = [] then .error (-EINVAL)
      else if a.numCliprects ≠ 0 ∧ (ring ≠ .rcs ∨ e.gen ≥ 5 ∨
          a.numCliprects.toNat > 0xffffffff / 8) then .error (-EINVAL)
      else if a.numCliprects ≠ 0 ∧ e.allocCliprects = false then .error (-ENOMEM)
      else if a.numCliprects ≠ 0 ∧ e.copyCliprects = false then .error (-EFAULT)
      else if e.lock ≠ 0 then .error e.lock
      else if e.busy then .error (-EBUSY)
      else if e.ebCreate = false then .error (-ENOMEM)
      else .ok ring

/-- `i915_gem_execbuffer_move_to_gpu` -/
def execbufferMoveToGpu (e : Env) (objects : List Nat) : Lib.Act Eb :=
  (Lib.Act.each (fun o => .call (e.sync o).run) objects).andThen (.call e.invalidateCaches.run)

/-- `i915_switch_context`: the place for the new context's object may have to be made free. -/
def switchContext (e : Env) (ring : RingId) (objects : List Nat) : Lib.Act Eb :=
  if ring ≠ .rcs then .modify id
  else (evictSomething objects e.switchScan).andThen (.call e.switchContext.run)

/-- The change of `relative_constants_mode`. -/
def setConstants (a : Args) (e : Env) (ring : RingId) : Lib.Act Eb := fun s =>
  if ring = .rcs ∧ execMode a.flags ≠ s.relativeConstantsMode then
    ((Lib.Act.call e.ringBegin.run).andThen
      (.modify fun s => { s with relativeConstantsMode := execMode a.flags })) s
  else some (0, s)

/-- `i915_reset_gen7_sol_offsets`, if asked for -/
def resetSolOffsets (a : Args) (e : Env) (ring : RingId) : Lib.Act Eb :=
  if a.flags &&& gen7SolReset ≠ 0 ∧ e.gen = 7 ∧ ring = .rcs then .call e.solReset.run else .modify id

/-- `dispatch_execbuffer`, once for each clip rectangle if there are any -/
def dispatchExecbuffer (a : Args) (e : Env) : Lib.Act Eb :=
  if a.numCliprects ≠ 0 then
    .each (fun i => (Lib.Act.call (e.emitBox i).run).andThen (.call (e.dispatch i).run))
      (List.range a.numCliprects.toNat)
  else .call (e.dispatch 0).run

/-- `i915_gem_execbuffer_move_to_active` -/
def execbufferMoveToActive (objects : List Nat) (s : Eb) : Eb :=
  objects.foldl (fun s o => objectMoveToActive (s.modify o fun x =>
    { x with
      writeDomain := x.pendingWriteDomain
      pendingReadDomains :=
        if x.pendingWriteDomain = 0 then x.pendingReadDomains ||| x.readDomains
        else x.pendingReadDomains
      readDomains :=
        if x.pendingWriteDomain = 0 then x.pendingReadDomains ||| x.readDomains
        else x.pendingReadDomains }) o) s

/-- `i915_gem_execbuffer_retire_commands`. The objects of the list have the seqno of the request that
is added, so requests that complete meanwhile do not retire them. -/
def execbufferRetireCommands (e : Env) (objects : List Nat) (s : Eb) : Eb :=
  (e.addRequest.retired.filter (· ∉ objects)).foldl objectMoveToInactive s

/-- The submission, when the relocations are done. -/
def submit (a : Args) (e : Env) (ring : RingId) (batch : Nat) (objects : List Nat) : Lib.Act Eb :=
  fun s =>
    if (s.obj batch).pendingWriteDomain ≠ 0 then some (-EINVAL, s)
    else
      (Lib.Act.andThen (.modify (·.modify batch fun x =>
          { x with pendingReadDomains := x.pendingReadDomains ||| domainCommand })) <|
        (execbufferMoveToGpu e objects).andThen <|
        (switchContext e ring objects).andThen <|
        (setConstants a e ring).andThen <|
        (resetSolOffsets a e ring).andThen <|
        (dispatchExecbuffer a e).andThen <|
        .modify fun s => execbufferRetireCommands e objects (execbufferMoveToActive objects s)) s

/-- From `err` to the end. -/
def leave (ret : Int) (l : ExecList) (s : Eb) : Option (Int × Eb) :=
  if l.drains then some (ret, putObjects l.nodes s) else none

/-- What follows the relocations. -/
def finish (a : Args) (e : Env) (ring : RingId) (batch : Nat) (ret : Int) (l : ExecList) (s : Eb) :
    Option (Int × Eb) :=
  if ret ≠ 0 then leave ret l s
  else
    match submit a e ring batch l.nodes s with
    | none => none
    | some (ret, s) => leave ret l s

/-- What follows the placement of the objects: the relocations, by the slow path if the user's memory
could not be read or written, and the submission. -/
def relocateAndSubmit (a : Args) (e : Env) (ring : RingId) (batch : Nat) (l : ExecList) (s : Eb) :
    Option (Int × Eb) :=
  if s.needRelocs = false then finish a e ring batch 0 l s
  else
    match execbufferRelocate a e.file e.reloc l.nodes { s with pass := .fast } with
    | none => none
    | some (ret, s) =>
      if ret = -EFAULT then
        match execbufferRelocateSlow a e l.nodes s with
        | none => none
        | some (ret, l, s) => finish a e ring batch ret l s
      else finish a e ring batch ret l s

/-- The state in which the look-ups begin. -/
def Eb.start (s : Eb) (a : Args) : Eb :=
  { s with
    entryOffset := fun i => (a.entry i).offset
    entryFlags := fun i => (a.entry i).flags
    pass := .none
    done := [] }

/-- `i915_gem_do_execbuffer` -/
def doExecbuffer (a : Args) (e : Env) (s : Eb) : Option (Int × Eb) :=
  match preMutex a e s with
  | .error ret => some (ret, s)
  | .ok ring =>
    match acquireObjects true a e e.reserve (s.start a) with
    | none => none
    | some (ret, batch, l, s) =>
      if ret ≠ 0 then leave ret l s else relocateAndSubmit a e ring batch l s

/-! ## References -/

/-- The reference of the active list. -/
def Eb.activeRef (s : Eb) (o : Nat) : UInt32 := if (s.obj o).active then 1 else 0

/-- Every count is what it was, and 1 more if the object was put on the active list (1 less if it was
taken off it). What other threads did while the mutex was free comes on top. -/
def Balanced (s s' : Eb) : Prop :=
  ∀ o, (s'.gem.object o).refcount =
    (s.gem.object o).refcount + s'.activeRef o - s.activeRef o + (s'.others o - s.others o)

/-- The objects that the handles name, up to the first handle that names none. -/
def knownObjects (head : Drm.IdrList Nat) : List ExecObject → List Nat
  | [] => []
  | x :: rest =>
    match Drm.idrListFind head x.handle with
    | none => []
    | some o => o :: knownObjects head rest

/-- The relocation passes its checks and is to be written, but the object cannot be made ready for
it. -/
def WriteFails (file obj : Nat) (e : RelocEnv) (s : Eb) : Prop :=
  ∃ target, Drm.idrListFind (s.gem.files file) e.reloc.targetHandle = some target ∧
    e.reloc.writeDomain &&& (e.reloc.writeDomain - 1) = 0 ∧
    (e.reloc.writeDomain ||| e.reloc.readDomains) &&& ~~~gpuDomains = 0 ∧
    (s.obj target).gttOffset.toUInt64 ≠ e.reloc.presumedOffset ∧
    ¬ e.reloc.offset > (s.obj obj).size - 4 ∧
    e.reloc.offset &&& 3 = 0 ∧
    ((objectSetToGttDomain obj e.setToGttDomain s).1 ≠ 0 ∨ e.putFence.ret ≠ 0)

/-- The pass over the relocations ends at one whose object cannot be made ready. -/
def PassWriteFails (a : Args) (copies : Bool) (file : Nat) (mem : Nat → Nat → RelocEnv)
    (objects : List Nat) (s : Eb) : Prop :=
  ∃ obj t p u, Lib.Act.failsAt (relocateObject a copies file mem) objects s = some (obj, t) ∧
    Lib.Act.failsAt (fun p => .call (relocateOne copies file obj p))
      (a.relocs mem (t.obj obj).execEntry) t = some (p, u) ∧
    ¬ (copies = true ∧ p.2 % nReloc = 0 ∧ p.1.copyFault = true) ∧ WriteFails file obj p.1 u

/-- With the mutex again: the handles name different objects, and no relocation fails at its
object. -/
def SlowSound (a : Args) (e : Env) (s : Eb) : Prop :=
  (knownObjects (s.gem.files e.file) a.exec).Nodup ∧
    ∀ last l t, acquireObjects false a e e.slow.reserve s = some (0, last, l, t) →
      ¬ PassWriteFails a false e.file e.slow.reloc l.nodes t

/-- With the objects placed: no relocation fails at its object, neither in the first pass nor, if
that leads to it, in the slow path. -/
def FastSound (a : Args) (e : Env) (objects : List Nat) (s : Eb) : Prop :=
  ¬ PassWriteFails a true e.file e.reloc objects { s with pass := .fast } ∧
    ∀ t, execbufferRelocate a e.file e.reloc objects { s with pass := .fast } = some (-EFAULT, t) →
      e.slow.alloc = true → e.slow.copyFault = false → e.slow.lock = 0 →
      SlowSound a e ((putObjects objects t).relock e.slow.state)

/-- If the call gets to the look-ups, the handles (up to the first that names no object) name
different objects, whose nodes are not in use; and if it gets to the relocations, these are sound. -/
def Sound (a : Args) (e : Env) (s : Eb) : Prop :=
  (preMutex a e s).isOk = true →
    (knownObjects (s.gem.files e.file) a.exec).Nodup ∧
    (∀ o ∈ knownObjects (s.gem.files e.file) a.exec, (s.obj o).listed = false) ∧
    ∀ last l t, acquireObjects true a e e.reserve (s.start a) = some (0, last, l, t) →
      t.needRelocs = true → FastSound a e l.nodes t

/-! ## Targets -/

/-- The objects that the look-ups leave on the list, each with its entry. -/
def listObjects (head : Drm.IdrList Nat) :
    List (ExecObject × Nat) → List (Nat × Nat) → List (Nat × Nat)
  | [], l => l
  | (x, i) :: rest, l =>
    match Drm.idrListFind head x.handle with
    | none => l
    | some o => listObjects head rest (l.takeWhile (·.1 ≠ o) ++ [(o, i)])

/-- The list of an execbuffer, with the handles that its file has. -/
def Args.list (a : Args) (head : Drm.IdrList Nat) : List (Nat × Nat) :=
  listObjects head a.exec.zipIdx []

/-- The handles that the file has when a pass begins. -/
def passHandles (e : Env) (s : Eb) : RelocPass → Drm.IdrList Nat
  | .slow => e.slow.state.gem.files e.file
  | _ => s.gem.files e.file

/-- The relocations that a pass reads. -/
def passMemory (e : Env) : RelocPass → Nat → Nat → RelocEnv
  | .slow => e.slow.reloc
  | _ => e.reloc

/-- The relocation's target is an object of the list, bound in the GTT where the relocation says, and
on the active list. -/
def TargetKept (list : List (Nat × Nat)) (head : Drm.IdrList Nat) (s : Eb) (r : Reloc) : Prop :=
  ∃ o, Drm.idrListFind head r.targetHandle = some o ∧ o ∈ list.map Prod.fst ∧
    (s.obj o).gttSpace = true ∧ (s.obj o).gttOffset.toUInt64 = r.presumedOffset ∧
    (s.obj o).active = true

/-- Every relocation of the list has a handle of an object of the list. -/
def TargetsListed (a : Args) (head : Drm.IdrList Nat) (mem : Nat → Nat → RelocEnv) : Prop :=
  ∀ p ∈ a.list head, ∀ j < (a.entry p.2).relocationCount.toNat,
    ∃ o ∈ (a.list head).map Prod.fst,
      Drm.idrListFind head (mem p.2 j).reloc.targetHandle = some o

end I915.Exec
