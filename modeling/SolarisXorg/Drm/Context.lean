import SolarisXorg.Drm.Idr

/-!
# Contexts (`drm_context.c`, `drm_fops.c`)

A context is known twice: by its id in `ctx_idr`, with a null object, and by an entry of `ctxlist`
that says whose it is. `drm_addctx` makes both, `drm_rmctx` and `drm_release` take both away. A
file is a number. What the allocations answer is part of the call; a call that runs into a panic of
the idr has no result.
-/

namespace Drm

/-- `DRM_KERNEL_CONTEXT` -/
def drmKernelContext : BitVec 32 := 0

/-- `DRM_RESERVED_CONTEXTS` -/
def drmReservedContexts : Int32 := 1

/-- `struct drm_ctx_list` -/
structure CtxList where
  handle : BitVec 32
  tag : Nat
  deriving DecidableEq, Repr

/-- The fields of `struct drm_device` for contexts. -/
structure CtxDev where
  ctxIdr : Idr Unit
  ctxlist : List CtxList
  ctxCount : Int
  deriving DecidableEq, Repr

/-- `drm_ctxbitmap_free` -/
def drmCtxbitmapFree (s : CtxDev) (ctxHandle : BitVec 32) (mem : Bool) : Option CtxDev :=
  (idrRemove s.ctxIdr ctxHandle.toNat mem).map fun (_, idrp) => { s with ctxIdr := idrp }

/-- `drm_ctxbitmap_next`; `idr_pre_get` never fails and `idr_get_new_above` never returns
`-EAGAIN`. -/
def drmCtxbitmapNext (s : CtxDev) (mem : Bool) : Option (Int × CtxDev) :=
  (idrGetNewAbove s.ctxIdr none drmReservedContexts mem).map fun (ret, idrp) =>
    let s := { s with ctxIdr := idrp }
    match ret with
    | .ok newId => (newId, s)
    | .error ret => (ret, s)

/-- `drm_addctx`: what it returns, `ctx->handle` and the device. `mem` and `mem'` are for the nodes of
the two calls of `drm_ctxbitmap_next`, `memEntry` for the entry. -/
def drmAddctx (s : CtxDev) (tag : Nat) (mem mem' memEntry : Bool) :
    Option (Int × BitVec 32 × CtxDev) := do
  let (next, s) ← drmCtxbitmapNext s mem
  let handle := BitVec.ofInt 32 next
  let (handle, s) ←
    -- the kernel's context is skipped
    if handle = drmKernelContext then
      (drmCtxbitmapNext s mem').map fun (next, s) => (BitVec.ofInt 32 next, s)
    else some (handle, s)
  if handle = -1 then some (-ENOMEM, handle, s)
  else if !memEntry then some (-ENOMEM, handle, s)
  else some (0, handle,
    { s with
      ctxlist := { handle := handle, tag := tag } :: s.ctxlist
      ctxCount := s.ctxCount + 1 })

/-- The loop of `drm_rmctx` over `ctxlist`: the entries that stay, and the count. -/
def rmctxLoop (handle : BitVec 32) : List CtxList → Int → List CtxList × Int
  | [], count => ([], count)
  | pos :: rest, count =>
    if pos.handle = handle then rmctxLoop handle rest (count - 1)
    else
      let r := rmctxLoop handle rest count
      (pos :: r.1, r.2)

/-- `drm_rmctx` -/
def drmRmctx (s : CtxDev) (handle : BitVec 32) (mem : Bool) : Option CtxDev := do
  let s ← if handle ≠ drmKernelContext then drmCtxbitmapFree s handle mem else some s
  let r := rmctxLoop handle s.ctxlist s.ctxCount
  some { s with ctxlist := r.1, ctxCount := r.2 }

/-- The loop of `drm_release` over `ctxlist`; `mem` says whether the allocation for the id of a handle
succeeds. -/
def releaseCtxLoop (file : Nat) (mem : BitVec 32 → Bool) :
    List CtxList → CtxDev → Option CtxDev
  | [], s => some { s with ctxlist := [] }
  | pos :: rest, s =>
    if pos.tag = file ∧ pos.handle ≠ drmKernelContext then do
      let s ← drmCtxbitmapFree s pos.handle (mem pos.handle)
      releaseCtxLoop file mem rest { s with ctxCount := s.ctxCount - 1 }
    else
      (releaseCtxLoop file mem rest s).map fun t => { t with ctxlist := pos :: t.ctxlist }

/-- `drm_release`, as far as contexts go -/
def drmReleaseCtx (s : CtxDev) (file : Nat) (mem : BitVec 32 → Bool) : Option CtxDev :=
  releaseCtxLoop file mem s.ctxlist s

/-- The calls, with what `drm_addctx` returns and the handle it reports. -/
inductive CtxCall
  | addctx (tag : Nat) (mem mem' memEntry : Bool) (ret : Int) (handle : BitVec 32)
  | rmctx (handle : BitVec 32) (mem : Bool)
  | release (file : Nat) (mem : BitVec 32 → Bool)

/-- `t` is the device after a call on `s`. -/
def ctxCall (s : CtxDev) (c : CtxCall) (t : CtxDev) : Prop :=
  match c with
  | .addctx tag mem mem' memEntry ret handle =>
    drmAddctx s tag mem mem' memEntry = some (ret, handle, t)
  | .rmctx handle mem => drmRmctx s handle mem = some t
  | .release file mem => drmReleaseCtx s file mem = some t

/-- Every allocation the call makes succeeds. -/
def CtxCall.MemOk : CtxCall → Prop
  | .addctx _ mem mem' memEntry _ _ => mem = true ∧ mem' = true ∧ memEntry = true
  | .rmctx _ mem => mem = true
  | .release _ mem => ∀ handle, mem handle = true

/-- After `drm_ctxbitmap_init`. -/
def ctxInit : CtxDev := { ctxIdr := idrInit, ctxlist := [], ctxCount := 0 }

/-- Runs in which every allocation succeeds. -/
def CtxRun : CtxDev → List CtxCall → CtxDev → Prop :=
  Lib.Run fun s c t => c.MemOk ∧ ctxCall s c t

/-! ## Both tables agree -/

/-- The handles on `ctxlist`, as ids. -/
def CtxDev.handles (s : CtxDev) : List Nat := s.ctxlist.map (·.handle.toNat)

/-- The handles on `ctxlist` are the ids in use, each once, and `ctx_count` is their number. -/
structure CtxDev.Consistent (s : CtxDev) : Prop where
  once : s.handles.Nodup
  used : ∀ id, id ∈ s.handles ↔ s.ctxIdr.Used id
  count : s.ctxCount = s.ctxlist.length

end Drm
