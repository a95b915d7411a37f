import Mathlib.Algebra.Group.Int.Defs
import Mathlib.Algebra.Group.Nat.Defs
import Mathlib.Data.Set.Defs
import SolarisXorg.Lib.Run
import SolarisXorg.Lib.Loop

/-!
# DMA buffers (`drm_bufs.c`, `drm_dma.c`, `drm_memory.c`)

`drm_addbufs_agp` and `drm_addbufs_sg` allocate the buffers of one size order (an entry of
`dma->bufs`) and append pointers to them to the master vector `dma->buflist`. The two differ in how
they grow the vector: the one copies by hand, the other calls `drm_realloc`.

A pointer into an entry is the entry's order with an index. Memory fresh from `kmem_alloc` holds
whatever was there, which is a part of the call here, as is the answer of a `KM_NOSLEEP` allocation.
A `KM_SLEEP` allocation fails for size 0 only.
-/

namespace Drm

open Lib

/-- The errors of `drm_addbufs_agp` and `drm_addbufs_sg`. -/
inductive BufsError
  | einval
  | ebusy
  | enomem
  | eperm
  deriving DecidableEq, Repr

/-- `struct drm_buf` -/
structure Buf where
  idx : Nat
  total : Int32
  order : Nat
  offset : UInt64
  busAddress : UInt64
  address : UInt64
  devPrivSize : Nat
  deriving DecidableEq, Repr

/-- `struct drm_buf_entry` -/
structure BufEntry where
  bufSize : Int32
  bufCount : Nat
  buflist : List Buf
  segCount : Nat
  pageOrder : Nat
  deriving DecidableEq, Repr

/-- A `struct drm_buf *`. -/
inductive BufPtr
  | null
  /-- `&dma->bufs[order].buflist[i]` -/
  | buf (order i : Nat)
  /-- an address with no buffer behind it -/
  | wild (addr : Nat)
  deriving DecidableEq, Repr

/-- `struct drm_device_dma` -/
structure Dma where
  bufs : Nat → BufEntry
  bufCount : Nat
  buflist : List BufPtr
  segCount : Nat
  pageCount : Int32
  byteCount : UInt64
  flags : Nat

/-- What the two functions read of the device. -/
structure BufsDev where
  agpBase : UInt64
  sgHandle : UInt64
  bufPrivSize : Nat
  bufUse : Nat
  driverSg : Bool
  dma : Option Dma

/-- `struct drm_buf_desc`, with `_DRM_PAGE_ALIGN` of its flags. -/
structure BufDesc where
  count : Int
  size : Int32
  pageAlign : Bool
  agpStart : UInt64
  deriving DecidableEq, Repr

/-- The buffer behind a pointer. -/
def Dma.deref (dma : Dma) : BufPtr → Option Buf
  | .buf order i => (dma.bufs order).buflist[i]?
  | _ => none

/-- `memset(dev->dma, 0, sizeof(*dev->dma))` -/
def Dma.zero : Dma where
  bufs := fun _ => ⟨0, 0, [], 0, 0⟩
  bufCount := 0
  buflist := []
  segCount := 0
  pageCount := 0
  byteCount := 0
  flags := 0

/-- `drm_dma_setup` -/
def drmDmaSetup (dev : BufsDev) : BufsDev := { dev with dma := some .zero }

/-! ## Arithmetic -/

/-- An `int` in an `unsigned long` sum. -/
def intToUlong (x : Int32) : UInt64 := x.toInt64.toUInt64

/-- `drm_order` -/
def drmOrder (size : UInt64) : Nat :=
  size.toNat.log2 + (if size &&& (size - 1) = 0 then 0 else 1)

/-- `round_page` -/
def roundPage (x : Int32) : Int32 := (x + 4095) &&& ~~~4095

/-- `DRM_MIN_ORDER` -/
def drmMinOrder : Nat := 5

/-- `DRM_MAX_ORDER` -/
def drmMaxOrder : Nat := 22

namespace BufDesc

def order (request : BufDesc) : Nat := drmOrder (intToUlong request.size)

/-- `size = 1 << order` -/
def bufSize (request : BufDesc) : Int32 := .ofNat (2 ^ request.order)

def alignment (request : BufDesc) : Int32 :=
  if request.pageAlign then roundPage request.bufSize else request.bufSize

def pageOrder (request : BufDesc) : Nat := request.order - 12

/-- `PAGE_SIZE << page_order` -/
def bufBytes (request : BufDesc) : Int32 := .ofNat (4096 * 2 ^ request.pageOrder)

end BufDesc

/-! ## Filling an entry -/

/-- The variables of the loop that makes the buffers; `entry->buf_count` is the length of the list. -/
structure BufsFill where
  buflist : List Buf
  offset : UInt64
  byteCount : Int32
  deriving DecidableEq, Repr

section Fill

variable (dma : Dma) (request : BufDesc) (agpOffset addrBase : UInt64) (bufPrivSize : Nat)

/-- A pass of the loop. -/
def BufsFill.add (f : BufsFill) : BufsFill where
  buflist := f.buflist ++ [{
    idx := dma.bufCount + f.buflist.length
    total := request.alignment
    order := request.order
    offset := dma.byteCount + f.offset
    busAddress := agpOffset + f.offset
    address := agpOffset + f.offset + addrBase
    devPrivSize := bufPrivSize }]
  offset := f.offset + intToUlong request.alignment
  byteCount := f.byteCount + request.bufBytes

/-- The loop, for `n` more buffers; `none` is that there is no memory for `dev_private`. -/
def BufsFill.run : Nat → BufsFill → Option BufsFill
  | 0, f => some f
  | n + 1, f =>
    if bufPrivSize = 0 then none
    else BufsFill.run n (f.add dma request agpOffset addrBase bufPrivSize)

end Fill

/-- `drm_cleanup_buf_error` -/
def drmCleanupBufError (entry : BufEntry) : BufEntry :=
  { entry with segCount := 0, bufCount := 0 }

/-- `dma` with another entry. -/
def Dma.setEntry (dma : Dma) (order : Nat) (entry : BufEntry) : Dma :=
  { dma with bufs := fun o => if o = order then entry else dma.bufs o }

/-- The part of the two functions from the check of the order to the end of the loop: the entry's
buffers, or an error with what it leaves of `dma`. -/
def addbufsFill (dev : BufsDev) (dma : Dma) (request : BufDesc) (agpOffset addrBase : UInt64) :
    Except (BufsError × Dma) (Dma × BufEntry × Int32) :=
  let order := request.order
  let entry := dma.bufs order
  if order < drmMinOrder ∨ drmMaxOrder < order then .error (.einval, dma)
  else if dev.bufUse ≠ 0 then .error (.ebusy, dma)
  -- may only call once for each order
  else if entry.bufCount ≠ 0 then .error (.enomem, dma)
  else if request.count < 0 ∨ 4096 < request.count then .error (.einval, dma)
  else if request.count = 0 then .error (.enomem, dma.setEntry order { entry with buflist := [] })
  else
    let entry := { entry with bufSize := request.bufSize, pageOrder := request.pageOrder }
    match BufsFill.run dma request agpOffset addrBase dev.bufPrivSize request.count.toNat
        ⟨[], 0, 0⟩ with
    | none => .error (.enomem, dma.setEntry order (drmCleanupBufError entry))
    | some f =>
      let entry := { entry with bufCount := f.buflist.length, buflist := f.buflist }
      .ok (dma.setEntry order entry, entry, f.byteCount)

/-! ## Growing the vector -/

/-- `bcopy(src, dst, n)`: what `dst` holds afterwards. -/
def bcopy (src dst : List BufPtr) (n : Nat) : List BufPtr := src.take n ++ dst.drop n

/-- `drm_realloc`, for a vector of pointers. -/
def drmRealloc (allocOk : Bool) (oldpt : List BufPtr) (oldsize size : Nat) : Option (List BufPtr) :=
  if allocOk ∧ size ≠ 0 then
    let pt := List.replicate size .null
    if oldsize ≠ 0 then some (bcopy oldpt pt (min oldsize size)) else some pt
  else none

/-- `dma->buflist[i + dma->buf_count] = &entry->buflist[i]`, for the `n` buffers of an entry. -/
def storePtrs (buflist : List BufPtr) (bufCount order n : Nat) : List BufPtr :=
  storeLoop (.buf order) bufCount buflist n

/-- A call, with what the allocator does in it: the contents of fresh memory, and whether a
`KM_NOSLEEP` allocation succeeds. -/
structure AddbufsCall where
  agp : Bool
  request : BufDesc
  suser : Bool
  fresh : Nat → BufPtr
  allocOk : Bool

/-- `drm_addbufs_agp`: an error, or the new `dma`. -/
def drmAddbufsAgp (dev : BufsDev) (request : BufDesc) (fresh : Nat → BufPtr) :
    Except (BufsError × Option Dma) Dma :=
  match dev.dma with
  | none => .error (.einval, none)
  | some dma =>
    match addbufsFill dev dma request (dev.agpBase + request.agpStart) 0 with
    | .error (e, dma) => .error (e, some dma)
    | .ok (dma, entry, byteCount) =>
      let temp := (List.range (dma.bufCount + entry.bufCount)).map fresh
      -- `bcopy(temp_buflist, dma->buflist, ...)` writes into the old vector, which is freed next
      let (temp, _old) := (temp, bcopy temp dma.buflist dma.bufCount)
      .ok { dma with
        buflist := storePtrs temp dma.bufCount request.order entry.bufCount
        bufCount := dma.bufCount + entry.bufCount
        segCount := dma.segCount + entry.segCount
        pageCount := dma.pageCount + (byteCount >>> 12)
        byteCount := dma.byteCount + intToUlong byteCount
        flags := 0x01 }

/-- `drm_addbufs_sg` -/
def drmAddbufsSg (dev : BufsDev) (request : BufDesc) (suser allocOk : Bool) :
    Except (BufsError × Option Dma) Dma :=
  if dev.driverSg = false then .error (.einval, dev.dma)
  else
    match dev.dma with
    | none => .error (.einval, none)
    | some dma =>
      if suser = false then .error (.eperm, some dma)
      else
        match addbufsFill dev dma request request.agpStart dev.sgHandle with
        | .error (e, dma) => .error (e, some dma)
        | .ok (dma, entry, byteCount) =>
          match drmRealloc allocOk dma.buflist dma.bufCount (dma.bufCount + entry.bufCount) with
          | none => .error (.enomem, some (dma.setEntry request.order (drmCleanupBufError entry)))
          | some temp =>
            .ok { dma with
              buflist := storePtrs temp dma.bufCount request.order entry.bufCount
              bufCount := dma.bufCount + entry.bufCount
              byteCount := dma.byteCount + intToUlong byteCount
              flags := 0x02 }

/-- A successful call. -/
def addbufsStep (dev : BufsDev) (c : AddbufsCall) : Option BufsDev :=
  let r := if c.agp then drmAddbufsAgp dev c.request c.fresh
    else drmAddbufsSg dev c.request c.suser c.allocOk
  match r with
  | .ok dma => some { dev with dma := some dma }
  | .error _ => none

/-! ## The master vector -/

/-- The vector has a pointer to every buffer of every entry once, and buffer `i` at place `i`. -/
structure Dma.VectorOk (dma : Dma) : Prop where
  length : dma.buflist.length = dma.bufCount
  idx : ∀ i, i < dma.bufCount → ∃ p b, dma.buflist[i]? = some p ∧ dma.deref p = some b ∧ b.idx = i
  once : ∀ order i, i < (dma.bufs order).bufCount → dma.buflist.count (.buf order i) = 1

/-- What was there before is still there. -/
structure Dma.Kept (dma dma' : Dma) : Prop where
  vector : dma.buflist <+: dma'.buflist
  entries : ∀ order, (dma.bufs order).bufCount ≠ 0 → dma'.bufs order = dma.bufs order

/-! ## The places of the buffers -/

/-- The device after a call, whether it succeeds or not. -/
def addbufsNext (dev : BufsDev) (c : AddbufsCall) : BufsDev :=
  let r := if c.agp then drmAddbufsAgp dev c.request c.fresh
    else drmAddbufsSg dev c.request c.suser c.allocOk
  match r with
  | .ok dma => { dev with dma := some dma }
  | .error (_, dma) => { dev with dma := dma }

/-- Buffer `i` of an order. -/
def Dma.buffer (dma : Dma) (order i : Nat) : Option Buf :=
  if i < (dma.bufs order).bufCount then (dma.bufs order).buflist[i]? else none

/-- The end of a buffer's place, which begins at `buf->offset`. -/
def Buf.stop (b : Buf) : Int := b.offset.toNat + b.total.toInt

/-- A buffer's place. -/
def Buf.place (b : Buf) : Set Int := {x | b.offset.toNat ≤ x ∧ x < b.stop}

/-- The places of the buffers do not overlap and lie below `dma->byte_count`. -/
structure Dma.Placed (dma : Dma) : Prop where
  disjoint : ∀ order i b order' i' b', dma.buffer order i = some b →
    dma.buffer order' i' = some b' → (order, i) ≠ (order', i') → ∀ x ∈ b.place, x ∉ b'.place
  below : ∀ order i b, dma.buffer order i = some b → b.stop ≤ dma.byteCount.toNat

/-- The bytes of the request's buffers, `count` times `PAGE_SIZE << page_order`, fit an `int`, if it
passes the checks of its order and its count. -/
def BufDesc.FitsInt (request : BufDesc) : Prop :=
  drmMinOrder ≤ request.order → request.order ≤ drmMaxOrder → request.count ≤ 4096 →
    request.count * (4096 * 2 ^ request.pageOrder : Nat) < 2 ^ 31

end Drm
