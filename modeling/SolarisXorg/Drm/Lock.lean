import Mathlib.Algebra.Group.Nat.Defs
import SolarisXorg.Lib.Run

/-!
# The hardware lock and the idle lock (`drm_lock.c`)

`LockData` is `struct drm_lock_data` with the lock word in the place of the pointer to it. Every
routine below runs under `lock_mutex`, so that the compare-and-set loops go round once and a call is
one step; `drm_lock` lets go of the mutex while it sleeps in `cv_wait_sig`, and is cut there. The
flags of the lock word come from `drm.h`, which belongs to `libdrm`: they are `LockBits`, and all
that is asked of them is that the held flag is some bit.
-/

namespace Drm

/-- `_DRM_LOCK_HELD` and `_DRM_LOCK_CONT` -/
structure LockBits where
  held : BitVec 32
  cont : BitVec 32
  held_ne : held ≠ 0

/-- `_DRM_LOCK_IS_HELD` -/
def LockBits.isHeld (b : LockBits) (lock : BitVec 32) : Bool := lock &&& b.held != 0

/-- `_DRM_LOCKING_CONTEXT` -/
def LockBits.lockingContext (b : LockBits) (lock : BitVec 32) : BitVec 32 :=
  lock &&& ~~~(b.held ||| b.cont)

/-- The flags as `drm.h` defines them. -/
def drmLockBits : LockBits := ⟨0x80000000, 0x40000000, by decide⟩

/-- `DRM_KERNEL_CONTEXT` -/
def kernelContext : BitVec 32 := 0

/-- `struct drm_lock_data`; `lock` is `hw_lock->lock`. -/
structure LockData where
  lock : BitVec 32
  filePriv : Option Nat
  kernelWaiters : BitVec 32
  userWaiters : BitVec 32
  idleHasLock : Bool
  deriving DecidableEq, Repr

section
variable (b : LockBits)

/-- What `drm_lock_take` stores in the lock word. -/
def lockWord (d : LockData) (context : BitVec 32) : BitVec 32 :=
  if b.isHeld d.lock then d.lock ||| b.cont
  else context ||| b.held ||| (if 1 < d.userWaiters + d.kernelWaiters then b.cont else 0)

/-- `drm_lock_take` -/
def drmLockTake (d : LockData) (context : BitVec 32) : LockData × Bool :=
  let new := lockWord b d context
  ({ d with lock := new },
    if b.lockingContext d.lock = context ∧ b.isHeld d.lock = true then false
    else b.lockingContext new == context && b.isHeld new)

/-- `drm_lock_transfer` -/
def drmLockTransfer (d : LockData) (context : BitVec 32) : LockData :=
  { d with filePriv := none, lock := context ||| b.held }

/-- `drm_lock_free`; the flag is its return value. -/
def drmLockFree (d : LockData) (context : BitVec 32) : LockData × Bool :=
  if d.kernelWaiters ≠ 0 then
    ({ drmLockTransfer b d 0 with idleHasLock := true }, true)
  else
    ({ d with lock := b.lockingContext d.lock },
      b.isHeld d.lock && b.lockingContext d.lock != context)

/-- `drm_idlelock_take` -/
def drmIdlelockTake (d : LockData) : LockData :=
  let d := { d with kernelWaiters := d.kernelWaiters + 1 }
  if d.idleHasLock then d
  else
    let (d, got) := drmLockTake b d kernelContext
    if got then { d with idleHasLock := true } else d

/-- `drm_idlelock_release` -/
def drmIdlelockRelease (d : LockData) : LockData :=
  let d := { d with kernelWaiters := d.kernelWaiters - 1 }
  if d.kernelWaiters = 0 ∧ d.idleHasLock = true then
    { d with lock := kernelContext, idleHasLock := false }
  else d

end

/-! ## The callers -/

/-- The lock and the threads that sleep in `drm_lock`, each with its file and context. -/
structure LockSys where
  data : LockData
  sleepers : List (Nat × BitVec 32)
  deriving DecidableEq, Repr

/-- One critical section of `lock_mutex`. -/
inductive LockCall
  /-- `drm_lock`, as far as the first `drm_lock_take` -/
  | lock (file : Nat) (context : BitVec 32)
  /-- a sleeper of `drm_lock` wakes and tries again -/
  | retry (i : Nat)
  /-- a sleeper of `drm_lock` gets a signal -/
  | interrupt (i : Nat)
  | unlock (context : BitVec 32)
  /-- `drm_lock_free` from elsewhere (`drm_master_release`) -/
  | free (context : BitVec 32)
  | idlelockTake
  | idlelockRelease
  deriving DecidableEq, Repr

section
variable (b : LockBits)

/-- One turn of the loop in `drm_lock`: the thread has the lock and leaves, or it sleeps. -/
def drmLockTry (s : LockSys) (file : Nat) (context : BitVec 32) : LockSys :=
  let (d, got) := drmLockTake b s.data context
  if got then
    { s with data := { d with filePriv := some file, userWaiters := d.userWaiters - 1 } }
  else { data := d, sleepers := (file, context) :: s.sleepers }

/-- `drm_lock`; `dmaQueue` is the feature `DRIVER_DMA_QUEUE`, for which the context, an `int`, must
not be negative. -/
def drmLock (dmaQueue : Bool) (s : LockSys) (file : Nat) (context : BitVec 32) : LockSys :=
  if context = kernelContext ∨ (dmaQueue && context.msb) = true then s
  else
    let d := { s.data with userWaiters := s.data.userWaiters + 1 }
    drmLockTry b { s with data := d } file context

/-- `drm_unlock` -/
def drmUnlock (d : LockData) (context : BitVec 32) : LockData :=
  if context = kernelContext then d else (drmLockFree b d context).1

/-- One step; a sleeper that is not there takes none. -/
def lockStep (dmaQueue : Bool) (s : LockSys) : LockCall → Option LockSys
  | .lock file context => some (drmLock b dmaQueue s file context)
  | .retry i =>
    s.sleepers[i]?.map fun (file, context) =>
      drmLockTry b { s with sleepers := s.sleepers.eraseIdx i } file context
  | .interrupt i =>
    if i < s.sleepers.length then
      some ⟨{ s.data with userWaiters := s.data.userWaiters - 1 }, s.sleepers.eraseIdx i⟩
    else none
  | .unlock context => some { s with data := drmUnlock b s.data context }
  | .free context => some { s with data := (drmLockFree b s.data context).1 }
  | .idlelockTake => some { s with data := drmIdlelockTake b s.data }
  | .idlelockRelease => some { s with data := drmIdlelockRelease s.data }

end

/-! ## One call of `drm_lock` and what it returns -/

/-- One sleep of `drm_lock`: what the others do meanwhile, and the value of `cv_wait_sig`, which is 0
for a signal. -/
structure Wake where
  others : List LockCall
  value : Nat
  deriving DecidableEq, Repr

def EINTR : Int := 4

section
variable (b : LockBits) (dmaQueue : Bool)

/-- The loop of `drm_lock`, with `ret` the variable of that name. The call sleeps once for each of
the `wakes`; there is no result if it does not end with the last of them. -/
def drmLockLoop (file : Nat) (context : BitVec 32) (s : LockSys) (ret : Int) :
    List Wake → Option (Int × LockSys)
  | [] =>
    let (d, got) := drmLockTake b s.data context
    if got then some (ret, { s with data := { d with filePriv := some file } }) else none
  | wake :: wakes =>
    let (d, got) := drmLockTake b s.data context
    if got then none
    else do
      let s ← wake.others.foldlM (lockStep b dmaQueue) { s with data := d }
      if wake.value = 0 then if wakes.isEmpty then some (-EINTR, s) else none
      else drmLockLoop file context s wake.value wakes

/-- What `drm_lock` refuses; `hwLock` is whether there is a lock. -/
def drmLockRefuses (hwLock : Bool) (context : BitVec 32) : Bool :=
  context == kernelContext || !hwLock || dmaQueue && context.msb

/-- `drm_lock` without `dma_quiescent`: what it returns, with `-EINVAL` for a refusal, and the state
it leaves. -/
def drmLockCall (hwLock : Bool) (s : LockSys) (file : Nat) (context : BitVec 32)
    (wakes : List Wake) : Option (Int × LockSys) :=
  if drmLockRefuses dmaQueue hwLock context then if wakes.isEmpty then some (-22, s) else none
  else do
    let d := { s.data with userWaiters := s.data.userWaiters + 1 }
    let (ret, s) ← drmLockLoop b dmaQueue file context { s with data := d } 0 wakes
    some (ret, { s with data := { s.data with userWaiters := s.data.userWaiters - 1 } })

/-- The state in which the last of the sleeps ends. -/
def sleepsEnd (context : BitVec 32) (s : LockSys) : List Wake → Option LockSys
  | [] => some s
  | wake :: wakes => do
    let s ← wake.others.foldlM (lockStep b dmaQueue)
      { s with data := (drmLockTake b s.data context).1 }
    sleepsEnd context s wakes

/-- The state in which the last sleep of a call of `drm_lock` ends. -/
def lastSleepEnd (s : LockSys) (context : BitVec 32) (wakes : List Wake) : Option LockSys :=
  sleepsEnd b dmaQueue context
    { s with data := { s.data with userWaiters := s.data.userWaiters + 1 } } wakes

end

/-- A context holds the lock. -/
def LockData.HeldBy (b : LockBits) (d : LockData) (context : BitVec 32) : Prop :=
  b.isHeld d.lock = true ∧ b.lockingContext d.lock = context

/-- A file is the recorded holder of the lock, for a context. -/
def LockData.Holder (b : LockBits) (d : LockData) (file : Nat) (context : BitVec 32) : Prop :=
  d.filePriv = some file ∧ d.HeldBy b context

/-! ## Runs -/

/-- A new lock: the structure is cleared, the lock word is what the shared page holds. -/
def lockInit (lock : BitVec 32) : LockSys where
  data :=
    { lock := lock
      filePriv := none
      kernelWaiters := 0
      userWaiters := 0
      idleHasLock := false }
  sleepers := []

/-- The runs of the lock. -/
def LockRun (b : LockBits) (dmaQueue : Bool) (s : LockSys) (calls : List LockCall)
    (t : LockSys) : Prop :=
  Lib.Run (fun s c t => lockStep b dmaQueue s c = some t) s calls t

/-- No release of the idle lock comes before the take it gives back. -/
def ReleasesMatched (calls : List LockCall) : Prop :=
  ∀ p, p <+: calls → p.count .idlelockRelease ≤ p.count .idlelockTake

/-- The takes of the idle lock that are not given back stay below `2 ^ 32`. -/
def TakesFit (calls : List LockCall) : Prop :=
  ∀ p, p <+: calls → p.count .idlelockTake < p.count .idlelockRelease + 2 ^ 32

/-- The kernel has the lock: somebody waits for it, and the lock word says so. -/
def LockData.KernelHolds (b : LockBits) (d : LockData) : Prop :=
  0 < d.kernelWaiters ∧ b.isHeld d.lock = true ∧ b.lockingContext d.lock = kernelContext

end Drm
