import SolarisXorg.Drm.Idr
import SolarisXorg.Drm.Lock
import SolarisXorg.Drm.Maps
import SolarisXorg.Drm.Vblank

/-!
# One call of `drm_wait_vblank` and what it returns (`DRM_WAIT_ON`)

`Drm/Vblank.lean` has the threads inside `drm_wait_vblank` and their references. Here is one call of
it, from the request to the value it returns and the reply it leaves. `DRM_WAIT_ON` tests its
condition and sleeps in `cv_reltimedwait_sig` in turn: the script of a wait gives what each test
finds and the value of the sleep after it, which is -1 for a timeout, 0 for a signal and positive
when the sleeper was woken. What the call reads of the device is `VblEnv`.
-/

namespace Drm

/-! ## `DRM_WAIT_ON` -/

/-- `DRM_WAIT_ON`, with `ret` the variable of that name. There is no result if the script does not
end the wait. -/
def drmWaitOn {α : Type} (condition : α → Bool) (ret : Int) : List (α × Int) → Option Int
  | [] => none
  | (x, value) :: script =>
    if condition x then some ret
    else if value = -1 then some EBUSY
    else if value = 0 then some EINTR
    else drmWaitOn condition 0 script

/-- How a wait is over. -/
inductive WaitEnd (α : Type)
  /-- a test has found the condition -/
  | met (x : α)
  | timeout
  | signal
  deriving DecidableEq, Repr

/-- How a test and the sleep after it end the wait, if they do. -/
def endsWith {α : Type} (condition : α → Bool) (x : α × Int) : Option (WaitEnd α) :=
  if condition x.1 then some (.met x.1)
  else if x.2 = -1 then some .timeout
  else if x.2 = 0 then some .signal
  else none

/-- What ends the wait of a script. -/
def waitEnd {α : Type} (condition : α → Bool) (script : List (α × Int)) : Option (WaitEnd α) :=
  script.findSome? (endsWith condition)

/-- What `DRM_WAIT_ON` leaves in a `ret` that was 0. -/
def WaitEnd.ret {α : Type} : WaitEnd α → Int
  | .met _ => 0
  | .timeout => EBUSY
  | .signal => EINTR

/-! ## The request -/

/-- The switch on the type: a relative request becomes an absolute one. -/
def VblRequest.absolute (r : VblRequest) (seq : BitVec 32) : VblRequest :=
  if r.type = .relative then { r with sequence := r.sequence + seq, type := .absolute } else r

/-- The request that is waited for: `_DRM_VBLANK_NEXTONMISS` asks for the next vblank when the one
of the request is past. -/
def VblRequest.awaited (r : VblRequest) (seq : BitVec 32) : VblRequest :=
  let r := r.absolute seq
  if r.nextonmiss && passed seq r.sequence then { r with sequence := seq + 1 } else r

/-- `union drm_wait_vblank` as a call finds and leaves it. `reply.sequence` lies over
`request.sequence`, and `reply.tval_sec` over `request.signal`; nothing lies under
`reply.tval_usec`. -/
structure VblWait where
  request : VblRequest
  /-- `request.signal`, then `reply.tval_sec` -/
  signal : BitVec 64
  /-- `reply.tval_usec` -/
  usec : BitVec 64
  deriving DecidableEq, Repr

/-- What a test of the wait's condition reads. -/
structure VblLook where
  count : BitVec 32
  irqEnabled : Bool
  deriving DecidableEq, Repr

/-- The wait's condition. -/
def VblLook.there (sequence : BitVec 32) (x : VblLook) : Bool :=
  passed x.count sequence || !x.irqEnabled

/-! ## The call -/

/-- What a call reads of the device. -/
structure VblEnv where
  /-- `pdev->irq` is there -/
  irq : Bool
  irqEnabled : Bool
  numCrtcs : Nat
  /-- `drm_vblank_get` returns 0; it returns `-EINVAL` otherwise -/
  got : Bool
  /-- the counter after `drm_vblank_get` -/
  seq : BitVec 32
  script : List (VblLook × Int)
  /-- the counter and the time for the reply -/
  reply : BitVec 32
  sec : BitVec 64
  usec : BitVec 64
  /-- what `drm_queue_vblank_event` returns, and the reply it leaves -/
  queue : VblWait → Int × VblWait

/-- The checks at the start of `drm_wait_vblank` refuse the request. -/
def VblEnv.refuses (e : VblEnv) (r : VblRequest) : Bool :=
  !e.irq || !e.irqEnabled || r.signal || r.unsupported || decide (e.numCrtcs ≤ r.crtc)

/-- The reply over the request. -/
def VblWait.replied (v : VblWait) (e : VblEnv) : VblWait where
  request := { v.request with sequence := e.reply }
  signal := e.sec
  usec := e.usec

/-- `drm_wait_vblank`: what it returns, and what is left of the request. -/
def drmWaitVblankCall (e : VblEnv) (v : VblWait) : Option (Int × VblWait) :=
  if e.refuses v.request then some (-EINVAL, v)
  else if !e.got then some (-EINVAL, v)
  else if v.request.type = .other then some (-EINVAL, v)
  else if v.request.event then
    some (e.queue { v with request := v.request.absolute e.seq })
  else
    let v := { v with request := v.request.awaited e.seq }
    (drmWaitOn (VblLook.there v.request.sequence) 0 e.script).map fun ret =>
      (ret, if ret ≠ -EINTR then v.replied e else v)

/-! ## What is promised of it -/

/-- The request passes the checks of `drm_wait_vblank` and asks for no event. -/
structure VblEnv.Accepts (e : VblEnv) (r : VblRequest) : Prop where
  checks : e.refuses r = false
  type : r.type ≠ .other
  event : r.event = false

/-- What ends the wait for a request. -/
def VblEnv.waitEnd (e : VblEnv) (r : VblRequest) : Option (WaitEnd VblLook) :=
  Drm.waitEnd (VblLook.there (r.awaited e.seq).sequence) e.script

/-- What a call for `v` that returns `ret` and leaves `w` is to be: zero with a reply at or after
the vblank that was asked for, or a negative errno. -/
structure VblEnv.Kept (e : VblEnv) (v : VblWait) (ret : Int) (w : VblWait) : Prop where
  refused : e.got = false → ret < 0
  met : ∀ x, e.got = true → e.waitEnd v.request = some (.met x) →
    ret = 0 ∧ (passed w.request.sequence (v.request.awaited e.seq).sequence = true ∨
      x.irqEnabled = false)
  timeout : e.got = true → e.waitEnd v.request = some .timeout → ret = -EBUSY
  signal : e.got = true → e.waitEnd v.request = some .signal →
    ret = -EINTR ∧ w = { v with request := v.request.awaited e.seq }

/-- The wait ends neither with a timeout nor with a signal; when the counter is read for the reply
it is there or at most `2 ^ 23` past the awaited vblank, unless the interrupts were off. -/
def VblEnv.Reached (e : VblEnv) (r : VblRequest) : Prop :=
  e.got = true → ∀ w, e.waitEnd r = some w →
    ∃ x, w = .met x ∧ (passed e.reply (r.awaited e.seq).sequence = true ∨ x.irqEnabled = false)

end Drm
