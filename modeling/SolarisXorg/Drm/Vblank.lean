import Mathlib.Algebra.Group.Int.Defs
import Mathlib.Algebra.Group.Nat.Defs
import Mathlib.Logic.Function.Basic
import SolarisXorg.Lib.Run

/-!
# Vertical blanks: counters, references and events (`drm_irq.c`, `drm_fops.c`)

The first part is about one crtc: the hardware counter, the cooked counter `_vblank_count` and the
references that keep the interrupt on. The second part is the device: events that wait for a vblank
(`vblank_event_list`), events that wait for their reader (`event_list` of a file), and the threads
inside `drm_wait_vblank`.

A step is one critical section, or one access outside of them. Calls of `drm_vblank_pre_modeset` and
`drm_vblank_post_modeset` for the same crtc come one after the other (their callers hold the mode
setting locks), but are cut between their accesses. A file is closed when no call on it is in
progress. What the hardware answers (counter reads, whether a timestamp is to be had and whether it
differs from the last one, whether the interrupt can be enabled) is part of the label.
-/

namespace Drm

/-! ## One crtc -/

/-- The device's fields for one crtc. -/
structure VblCrtc where
  /-- `vblank_refcount` -/
  refcount : BitVec 32
  /-- `vblank_enabled` -/
  enabled : Bool
  /-- `_vblank_count` -/
  count : BitVec 32
  /-- `last_vblank` -/
  lastVblank : BitVec 32
  /-- `vblank_inmodeset` -/
  inmodeset : BitVec 32
  deriving DecidableEq, Repr

/-- One turn of the loop in `vblank_disable_and_save`: both reads of the hardware counter and
whether `drm_get_last_vbltimestamp` gave a timestamp. -/
structure VblSample where
  first : BitVec 32
  second : BitVec 32
  stamp : Bool
  deriving DecidableEq, Repr

/-- `DRM_TIMESTAMP_MAXRETRIES` -/
def timestampMaxretries : Nat := 3

/-- The loop of `vblank_disable_and_save`: the counter, and `vblrc` after it. -/
def saveCounter : Nat → List VblSample → Option (BitVec 32 × Bool)
  | _, [] => none
  | count, x :: xs =>
    if x.first = x.second then some (x.first, x.stamp)
    else if count - 1 = 0 then some (x.first, false)
    else if x.stamp then saveCounter (count - 1) xs
    else some (x.first, false)

/-- `vblank_disable_and_save`; `moved` is `abs(diff_ns) > 1000000`. -/
def vblankDisableAndSave (c : VblCrtc) (samples : List VblSample) (moved : Bool) :
    Option VblCrtc :=
  (saveCounter timestampMaxretries samples).map fun (last, vblrc) =>
    { c with
      enabled := false
      lastVblank := last
      count := if vblrc && moved then c.count + 1 else c.count }

/-- The loop of `drm_update_vblank_count`: the counter is read twice until both reads agree. -/
def readCounter : List (BitVec 32) → Option (BitVec 32)
  | a :: b :: reads => if a = b then some a else readCounter reads
  | _ => none

/-- `drm_update_vblank_count`, after its loop. -/
def drmUpdateVblankCount (maxVblankCount : BitVec 32) (c : VblCrtc) (curVblank : BitVec 32) :
    VblCrtc :=
  let diff := curVblank - c.lastVblank
  let diff := if curVblank < c.lastVblank then diff + maxVblankCount else diff
  { c with count := c.count + diff }

/-- `drm_vblank_get`; the flag is whether it returns 0. -/
def drmVblankGet (maxVblankCount : BitVec 32) (c : VblCrtc) (enableVblank : Bool)
    (reads : List (BitVec 32)) : Option (VblCrtc × Bool) :=
  let failed := { c with refcount := c.refcount + 1 - 1 }
  let c := { c with refcount := c.refcount + 1 }
  if c.refcount = 1 then
    if c.enabled then some (c, true)
    else if enableVblank then
      (readCounter reads).map fun cur =>
        (drmUpdateVblankCount maxVblankCount { c with enabled := true } cur, true)
    else some (failed, false)
  else if c.enabled then some (c, true)
  else some (failed, false)

/-! ## The device -/

/-- What is fixed about a device; `eventSize` is `sizeof(struct drm_event_vblank)`. -/
structure VblConfig where
  numCrtcs : Nat
  maxVblankCount : BitVec 32
  eventSize : Nat
  deriving DecidableEq, Repr

/-- `struct drm_pending_vblank_event` -/
structure VblEvent where
  pipe : Nat
  file : Nat
  sequence : BitVec 32
  length : Nat
  deriving DecidableEq, Repr

/-- The fields of `struct drm_file` for events. -/
structure VblFile where
  eventSpace : Int
  eventList : List VblEvent
  deriving DecidableEq, Repr

/-- `request.type & _DRM_VBLANK_TYPES_MASK` -/
inductive VblType
  | absolute
  | relative
  | other
  deriving DecidableEq, Repr

/-- `union drm_wait_vblank`, its `type` taken apart. -/
structure VblRequest where
  signal : Bool
  unsupported : Bool
  type : VblType
  event : Bool
  nextonmiss : Bool
  secondary : Bool
  highCrtc : Nat
  sequence : BitVec 32
  deriving DecidableEq, Repr

/-- Where a thread is inside `drm_wait_vblank`. It has its reference from the first of these on. -/
inductive VblStage
  /-- `drm_vblank_get` has returned 0 -/
  | got
  /-- in `drm_queue_vblank_event` -/
  | queueing
  /-- in `DRM_WAIT_ON` -/
  | waiting
  /-- before `drm_vblank_put` -/
  | done
  deriving DecidableEq, Repr

/-- A thread inside `drm_wait_vblank`. -/
structure VblThread where
  file : Nat
  crtc : Nat
  request : VblRequest
  stage : VblStage
  deriving DecidableEq, Repr

/-- Where a call of `drm_vblank_pre_modeset` or `drm_vblank_post_modeset` is. -/
inductive ModesetPc
  | idle
  /-- `vblank_inmodeset` is 1, `drm_vblank_get` comes next -/
  | preGet
  /-- the reference is there, `|= 0x2` comes next -/
  | preSet
  /-- `drm_vblank_put` comes next -/
  | postPut
  /-- the reference is given back, `= 0` comes next; the flag is whether there was one -/
  | postClear (put : Bool)
  deriving DecidableEq, Repr

/-- The device. `bug` is set when a `BUG_ON` fires. -/
structure VblSys where
  crtcs : Nat → VblCrtc
  disableAllowed : Bool
  /-- `vblank_event_list` -/
  pending : List VblEvent
  /-- the open files -/
  files : Nat → Option VblFile
  threads : List VblThread
  modeset : Nat → ModesetPc
  bug : Bool

namespace VblSys

variable (s : VblSys)

def setCrtc (crtc : Nat) (c : VblCrtc) : VblSys :=
  { s with crtcs := Function.update s.crtcs crtc c }

def setFile (file : Nat) (f : VblFile) : VblSys :=
  { s with files := Function.update s.files file (some f) }

/-- `drm_vblank_put` -/
def vblankPut (crtc : Nat) : VblSys :=
  { s.setCrtc crtc { s.crtcs crtc with refcount := (s.crtcs crtc).refcount - 1 } with
    bug := s.bug || (s.crtcs crtc).refcount == 0 }

/-- `send_vblank_event` -/
def sendVblankEvent (seq : BitVec 32) (e : VblEvent) : VblSys :=
  match s.files e.file with
  | some f =>
    s.setFile e.file { f with eventList := f.eventList ++ [{ e with sequence := seq }] }
  | none => s

/-- The loops over `vblank_event_list`: the events that `p` picks are taken off the list, each
handed to `act`. -/
def sweep (p : VblEvent → Bool) (act : VblSys → VblEvent → VblSys) : VblSys :=
  { (s.pending.filter p).foldl act s with pending := s.pending.filter (fun e => !p e) }

/-- The body of both delivery loops. -/
def deliver (seq : BitVec 32) (s : VblSys) (e : VblEvent) : VblSys :=
  (s.vblankPut e.pipe).sendVblankEvent seq e

end VblSys

/-- `seq - sequence <= (1 << 23)`: the vblank `sequence` is there or past. -/
def passed (seq sequence : BitVec 32) : Bool := seq - sequence ≤ 1 <<< 23

/-- `drm_handle_vblank_events` -/
def drmHandleVblankEvents (s : VblSys) (crtc : Nat) : VblSys :=
  let seq := (s.crtcs crtc).count
  s.sweep (fun e => e.pipe == crtc && passed seq e.sequence) (VblSys.deliver seq)

/-- `drm_handle_vblank`; `moved` is whether the timestamp is a new one. -/
def drmHandleVblank (cfg : VblConfig) (s : VblSys) (crtc : Nat) (moved : Bool) : VblSys :=
  if cfg.numCrtcs = 0 then s
  else
    let c := s.crtcs crtc
    if !c.enabled then s
    else
      let s := if moved then s.setCrtc crtc { c with count := c.count + 1 } else s
      drmHandleVblankEvents s crtc

/-- The file's space as it is compared with a `size_t`. -/
def VblFile.space (f : VblFile) : Int := f.eventSpace % 2 ^ 64

/-- The crtc that a request is about. -/
def VblRequest.crtc (r : VblRequest) : Nat :=
  if r.highCrtc ≠ 0 then r.highCrtc else if r.secondary then 1 else 0

/-- What a thread does after it has read the counter. -/
def VblThread.dispatch (t : VblThread) (seq : BitVec 32) : VblThread :=
  let sequence := if t.request.type = .relative then t.request.sequence + seq
    else t.request.sequence
  if t.request.type = .other then { t with stage := .done }
  else if t.request.event then
    { t with request := { t.request with sequence := sequence }, stage := .queueing }
  else
    let sequence := if t.request.nextonmiss && passed seq sequence then seq + 1 else sequence
    { t with request := { t.request with sequence := sequence }, stage := .waiting }

/-- `drm_dequeue_event` -/
def drmDequeueEvent (s : VblSys) (file : Nat) (f : VblFile) (total max : Nat) : VblSys :=
  match f.eventList with
  | [] => s
  | e :: es =>
    if max < e.length + total then s
    else s.setFile file { eventSpace := f.eventSpace + e.length, eventList := es }

/-- After `drm_vblank_init`. -/
def vblInit : VblSys where
  crtcs _ :=
    { refcount := 0
      enabled := false
      count := 0
      lastVblank := 0
      inmodeset := 0 }
  disableAllowed := false
  pending := []
  files _ := none
  threads := []
  modeset _ := .idle
  bug := false

/-! ## The accounts -/

/-- `1 if vblank_inmodeset has bit 0x2` -/
def VblCrtc.modesetRef (c : VblCrtc) : Nat := if c.inmodeset &&& 2 ≠ 0 then 1 else 0

/-- A reference that `drm_vblank_pre_modeset` has and `vblank_inmodeset` does not show yet. -/
def ModesetPc.taken : ModesetPc → Nat
  | .preSet => 1
  | _ => 0

/-- A reference that `drm_vblank_post_modeset` has given back and `vblank_inmodeset` still shows. -/
def ModesetPc.given : ModesetPc → Nat
  | .postClear true => 1
  | _ => 0

/-- The events of a list that are for `crtc`. -/
def eventsFor (events : List VblEvent) (crtc : Nat) : Nat := events.countP (·.pipe == crtc)

/-- The events of a list that belong to `file`. -/
def eventsOf (events : List VblEvent) (file : Nat) : Nat := events.countP (·.file == file)

/-- The threads of a list that wait for `crtc`. -/
def threadsOn (threads : List VblThread) (crtc : Nat) : Nat := threads.countP (·.crtc == crtc)

/-- What `vblank_refcount` is to count: pending events, threads inside `drm_wait_vblank`, and the
mode setting reference. -/
def VblSys.holders (s : VblSys) (crtc : Nat) : Nat :=
  eventsFor s.pending crtc + threadsOn s.threads crtc + (s.crtcs crtc).modesetRef

/-- The references fit into `vblank_refcount`. -/
def VblSys.Fits (s : VblSys) : Prop :=
  ∀ crtc, s.holders crtc + (s.modeset crtc).taken < 2 ^ 32

end Drm
