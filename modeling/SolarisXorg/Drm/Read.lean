import SolarisXorg.Lib.Loop
import SolarisXorg.Lib.Fit

/-!
# Reading events (`drm_fops.c`)

`drm_read` hands the events of a file to the reader, from the front of `event_list`, as long as
`drm_dequeue_event` finds that the next one fits into what it takes for the size of the buffer:
`uiop->uio_iov->iov_len`, read anew on each turn. `uiomove` is a parameter: it takes the bytes and
the `uio`, and gives what it returns and the `uio` after it.
-/

namespace Drm.Fops

/-- `struct drm_pending_event`: the event's `length`, and the bytes from `event` on that it counts. -/
structure PendingEvent where
  length : UInt32
  event : List UInt8
  event_length : event.length = length.toNat
  deriving DecidableEq

/-- The fields of `struct drm_file` for events. -/
structure File where
  eventSpace : Int
  eventList : List PendingEvent
  deriving DecidableEq

/-- `struct uio` with one iovec: `iov_len`, and the bytes moved to the user's buffer so far. -/
structure Uio where
  iovLen : UInt64
  moved : List UInt8
  deriving DecidableEq, Repr

/-- `drm_dequeue_event`: the event that `*out` is set to and the file without it. -/
def drmDequeueEvent (f : File) (total max : UInt64) : Option (PendingEvent × File) :=
  match f.eventList with
  | [] => none
  | e :: es =>
    if max < e.length.toUInt64 + total then none
    else some (e, { eventSpace := f.eventSpace + e.length.toNat, eventList := es })

section Read

variable (uiomove : List UInt8 → Uio → Int × Uio)

/-- Where the loop of `drm_read` is, and what `drm_read` leaves behind: `total` is then the value
returned. -/
structure Reading where
  file : File
  uio : Uio
  total : UInt64
  deriving DecidableEq

/-- One turn of the loop of `drm_read`. -/
def readTurn (s : Reading) : Lib.Pass Reading Reading :=
  match drmDequeueEvent s.file s.total s.uio.iovLen with
  | none => .leave s
  | some (e, f) =>
    let (ret, uio) := uiomove e.event s.uio
    if ret ≠ 0 then .leave ⟨f, uio, 0⟩
    else .next ⟨f, uio, s.total + e.length.toUInt64⟩

/-- `drm_read`, from the queue that `DRM_WAIT` leaves: it never sets `ret` below 0, so that an empty
queue is read as well. -/
def drmRead (f : File) (uio : Uio) : Option Reading :=
  Lib.loop (readTurn uiomove) (f.eventList.length + 1) ⟨f, uio, 0⟩

/-- `uiomove` as the routine is documented, when no copy fails: what goes into the iovec is moved
and the iovec shortened by it. -/
def Moves : Prop :=
  ∀ (bytes : List UInt8) (uio : Uio), bytes.length ≤ uio.iovLen.toNat →
    uiomove bytes uio =
      (0, { iovLen := uio.iovLen - UInt64.ofNat bytes.length, moved := uio.moved ++ bytes })

end Read

/-- A copy that never fails. -/
def copyAll (bytes : List UInt8) (uio : Uio) : Int × Uio :=
  (0, { iovLen := uio.iovLen - UInt64.ofNat bytes.length, moved := uio.moved ++ bytes })

theorem copyAll_moves : Moves copyAll := fun _ _ _ => rfl

/-! ## What a read is for -/

/-- The number of bytes an event counts. -/
def PendingEvent.size (e : PendingEvent) : Nat := e.length.toNat

/-- A read into a buffer of `len` bytes delivers the longest beginning of the queue that fits: the
events are off the queue, their bytes are in the buffer one event after the other, and their total
length is returned. -/
def ReadsLongest (f : File) (len : UInt64) (r : Option Reading) : Prop :=
  ∃ p es, Lib.Fits PendingEvent.size len.toNat p f.eventList ∧ f.eventList = p ++ es ∧
    ∃ s, r = some s ∧ s.file.eventList = es ∧ s.uio.moved = p.flatMap PendingEvent.event ∧
      s.total.toNat = Lib.weight PendingEvent.size p

end Drm.Fops
