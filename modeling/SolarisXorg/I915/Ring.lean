import Mathlib.Algebra.Group.Nat.Defs
import Mathlib.Logic.Function.Basic
import SolarisXorg.Lib.Run

/-!
# The command ring

`intel_ringbuffer.c` hands out room in a ring that the GPU reads at its own pace. `Ring` holds the
fields of `struct intel_ring_buffer` that decide where is written and how much room there is, the
two registers (`gpu` is what `RING_HEAD` points at, `pub` what `RING_TAIL` was last written with), the
contents of the ring, and a record of every dword that has been stored (`log`), of which the GPU has
fetched the first `fetched`. `overrun` notes a store onto a dword that the GPU has not fetched.

While `intel_ring_begin` waits, the GPU moves on and requests complete. What it sees of that is a
parameter (`Wait`): how many requests have retired, how far the GPU gets, what the head register reads.
A request may retire as soon as the GPU has fetched everything before it.
-/

namespace I915

/-- The size of a ring and whether the chip is an i830 or an 845G. -/
structure Geom where
  log2 : Nat
  page_le : 12 ≤ log2
  le_max : log2 ≤ 21
  i830 : Bool

namespace Geom

def size (g : Geom) : Nat := 2 ^ g.log2

/-- The tail must keep out of the last two cache lines on an i830. -/
def effectiveSize (g : Geom) : Nat := if g.i830 then g.size - 128 else g.size

/-- The offset of dword number `i`. -/
def off (g : Geom) (i : Nat) : Nat := 4 * i % g.size

end Geom

/-- `I915_RING_FREE_SPACE` -/
def freeSpace : Nat := 64

/-- `HEAD_ADDR` -/
def headAddr : BitVec 32 := 0x001FFFFC

/-- `struct drm_i915_gem_request`. -/
structure Request where
  /-- the position of its tail; `none` is `0xffffffff`, which marks it as consumed -/
  tail : Option Nat
  /-- the number of dwords that had been stored when that position was taken -/
  mark : Nat
  deriving DecidableEq, Repr

/-- A ring, the GPU that reads it, and the caller that writes it. -/
structure Ring where
  head : BitVec 32
  tail : Nat
  space : Int
  /-- `last_retired_head`; `none` is `0xffffffff` -/
  lastRetiredHead : Option Nat
  requestList : List Request
  /-- the offset the GPU fetches next -/
  gpu : Nat
  /-- the offset the GPU fetches up to -/
  pub : Nat
  /-- the dword at each offset -/
  mem : Nat → BitVec 32
  /-- every store so far -/
  log : List (Nat × BitVec 32)
  fetched : Nat
  overrun : Bool
  /-- the bytes the caller has still to emit of what it has reserved; `none` after it has advanced -/
  reserved : Option Nat
  /-- the request that is being added -/
  adding : Option Request

/-- How the calls of the ring end. -/
inductive Ret
  | ok
  | enospc
  | ebusy
  /-- another error of a wait or of `i915_gem_check_wedge` -/
  | err
  deriving DecidableEq, Repr

/-- One look at the head register. -/
structure Poll where
  /-- the dwords the GPU fetches before it -/
  run : Nat
  /-- the register outside `HEAD_ADDR` -/
  other : BitVec 32
  /-- `i915_gem_check_wedge` fails after it -/
  wedged : Bool

/-- What goes on during a wait for space. -/
structure Wait where
  /-- the requests that retire at the beginning -/
  early : Nat
  /-- the dwords the GPU fetches during the wait for a request -/
  run : Nat
  /-- the requests that retire together with the one that was waited for -/
  late : Nat
  first : Poll
  polls : List Poll

namespace Ring

/-! ## The GPU -/

/-- What has been stored and not yet fetched. -/
def unread (s : Ring) : List (Nat × BitVec 32) := s.log.drop s.fetched

/-- The GPU fetches a dword, if there is one. -/
def gpuStep (g : Geom) (s : Ring) : Ring :=
  if s.gpu = s.pub then s else { s with gpu := (s.gpu + 4) % g.size, fetched := s.fetched + 1 }

def gpuRun (g : Geom) : Nat → Ring → Ring
  | 0, s => s
  | n + 1, s => gpuRun g n (s.gpuStep g)

/-- A dword is stored at offset `o`. -/
def store (o : Nat) (v : BitVec 32) (s : Ring) : Ring :=
  { s with
    mem := Function.update s.mem o v
    log := s.log ++ [(o, v)]
    overrun := s.overrun || s.unread.any fun e => decide (o < e.1 + 4 ∧ e.1 < o + 4) }

/-! ## Space -/

/-- The space up to `h` from `tail` on. -/
def spaceTo (g : Geom) (h tail : Nat) : Int :=
  if (h : Int) - (tail + freeSpace : Nat) < 0 then (h : Int) - (tail + freeSpace : Nat) + g.size
  else (h : Int) - (tail + freeSpace : Nat)

/-- `ring_space` -/
def ringSpace (g : Geom) (s : Ring) : Int := spaceTo g (s.head &&& headAddr).toNat s.tail

/-- The head is known to be at `h`. -/
def setHead (g : Geom) (h : BitVec 32) (s : Ring) : Ring :=
  { s with head := h, space := { s with head := h }.ringSpace g }

/-- `i915_gem_retire_requests_ring`, when the seqno that is read covers the first `n` requests. -/
def retireRequests : Nat → Ring → Ring
  | 0, s => s
  | n + 1, s =>
    match s.requestList with
    | [] => s
    | r :: rs =>
      if r.mark ≤ s.fetched then
        retireRequests n { s with lastRetiredHead := r.tail, requestList := rs }
      else s

/-- The loop over the requests in `intel_ring_wait_request`: the number of the one that leaves enough
space, with those before it consumed. -/
def findRequest (g : Geom) (n : Int) (tail : Nat) : List Request → List Request × Option Nat
  | [] => ([], none)
  | r :: rs =>
    match r.tail with
    | none => (r :: (findRequest g n tail rs).1, (findRequest g n tail rs).2.map (· + 1))
    | some t =>
      if n ≤ spaceTo g t tail then (r :: rs, some 0)
      else
        ({ r with tail := none } :: (findRequest g n tail rs).1,
          (findRequest g n tail rs).2.map (· + 1))

/-- The head is taken from the last request that has retired, if there is one. -/
def takeRetired (g : Geom) (s : Ring) : Option Ring :=
  s.lastRetiredHead.map fun h =>
    { s with lastRetiredHead := none }.setHead g (BitVec.ofNat 32 h)

/-- The rest of `intel_ring_wait_request`, after `findRequest` has come upon request number `i`. -/
def waitFound (g : Geom) (n : Int) (w : Wait) (i : Nat) (s : Ring) : Ret × Ring :=
  let s1 := s.gpuRun g w.run
  if ∀ r ∈ s1.requestList[i]?, r.mark ≤ s1.fetched then
    let s2 := s1.retireRequests (i + 1 + w.late)
    match s2.takeRetired g with
    | none => (.enospc, s2)
    | some s3 => if s3.space < n then (.enospc, s3) else (.ok, s3)
  else (.err, s1)

/-- The part of `intel_ring_wait_request` that looks for a request to wait for. -/
def waitListed (g : Geom) (n : Int) (w : Wait) (s : Ring) : Ret × Ring :=
  let s1 := { s with requestList := (findRequest g n s.tail s.requestList).1 }
  match (findRequest g n s.tail s.requestList).2 with
  | none => (.enospc, s1)
  | some i => waitFound g n w i s1

def intelRingWaitRequest (g : Geom) (n : Int) (w : Wait) (s : Ring) : Ret × Ring :=
  match (s.retireRequests w.early).takeRetired g with
  | none => waitListed g n w (s.retireRequests w.early)
  | some s1 => if n ≤ s1.space then (.ok, s1) else waitListed g n w s1

/-- `I915_READ_HEAD` -/
def readHead (p : Poll) (s : Ring) : BitVec 32 :=
  (p.other &&& ~~~headAddr) ||| BitVec.ofNat 32 s.gpu

/-- The loop over the head register in `ring_wait_for_space`. -/
def pollHead (g : Geom) (n : Int) (p : Poll) : List Poll → Ring → Ret × Ring
  | ps, s =>
    let s1 := s.gpuRun g p.run
    let s2 := s1.setHead g (s1.readHead p)
    if n ≤ s2.space then (.ok, s2)
    else if p.wedged then (.err, s2)
    else
      match ps with
      | [] => (.ebusy, s2)
      | p :: ps => pollHead g n p ps s2

def ringWaitForSpace (g : Geom) (n : Int) (w : Wait) (s : Ring) : Ret × Ring :=
  match intelRingWaitRequest g n w s with
  | (.enospc, s1) => pollHead g n w.first w.polls s1
  | r => r

/-- A wait that is made only when the space is short. -/
def waitIfShort (g : Geom) (n : Int) (w : Wait) (s : Ring) : Ret × Ring :=
  if s.space < n then ringWaitForSpace g n w s else (.ok, s)

/-! ## Reserving and emitting -/

/-- `MI_NOOP` is stored into `n` dwords from offset `o` on. -/
def pad (o : Nat) : Nat → Ring → Ring
  | 0, s => s
  | n + 1, s => pad (o + 4) n (s.store o 0)

def intelWrapRingBuffer (g : Geom) (w : Wait) (s : Ring) : Ret × Ring :=
  match waitIfShort g ((g.size : Int) - s.tail) w s with
  | (.ok, s1) =>
    let s2 := { pad s1.tail ((g.size - s1.tail) / 4) s1 with tail := 0 }
    (.ok, { s2 with space := s2.ringSpace g })
  | r => r

/-- The wrap, when the request does not fit before the end. -/
def wrapIfFull (g : Geom) (bytes : Nat) (w : Wait) (s : Ring) : Ret × Ring :=
  if g.effectiveSize < s.tail + bytes then intelWrapRingBuffer g w s else (.ok, s)

/-- `__intel_ring_begin` -/
def ringBegin (g : Geom) (bytes : Nat) (w1 w2 : Wait) (s : Ring) : Ret × Ring :=
  match wrapIfFull g bytes w1 s with
  | (.ok, s1) =>
    match waitIfShort g bytes w2 s1 with
    | (.ok, s2) => (.ok, { s2 with space := s2.space - bytes, reserved := some bytes })
    | r => r
  | r => r

/-- `intel_ring_begin`; `pre` is how `i915_gem_check_wedge` and `intel_ring_alloc_seqno` end. -/
def intelRingBegin (g : Geom) (pre : Ret) (dwords : Nat) (w1 w2 : Wait) (s : Ring) : Ret × Ring :=
  if pre = .ok then ringBegin g (dwords * 4) w1 w2 s else (pre, s)

def intelRingEmit (data : BitVec 32) (s : Ring) : Ring :=
  { s.store s.tail data with tail := s.tail + 4, reserved := s.reserved.map (· - 4) }

/-- `intel_ring_advance`; nothing is published when the ring has been stopped. -/
def intelRingAdvance (g : Geom) (stopped : Bool) (s : Ring) : Ring :=
  let s1 := { s with tail := s.tail &&& (g.size - 1), reserved := none }
  if stopped then s1 else { s1 with pub := s1.tail }

/-- The first part of `__i915_add_request`: the position is taken before the ring is touched. -/
def addRequestBegin (g : Geom) (pre : Ret) (dwords : Nat) (w1 w2 : Wait) (s : Ring) : Ret × Ring :=
  match intelRingBegin g pre dwords w1 w2 s with
  | (.ok, s1) => (.ok, { s1 with adding := some ⟨some s.tail, s.log.length⟩ })
  | r => r

/-- The last part of `__i915_add_request`. -/
def addRequestEnd (s : Ring) : Ring :=
  { s with requestList := s.requestList ++ s.adding.toList, adding := none }

end Ring

/-! ## Runs -/

/-- What can happen to a ring. -/
inductive Call
  /-- the GPU fetches a dword -/
  | gpu
  /-- requests are retired outside of a wait -/
  | retire (n : Nat)
  | begin (pre : Ret) (dwords : Nat) (w1 w2 : Wait)
  | emit (data : BitVec 32)
  | advance (stopped : Bool)
  | addBegin (pre : Ret) (dwords : Nat) (w1 w2 : Wait)
  | addEnd

/-- The sizes that callers ask for. -/
def Fits (g : Geom) (dwords : Nat) : Prop := 0 < dwords ∧ dwords * 4 + freeSpace ≤ g.effectiveSize

/-- A caller reserves, emits exactly what it has reserved and advances; a request is added around one
such packet. -/
def RingStep (g : Geom) (s : Ring) : Call → Ring → Prop
  | .gpu, t => t = s.gpuStep g
  | .retire n, t => t = s.retireRequests n
  | .begin pre n w1 w2, t =>
    s.reserved = none ∧ s.adding = none ∧ Fits g n ∧ t = (s.intelRingBegin g pre n w1 w2).2
  | .emit data, t => (∃ r, s.reserved = some r ∧ 0 < r) ∧ t = s.intelRingEmit data
  | .advance stopped, t => s.reserved = some 0 ∧ t = s.intelRingAdvance g stopped
  | .addBegin pre n w1 w2, t =>
    s.reserved = none ∧ s.adding = none ∧ Fits g n ∧ t = (s.addRequestBegin g pre n w1 w2).2
  | .addEnd, t => s.reserved = none ∧ s.adding ≠ none ∧ t = s.addRequestEnd

/-- A ring after `init_ring_common`: head and tail have been read as 0. -/
def Ring.init (g : Geom) (mem : Nat → BitVec 32) (other : BitVec 32) : Ring where
  head := other &&& ~~~headAddr
  tail := 0
  space := Ring.spaceTo g 0 0
  lastRetiredHead := none
  requestList := []
  gpu := 0
  pub := 0
  mem := mem
  log := []
  fetched := 0
  overrun := false
  reserved := none
  adding := none

end I915
