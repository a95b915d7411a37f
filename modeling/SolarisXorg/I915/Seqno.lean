import Mathlib.Algebra.Group.Nat.Defs
import Mathlib.Data.List.FinRange
import Mathlib.Logic.Function.Basic
import SolarisXorg.Lib.Run

/-!
# Sequence numbers

Requests on all rings are numbered from one 32-bit counter, `next_seqno`, in which 0 stands for no
seqno. Before it wraps, and before it is set by hand, `i915_gem_init_seqno` waits for every ring,
retires all requests and resets what the rings have stored (a new epoch). A seqno is handed out to a
ring as its lazy request when it is first written to, and becomes a request in `__i915_add_request`.

A `Stamp` is a seqno together with the number of seqnos that have been handed out up to it and the
epoch it was handed out in; the driver sees only `val`. A ring has the GPU's side beside the driver's:
`pending` are the requests that the GPU has been given and not completed, and `hws` is the seqno in
the status page, which the GPU writes when it completes a request. A wait for a ring's last request is
taken to mean that it has completed.
-/

namespace I915

structure Stamp where
  val : BitVec 32
  /-- how many seqnos had been handed out, this one included -/
  issue : Nat
  epoch : Nat
  deriving DecidableEq, Repr

/-- No seqno. -/
def Stamp.zero : Stamp := ⟨0, 0, 0⟩

/-- An object on the active list of a ring, with its `last_read_seqno`. -/
structure Active where
  obj : Nat
  seq : Stamp
  deriving DecidableEq, Repr

/-- A ring among `n`. -/
structure SeqRing (n : Nat) where
  /-- `outstanding_lazy_request` -/
  olr : Stamp
  requestList : List Stamp
  activeList : List Active
  hws : Stamp
  /-- `sync_seqno`, by the other ring -/
  syncSeqno : Fin n → Stamp
  pending : List Stamp

structure SeqDev (n : Nat) where
  nextSeqno : BitVec 32
  lastSeqno : BitVec 32
  ring : Fin n → SeqRing n
  /-- every seqno that has been handed out -/
  handed : List Stamp
  epoch : Nat

/-- `i915_seqno_passed` -/
def seqnoPassed (seq1 seq2 : BitVec 32) : Bool := 0 ≤ (seq1 - seq2).toInt

/-- How a wait for a ring to become idle ends. -/
inductive Idle
  | done
  /-- the lazy request could not be added -/
  | noRequest
  /-- the last request was not waited for to the end -/
  | interrupted
  deriving DecidableEq, Repr

namespace SeqRing

variable {n : Nat}

/-! ## One ring -/

/-- The end of `__i915_add_request`: the GPU has been given the lazy request. -/
def pushRequest (r : SeqRing n) : SeqRing n :=
  { r with
    requestList := r.requestList ++ [r.olr]
    pending := r.pending ++ [r.olr]
    olr := .zero }

/-- The GPU completes a request. -/
def complete (r : SeqRing n) : SeqRing n :=
  match r.pending with
  | [] => r
  | x :: xs => { r with hws := x, pending := xs }

/-- `i915_gem_retire_requests_ring` -/
def retireRequests (r : SeqRing n) : SeqRing n :=
  if r.requestList = [] then r
  else
    { r with
      requestList := r.requestList.dropWhile fun x => seqnoPassed r.hws.val x.val
      activeList := r.activeList.dropWhile fun a => seqnoPassed r.hws.val a.seq.val }

/-- The lazy request is added to the list before the ring is waited for. -/
def flushLazy (r : SeqRing n) : SeqRing n := if r.olr.val = 0 then r else r.pushRequest

/-- `intel_ring_idle` -/
def idle (r : SeqRing n) (o : Idle) : Bool × SeqRing n :=
  if r.olr.val ≠ 0 ∧ o = .noRequest then (false, r)
  else
    match r.flushLazy.requestList.getLast? with
    | none => (true, r.flushLazy)
    | some x =>
      if o = .interrupted then (false, r.flushLazy)
      else (true, { r.flushLazy with hws := x, pending := [] })

/-- The requests that `i915_gem_reset_ring_lists` takes for not completed. -/
def notCompleted (r : SeqRing n) : List Stamp := r.requestList.filter fun x => r.hws.val < x.val

/-- `last_read_seqno` of an object that is active on this ring. -/
def lastRead (r : SeqRing n) (o : Nat) : Option Stamp :=
  (r.activeList.find? fun a => a.obj = o).map Active.seq

end SeqRing

namespace SeqDev

variable {n : Nat}

def setRing (i : Fin n) (r : SeqRing n) (s : SeqDev n) : SeqDev n :=
  { s with ring := Function.update s.ring i r }

/-! ## Epochs -/

/-- The waits of `i915_gem_init_seqno`, ring by ring, until one fails. -/
def idleAll (env : Fin n → Idle) : List (Fin n) → SeqDev n → Bool × SeqDev n
  | [], s => (true, s)
  | i :: is, s =>
    if ((s.ring i).idle (env i)).1 then idleAll env is (s.setRing i ((s.ring i).idle (env i)).2)
    else (false, s.setRing i ((s.ring i).idle (env i)).2)

/-- `i915_gem_retire_requests` -/
def retireAll (s : SeqDev n) : SeqDev n :=
  { s with ring := fun i => (s.ring i).retireRequests }

/-- The last loop of `i915_gem_init_seqno`. -/
def resetAll (v : BitVec 32) (s : SeqDev n) : SeqDev n :=
  { s with
    ring := fun i =>
      { s.ring i with
        hws := ⟨v, s.handed.length, s.epoch + 1⟩
        syncSeqno := fun _ => .zero }
    epoch := s.epoch + 1 }

def i915GemInitSeqno (v : BitVec 32) (env : Fin n → Idle) (s : SeqDev n) : Bool × SeqDev n :=
  if (idleAll env (List.finRange n) s).1 then
    (true, (idleAll env (List.finRange n) s).2.retireAll.resetAll v)
  else (false, (idleAll env (List.finRange n) s).2)

def i915GemSetSeqno (v : BitVec 32) (env : Fin n → Idle) (s : SeqDev n) : Bool × SeqDev n :=
  if v = 0 then (false, s)
  else if (i915GemInitSeqno (v - 1) env s).1 then
    (true,
      { (i915GemInitSeqno (v - 1) env s).2 with
        nextSeqno := v
        lastSeqno := if v - 1 = 0 then v - 1 - 1 else v - 1 })
  else (false, (i915GemInitSeqno (v - 1) env s).2)

/-! ## Handing out -/

/-- The stamp of the next seqno. -/
def nextStamp (s : SeqDev n) : Stamp := ⟨s.nextSeqno, s.handed.length + 1, s.epoch⟩

/-- `*seqno = last_seqno = next_seqno++` -/
def hand (s : SeqDev n) : SeqDev n :=
  { s with
    lastSeqno := s.nextSeqno
    nextSeqno := s.nextSeqno + 1
    handed := s.handed ++ [s.nextStamp] }

/-- What `i915_gem_get_seqno` does before it hands out a seqno. -/
def beforeHand (env : Fin n → Idle) (s : SeqDev n) : Bool × SeqDev n :=
  if s.nextSeqno = 0 then
    ((i915GemInitSeqno 0 env s).1,
      if (i915GemInitSeqno 0 env s).1 then { (i915GemInitSeqno 0 env s).2 with nextSeqno := 1 }
      else (i915GemInitSeqno 0 env s).2)
  else (true, s)

/-- `i915_gem_get_seqno`, storing into the lazy request of ring `i`. -/
def i915GemGetSeqno (i : Fin n) (env : Fin n → Idle) (s : SeqDev n) : Bool × SeqDev n :=
  let s1 := (beforeHand env s).2
  if (beforeHand env s).1 then
    (true, s1.hand.setRing i { s1.ring i with olr := s1.nextStamp })
  else (false, s1)

def intelRingAllocSeqno (i : Fin n) (env : Fin n → Idle) (s : SeqDev n) : Bool × SeqDev n :=
  if (s.ring i).olr.val ≠ 0 then (true, s) else i915GemGetSeqno i env s

/-- `__i915_add_request`; it may fail after the seqno has been allocated. -/
def i915AddRequest (i : Fin n) (env : Fin n → Idle) (fail : Bool) (s : SeqDev n) :
    Bool × SeqDev n :=
  let s1 := (intelRingAllocSeqno i env s).2
  if (intelRingAllocSeqno i env s).1 && !fail then (true, s1.setRing i (s1.ring i).pushRequest)
  else (false, s1)

/-! ## Objects -/

/-- The part of `i915_gem_object_move_to_active` that puts an object at the end of a ring's active
list. -/
def moveToActive (i : Fin n) (o : Nat) (s : SeqDev n) : SeqDev n :=
  { s with
    ring := fun k =>
      { s.ring k with
        activeList := ((s.ring k).activeList.filter fun a => a.obj ≠ o) ++
          if k = i then [⟨o, (s.ring i).olr⟩] else [] } }

/-- `i915_gem_check_olr` -/
def checkOlr (i : Fin n) (env : Fin n → Idle) (q : Stamp) (fail : Bool) (s : SeqDev n) :
    Bool × SeqDev n :=
  if q.val = (s.ring i).olr.val then i915AddRequest i env fail s else (true, s)

/-- The part of `i915_gem_object_sync` after the comparison: the waiter's ring may be given a seqno,
and with it a wrap. -/
def syncTo (i j : Fin n) (o : Nat) (env : Fin n → Idle) (fail : Bool) (s : SeqDev n) : SeqDev n :=
  let s1 := (intelRingAllocSeqno j env s).2
  if (intelRingAllocSeqno j env s).1 && !fail then
    s1.setRing i
      { s1.ring i with
        syncSeqno := Function.update (s1.ring i).syncSeqno j (((s1.ring i).lastRead o).getD .zero) }
  else s1

/-- `i915_gem_object_sync` with semaphores, for an object that was last read on ring `i` and is wanted
on ring `j`. -/
def i915GemObjectSync (i j : Fin n) (o : Nat) (env : Fin n → Idle) (fail1 fail2 : Bool)
    (s : SeqDev n) : SeqDev n :=
  match (s.ring i).lastRead o with
  | none => s
  | some q =>
    if j = i ∨ q.val ≤ ((s.ring i).syncSeqno j).val then s
    else if (checkOlr i env q fail1 s).1 then syncTo i j o env fail2 (checkOlr i env q fail1 s).2
    else (checkOlr i env q fail1 s).2

end SeqDev

/-! ## Runs -/

inductive SeqCall (n : Nat)
  | alloc (i : Fin n) (env : Fin n → Idle)
  | addRequest (i : Fin n) (env : Fin n → Idle) (fail : Bool)
  | retire (i : Fin n)
  | setSeqno (v : BitVec 32) (env : Fin n → Idle)
  /-- the GPU completes a request -/
  | complete (i : Fin n)
  | moveToActive (i : Fin n) (o : Nat)
  | sync (i j : Fin n) (o : Nat) (env : Fin n → Idle) (fail1 fail2 : Bool)

/-- An object is moved to the active list only with a lazy request on the ring. -/
def SeqStep {n : Nat} (s : SeqDev n) : SeqCall n → SeqDev n → Prop
  | .alloc i env, t => t = (s.intelRingAllocSeqno i env).2
  | .addRequest i env fail, t => t = (s.i915AddRequest i env fail).2
  | .retire i, t => t = s.setRing i (s.ring i).retireRequests
  | .setSeqno v env, t => t = (s.i915GemSetSeqno v env).2
  | .complete i, t => t = s.setRing i (s.ring i).complete
  | .moveToActive i o, t => (s.ring i).olr.val ≠ 0 ∧ t = s.moveToActive i o
  | .sync i j o env fail1 fail2, t => t = s.i915GemObjectSync i j o env fail1 fail2

/-- After `i915_gem_init_hw` has set the first seqno. -/
def SeqDev.init (n : Nat) : SeqDev n where
  nextSeqno := 0xffffefff
  lastSeqno := 0xffffeffe
  ring := fun _ => ⟨.zero, [], [], ⟨0xffffeffe, 0, 0⟩, fun _ => .zero, []⟩
  handed := []
  epoch := 0

/-! ## What epochs are for -/

/-- Nothing is out that was handed out in an earlier epoch, the request lists go up as plain numbers,
and plain comparisons of seqnos tell the order in which they were handed out. -/
structure EpochsKept {n : Nat} (s : SeqDev n) : Prop where
  nonzero : ∀ x ∈ s.handed, x.val ≠ 0
  olr : ∀ i, (s.ring i).olr.val ≠ 0 → (s.ring i).olr.epoch = s.epoch
  requests : ∀ i, ∀ x ∈ (s.ring i).requestList, x.epoch = s.epoch
  pending : ∀ i, ∀ x ∈ (s.ring i).pending, x.epoch = s.epoch
  increasing : ∀ i, (s.ring i).requestList.Pairwise fun x y => x.val < y.val
  completed : ∀ i, ∀ x ∈ (s.ring i).requestList,
    ((s.ring i).hws.val < x.val ↔ (s.ring i).hws.issue < x.issue)
  notCompleted : ∀ i, (s.ring i).notCompleted = (s.ring i).pending
  synced : ∀ i j, ∀ a ∈ (s.ring i).activeList,
    (a.seq.val ≤ ((s.ring i).syncSeqno j).val ↔ a.seq.issue ≤ ((s.ring i).syncSeqno j).issue)

/-- The requests of a ring that the GPU has been given or will be. -/
def SeqRing.live {n : Nat} (r : SeqRing n) : List Stamp :=
  r.requestList ++ if r.olr.val = 0 then [] else [r.olr]

/-- The requests are less than half the range from the status page. -/
def SeqRing.Near {n : Nat} (r : SeqRing n) : Prop :=
  ∀ x ∈ r.live, r.hws.val.toNat < x.val.toNat + 2 ^ 31 ∧ x.val.toNat < r.hws.val.toNat + 2 ^ 31

/-- The requests are less than half the range from one another. -/
def SeqRing.Tight {n : Nat} (r : SeqRing n) : Prop :=
  ∀ x ∈ r.live, ∀ y ∈ r.live, x.val.toNat < y.val.toNat + 2 ^ 31

/-- The calls in which no seqnos half the range apart are compared: a ring is retired with its
requests near its status page, and seqnos are reset with the requests of every ring near one
another. -/
def HalfRange {n : Nat} (s : SeqDev n) : SeqCall n → Prop
  | .retire i => (s.ring i).Near
  | .setSeqno _ _ => ∀ k, (s.ring k).Tight
  | .alloc i _ => (s.ring i).olr.val = 0 → s.nextSeqno = 0 → ∀ k, (s.ring k).Tight
  | .addRequest i _ _ => (s.ring i).olr.val = 0 → s.nextSeqno = 0 → ∀ k, (s.ring k).Tight
  | .sync _ j _ _ _ _ => (s.ring j).olr.val = 0 → s.nextSeqno = 0 → ∀ k, (s.ring k).Tight
  | .complete _ => True
  | .moveToActive _ _ => True

/-- A call that compares seqnos less than half the range apart. -/
def HalfStep {n : Nat} (s : SeqDev n) (call : SeqCall n) (t : SeqDev n) : Prop :=
  SeqStep s call t ∧ HalfRange s call

end I915
