import SolarisXorg.Dga.WinGrab

/-!
# Lock-time updates of a client structure (`mbsmemb_update.c`, `win_update.c`, `mbuf_update.c`)

When the window's change count differs from the one a client structure recorded, locking it runs
`dgai_mbsmemb_update` on the window or on one of its buffers. The synchronization loops give up the
lock now and then, and go round until nothing has changed meanwhile; a pass sees the shared
information as it stands since the last time the lock was taken, so an update is given the shared
information of each of its passes.

What is synchronized besides the multibuffer set (clip, cursor, backing store, cache, device
information) is read through `pMbs` when the lock subject is a buffer.
-/

namespace Dga

/-! ## Accesses of a multibuffer set -/

/-- A read through a pointer to a multibuffer set. -/
def touchMbs (s : State) (m : Nat) : State :=
  if (s.sets m).isSome then s else s.fault (.destroyed m)

/-- `pMbs->mbufseq[bufIndex] = mbufseq` -/
def writeMbufseq (s : State) (m : Nat) (bufIndex : Int) (mbufseq : Nat) : State :=
  match s.sets m with
  | none => s.fault (.destroyed m)
  | some b => { s with
      sets := Function.update s.sets m
        (some { b with mbufseq := Function.update b.mbufseq bufIndex mbufseq }) }

/-- `DGA_LOCKSUBJ_MBUFFER` -/
def lockSubjMbuffer (lockSubj : Int) : Bool := lockSubj != -1 && lockSubj != lockSubjInvalid

/-! ## The multibuffer part -/

/-- `dgai_mbsmemb_syncMbufset` -/
def syncMbufset (s : State) (p : Nat) (info : Shinfo) : State :=
  if (s.mem p).cMbcomposseq = info.compositionseq then s
  else
    let s := (releaseMbs s p).modify p fun w => { w with cMbcomposseq := info.compositionseq }
    if !info.enabled then s
    else
      match mbufsetCreate s info with
      | (pMbs, s) => s.modify p fun w => { w with pMbs }

/-- `dgai_win_mb_update` -/
def winMbUpdate (s : State) (p : Nat) (info : Shinfo) : State :=
  let s := syncMbufset s p info
  if (s.mem p).pMbs.isSome ∧ info.flipMode = .video then
    s.modify p fun w => { w with eLockSubj := info.displayBuffer }
  else s

/-- `dgai_mbuf_mb_update`: a buffer beyond the window's last one is a zombie, and a displayed one
may be aliased by the window. -/
def mbufMbUpdate (s : State) (p : Nat) (bufIndex : Int) (info : Shinfo) : State :=
  let s := syncMbufset s p info
  if (s.mem p).pMbs.isSome ∧ bufIndex < info.numberBuffers ∧ info.flipMode = .copy ∧
      info.displayBuffer = bufIndex then
    s.modify p fun w => { w with eLockSubj := -1 }
  else s

/-- The attributes of a lock subject: those of a buffer are read through `pMbs`, which `none` says
is a null pointer. -/
def syncChanges (s : State) (p : Nat) (lockSubj : Int) : Option State :=
  if lockSubjMbuffer lockSubj then (s.mem p).pMbs.map fun m => touchMbs s m
  else some s

/-! ## Updates -/

/-- The loop of `dgai_win_update`; `last` is `lastSeqs.mbufseq`. -/
def winLoop (s : State) (p last : Nat) : List Shinfo → State
  | [] => s
  | info :: passes =>
    if info.wObsolete then s
    else
      let s :=
        if last ≠ info.mbufseq then
          (winMbUpdate s p info).modify p fun w => { w with cMbufseq := info.mbufseq }
        else s
      match syncChanges s p (s.mem p).eLockSubj with
      | none => s.fault .null
      | some s => winLoop s p info.mbufseq passes

/-- `dgai_win_update`. What it reports after the loop needs no other access to the multibuffer
set. -/
def winUpdate (s : State) (p : Nat) (passes : List Shinfo) : State :=
  winLoop s p (s.mem p).cMbufseq passes

/-- `dgai_mbuf_figureDerivChgs`, as far as it uses the multibuffer set. -/
def mbufFigureDerivChgs (s : State) (p : Nat) (eLockSubjPrev : Int) : State :=
  match (syncChanges s p (s.mem p).eLockSubj).bind fun s => syncChanges s p eLockSubjPrev with
  | none => s.fault .null
  | some s => s

/-- The loop of `dgai_mbuf_update` and what follows it; `m` is the `pMbufSet` the loop is entered
with. -/
def mbufLoop (s : State) (p : Nat) (bufIndex eLockSubjPrev : Int) (m last : Nat) :
    List Shinfo → State
  | [] => mbufFigureDerivChgs s p eLockSubjPrev
  | info :: passes =>
    if info.wObsolete then mbufFigureDerivChgs s p eLockSubjPrev
    else
      let s :=
        if last ≠ info.mbufseq then
          writeMbufseq (mbufMbUpdate s p bufIndex info) m bufIndex info.mbufseq
        else s
      match syncChanges s p (s.mem p).eLockSubj with
      | none => s.fault .null
      | some s => mbufLoop s p bufIndex eLockSubjPrev m info.mbufseq passes

/-- `dgai_mbuf_update` -/
def mbufUpdate (s : State) (p : Nat) (bufIndex eLockSubjPrev : Int) (info : Shinfo)
    (relocks : List Shinfo) : State :=
  let s := if (s.mem p).cMbufseq ≠ info.mbufseq then syncMbufset s p info else s
  match (s.mem p).pMbs with
  | none => s.fault .null
  | some m =>
    let last := (s.sets m).elim 0 fun b => b.mbufseq bufIndex
    mbufLoop (touchMbs s m) p bufIndex eLockSubjPrev m last (info :: relocks)

/-- `dgai_mbsmemb_update`, without the early return that it has with threads. -/
def mbsmembUpdate (s : State) (p : Nat) (bufIndex : Int) (info : Shinfo) (relocks : List Shinfo) :
    State :=
  let eLockSubjPrev := (s.mem p).eLockSubj
  let s := s.modify p fun w => { w with eLockSubj := bufIndex }
  if bufIndex = -1 then winUpdate s p (info :: relocks)
  else mbufUpdate s p bufIndex eLockSubjPrev info relocks

/-! ## Clients of the library -/

/-- The library with the structures its clients hold, each with the token it was grabbed for: those
that a grab returned and that were not ungrabbed since. -/
structure Sys where
  lib : State
  held : List (Nat × Nat)

/-- Calls. -/
inductive Op where
  | grab (dpy drawableGrabber : Bool) (token a : Nat) (info : Shinfo)
  | ungrab (drawableGrabber : Bool) (p : Nat)
  | update (p : Nat) (bufIndex : Int) (info : Shinfo) (relocks : List Shinfo)

namespace Sys

def init : Sys := ⟨.init, []⟩

def exec (σ : Sys) : Op → Sys
  | .grab dpy drawableGrabber token a info =>
    ⟨winGrabCommon σ.lib dpy drawableGrabber token a info, (a, token) :: σ.held⟩
  | .ungrab drawableGrabber p =>
    ⟨winUngrabCommon σ.lib p drawableGrabber, σ.held.filter (·.1 ≠ p)⟩
  | .update p bufIndex info relocks => ⟨mbsmembUpdate σ.lib p bufIndex info relocks, σ.held⟩

/-- What a call needs: `malloc` returns memory that is not in use, the structure to ungrab is
allocated, and only structures in hand whose update function it is are updated. -/
def Enabled (σ : Sys) : Op → Prop
  | .grab _ _ _ a _ => a ∉ σ.lib.structs
  | .ungrab _ p => p ∈ σ.lib.structs
  | .update p _ _ _ => p ∈ σ.held.map (·.1) ∧ (σ.lib.mem p).drawUpdate

/-- A call by a process that no access through a null pointer has ended. -/
def Step (σ : Sys) (op : Op) (τ : Sys) : Prop :=
  Fault.null ∉ σ.lib.faults ∧ σ.Enabled op ∧ τ = σ.exec op

end Sys

end Dga
