import Mathlib.Algebra.Group.Nat.Defs
import SolarisXorg.Lib.Chain

/-!
# Grabbed windows of the DGA client library (`win_grab.c`, `mbufset.c`)

`dga_wlist` has a node for each grabbed window with two lists of client structures: those of the old
interface and those of the drawable interface. Both are linked through the structures' `w_next`. A
structure made for a window that is already grabbed is a copy of one that is there. The structures
of a window share a multibuffer set by reference count.

Client structures are at addresses. Multibuffer sets are numbered in the order they are created, so
that a set that was destroyed is told from one made later in the same memory.
-/

namespace Dga

/-! ## Client structures and windows -/

/-- The fields of `struct dga_window` that grabs, ungrabs and the mbufset part of updates use. -/
structure Window where
  wToken : Nat
  wNext : Option Nat
  /-- `w_update_func` is `dgai_mbsmemb_update`. -/
  drawUpdate : Bool
  pMbs : Option Nat
  cMbufseq : Nat
  cMbcomposseq : Nat
  eLockSubj : Int
  deriving DecidableEq

/-- `struct dga_winlist`, less the mutex -/
structure Winlist where
  wToken : Nat
  dgaClientplist : Option Nat
  dgaClientplistDraw : Option Nat
  deriving DecidableEq

/-- The list of client structures of an interface. -/
def Winlist.head (w : Winlist) (drawableGrabber : Bool) : Option Nat :=
  if drawableGrabber then w.dgaClientplistDraw else w.dgaClientplist

/-- Writing the head of a list of client structures. -/
def Winlist.setHead (w : Winlist) (drawableGrabber : Bool) (h : Option Nat) : Winlist :=
  if drawableGrabber then { w with dgaClientplistDraw := h } else { w with dgaClientplist := h }

/-- `DgaMbufSet`: the reference count, an `unsigned int`, and the buffers' last `mbufseq`. -/
structure MbufSet where
  refcnt : Nat
  mbufseq : Int → Nat

/-- Accesses of memory that is not there. -/
inductive Fault where
  /-- through a null pointer -/
  | null
  /-- of a multibuffer set after `dgai_mbufset_destroy` -/
  | destroyed (m : Nat)
  deriving DecidableEq

/-- The library's state. -/
structure State where
  /-- `dga_wlist` -/
  dgaWlist : List Winlist
  mem : Nat → Window
  /-- client structures that are allocated -/
  structs : List Nat
  sets : Nat → Option MbufSet
  nextSet : Nat
  /-- the calls of `dgai_mbufset_destroy`, the last one first -/
  destroyed : List Nat
  faults : List Fault

namespace State

/-- `struct dga_window` is 0 where nothing was written. -/
def blank : Window := ⟨0, none, false, none, 0, 0, 0⟩

/-- Nothing grabbed. -/
def init : State := ⟨[], fun _ => blank, [], fun _ => none, 0, [], []⟩

/-- The `w_next` fields. -/
def next (s : State) (p : Nat) : Option Nat := (s.mem p).wNext

/-- Writing a client structure. -/
def write (s : State) (p : Nat) (w : Window) : State := { s with mem := Function.update s.mem p w }

/-- Writing fields of a client structure. -/
def modify (s : State) (p : Nat) (f : Window → Window) : State := s.write p (f (s.mem p))

/-- Writing the list of nodes. -/
def setWlist (s : State) (wl : List Winlist) : State := { s with dgaWlist := wl }

/-- `malloc` of a client structure -/
def alloc (s : State) (a : Nat) : State := { s with structs := a :: s.structs }

/-- A bad access. -/
def fault (s : State) (f : Fault) : State := { s with faults := f :: s.faults }

end State

/-! ## Multibuffer sets (`mbufset.c`) -/

/-- `DGA_MBFLIP_COPY`, `DGA_MBFLIP_VIDEO`, or neither -/
inductive FlipMode where
  | copy
  | video
  | other
  deriving DecidableEq

/-- What the shared `WXINFO` has of multibuffers, and whether `dgai_mbufset_create` gets memory and
pixmaps; `words` is what that memory holds as `mbufseq`. -/
structure Shinfo where
  wObsolete : Bool
  enabled : Bool
  mbufseq : Nat
  compositionseq : Nat
  flipMode : FlipMode
  displayBuffer : Int
  numberBuffers : Int
  createOk : Bool
  words : Int → Nat

/-- The set that `dgai_mbufset_create` makes: only the entries of the buffers there are get a
value. -/
def newMbufset (info : Shinfo) : MbufSet where
  refcnt := 1
  mbufseq i := if i < info.numberBuffers then 0 else info.words i

/-- `dgai_mbufset_create` -/
def mbufsetCreate (s : State) (info : Shinfo) : Option Nat × State :=
  if info.createOk then
    (some s.nextSet, { s with
      sets := Function.update s.sets s.nextSet (some (newMbufset info))
      nextSet := s.nextSet + 1 })
  else (none, s)

/-- `dgai_mbufset_incref` -/
def mbufsetIncref (s : State) (m : Nat) : State :=
  match s.sets m with
  | none => s.fault (.destroyed m)
  | some b =>
    { s with sets := Function.update s.sets m (some { b with refcnt := (b.refcnt + 1) % 2 ^ 32 }) }

/-- `dgai_mbufset_destroy` -/
def mbufsetDestroy (s : State) (m : Nat) : State :=
  { s with sets := Function.update s.sets m none, destroyed := m :: s.destroyed }

/-- `(int)refcnt <= 0` -/
def refcntDead (refcnt : Nat) : Bool := refcnt = 0 || 2 ^ 31 ≤ refcnt

/-- `dgai_mbufset_decref` -/
def mbufsetDecref (s : State) (m : Nat) : State :=
  match s.sets m with
  | none => s.fault (.destroyed m)
  | some b =>
    let refcnt := (b.refcnt + (2 ^ 32 - 1)) % 2 ^ 32
    if refcntDead refcnt then mbufsetDestroy s m
    else { s with sets := Function.update s.sets m (some { b with refcnt }) }

/-- Letting go of a structure's multibuffer set, if it has one. -/
def releaseMbs (s : State) (p : Nat) : State :=
  match (s.mem p).pMbs with
  | none => s
  | some m => (mbufsetDecref s m).modify p fun w => { w with pMbs := none }

/-- `dgai_win_initMbufset`: whether it succeeds, and the state after it. -/
def winInitMbufset (s : State) (p : Nat) (info : Shinfo) : Bool × State :=
  if !info.enabled then (true, s.modify p fun w => { w with pMbs := none })
  else
    match mbufsetCreate s info with
    | (none, s) => (false, s.modify p fun w => { w with pMbs := none })
    | (some m, s) => (true, s.modify p fun w =>
        { w with pMbs := some m, cMbcomposseq := info.compositionseq })

/-! ## Ungrab -/

/-- Writing the first node with a token. -/
def updateWin (token : Nat) (f : Winlist → Winlist) : List Winlist → List Winlist
  | [] => []
  | w :: l => if w.wToken = token then f w :: l else w :: updateWin token f l

/-- The search of `dgai_win_ungrab_common` for a structure in a list of client structures. -/
def findClient (s : State) (p : Nat) (head : Option Nat) : Option (Option Nat) :=
  Lib.findPrev s.next p s.structs.length none head

/-- Taking a structure out at the place the search ended: the field of the structure before it, or
the head of a list. -/
def unlinkClient (s : State) (p : Nat) (drawableGrabber : Bool) : Option Nat → State
  | some q => s.modify q fun w => { w with wNext := s.next p }
  | none =>
    s.setWlist (updateWin (s.mem p).wToken (·.setHead drawableGrabber (s.next p)) s.dgaWlist)

/-- The end of `dgai_win_ungrab_common`: the multibuffer set, and with the last structure of the
window the structure itself and the window's node. -/
def releaseClient (s : State) (p : Nat) : State :=
  let s := releaseMbs s p
  match s.dgaWlist.find? (·.wToken = (s.mem p).wToken) with
  | some ⟨token, none, none⟩ => { s with
      structs := s.structs.erase p
      dgaWlist := s.dgaWlist.eraseP (·.wToken = token) }
  | _ => s

/-- `dgai_win_ungrab_common`: a structure not found in the list of its interface is looked for among
the old style clients. -/
def winUngrabCommon (s : State) (p : Nat) (drawableGrabber : Bool) : State :=
  match s.dgaWlist.find? (·.wToken = (s.mem p).wToken) with
  | none => s
  | some w =>
    match findClient s p (w.head drawableGrabber) with
    | some prev => releaseClient (unlinkClient s p drawableGrabber prev) p
    | none =>
      match findClient s p w.dgaClientplist with
      | some prev => releaseClient (unlinkClient s p drawableGrabber prev) p
      | none => s

/-! ## Grab -/

/-- `DGA_LOCKSUBJ_INVALID` -/
def lockSubjInvalid : Int := -2

/-- The multibuffer set of a structure that is made for the drawable interface. -/
def grabMbufset (s : State) (dpy : Bool) (a : Nat) (info : Shinfo) : State :=
  if dpy then
    match winInitMbufset s a info with
    | (true, s) => s
    | (false, s) => winUngrabCommon s a false
  else s

/-- A copy of an old style client, with what the drawable interface needs. -/
def drawClient (orig : Window) : Window :=
  { orig with
    drawUpdate := true
    cMbufseq := 0
    cMbcomposseq := 0
    eLockSubj := lockSubjInvalid }

/-- The structure `a` of a further grab through the drawable interface: a copy of `orig`. -/
def copyDraw (s : State) (dpy : Bool) (wlist : Winlist) (orig a : Nat) (info : Shinfo) : State :=
  if wlist.dgaClientplistDraw.isSome then s.write a { s.mem orig with wNext := some orig }
  else
    let s := s.write a (drawClient (s.mem orig))
    (grabMbufset s dpy a info).modify a fun w => { w with wNext := none }

/-- A reference to a structure's multibuffer set, if it has one. -/
def shareMbs (s : State) (p : Nat) : State :=
  match (s.mem p).pMbs with
  | none => s
  | some m => mbufsetIncref s m

/-- A further grab of a window through the drawable interface. -/
def grabAgainDraw (s : State) (dpy : Bool) (wlist : Winlist) (orig a : Nat) (info : Shinfo) :
    State :=
  let s := copyDraw s dpy wlist orig a info
  shareMbs (s.setWlist (updateWin wlist.wToken (·.setHead true (some a)) s.dgaWlist)) orig

/-- A further grab of a window through the old interface. -/
def grabAgainOld (s : State) (wlist : Winlist) (orig a : Nat) : State :=
  let s := s.write a { s.mem orig with
    drawUpdate := false
    wNext := if wlist.dgaClientplist.isSome then some orig else none }
  s.setWlist (updateWin wlist.wToken (·.setHead false (some a)) s.dgaWlist)

/-- The structure a further grab copies. -/
def origClient (wlist : Winlist) (drawableGrabber : Bool) : Option Nat :=
  (wlist.head drawableGrabber).or (wlist.head !drawableGrabber)

/-- The structure of the first grab of a window. -/
def newClient (token : Nat) (drawableGrabber : Bool) : Window :=
  { State.blank with
    wToken := token
    drawUpdate := drawableGrabber
    eLockSubj := if drawableGrabber then lockSubjInvalid else 0 }

/-- The first grab of a window. -/
def grabNew (s : State) (dpy drawableGrabber : Bool) (token a : Nat) (info : Shinfo) : State :=
  let wlist := (Winlist.mk token none none).setHead drawableGrabber (some a)
  let s := (s.write a (newClient token drawableGrabber)).setWlist (wlist :: s.dgaWlist)
  if drawableGrabber then grabMbufset s dpy a info else s

/-- `dgai_win_grab_common`, which returns the structure it allocates: `a`. The display is there or
not. -/
def winGrabCommon (s : State) (dpy drawableGrabber : Bool) (token a : Nat) (info : Shinfo) :
    State :=
  let s := s.alloc a
  match s.dgaWlist.find? (·.wToken = token) with
  | none => grabNew s dpy drawableGrabber token a info
  | some wlist =>
    match origClient wlist drawableGrabber with
    | none => s.fault .null
    | some orig =>
      if drawableGrabber then grabAgainDraw s dpy wlist orig a info
      else grabAgainOld s wlist orig a

end Dga
