import Mathlib.Logic.Function.Basic

/-!
# The references to framebuffers (`drm_crtc.c`, `drm_fb_helper.c`)

Threads run the mode setting ioctls at the same time. The steps of a thread are the critical
sections and the single updates of `refcount`; what it has still to do, up to the `return` of the
ioctl, is a list of tasks, which the first task replaces by its own. `mode_config.mutex` and the
mutexes of the crtcs are taken together (`drm_modeset_lock_all`) or, for a page flip, that of one
crtc alone. The console is restored with them (`intel_fb_restore_mode`) or without any lock
(`drm_gfxp_setmode`, `i915_suspend`). Without `fbs_lock`, which lets one thread at a time use the
list of a file, more orders are possible here than in the driver.

A framebuffer is the number of its creation; a user who passes an id names the framebuffer that has
it. The framebuffer of the console is a part of the driver's own structure: a hotplug calls
`drm_framebuffer_init` for it once more, and it then has two ids if it had one. What the driver's
hooks and the checks of the arguments answer is a parameter of the step. The test
`drm_fb_helper_is_bound` is one step, though a page flip may come between its crtcs. The
framebuffers of load detection, and the end of the device, are left out.
-/

namespace Drm

/-- What `drm_mode_setcrtc` is asked for. -/
inductive CrtcReq
  /-- no mode -/
  | off
  /-- the framebuffer that is shown, `fb_id == -1` -/
  | keep
  /-- the framebuffer of an id -/
  | fb (id : Nat)
  deriving DecidableEq, Repr

/-- The rest of an ioctl. -/
inductive FbTask
  /-- `drm_modeset_lock_all` -/
  | lockAll
  /-- `drm_modeset_unlock_all` -/
  | unlockAll
  /-- `mutex_unlock(&crtc->mutex)` -/
  | unlockCrtc (c : Nat)
  /-- `drm_framebuffer_unreference` -/
  | unref (m : Nat)
  /-- `list_add` to the framebuffers of the file, in `drm_mode_addfb` -/
  | list (file m : Nat)
  /-- what `drm_mode_getfb` and `drm_mode_dirtyfb_ioctl` do with the framebuffer -/
  | use (m : Nat)
  /-- `drm_mode_setcrtc` under the locks -/
  | setCrtc (c : Nat) (req : CrtcReq)
  /-- `drm_mode_set_config_internal` -/
  | config (c : Nat) (fb : Option Nat)
  /-- its last loop, over the crtcs that are left -/
  | account (cs : List Nat)
  /-- `drm_mode_setplane` after the lookup -/
  | setPlane (p m : Nat)
  /-- `drm_mode_page_flip_ioctl` after the lookup -/
  | flip (c m : Nat)
  /-- `drm_framebuffer_remove` -/
  | remove (m : Nat)
  /-- its loop over the crtcs -/
  | offCrtcs (m : Nat) (cs : List Nat)
  /-- its loop over the planes -/
  | offPlanes (m : Nat) (ps : List Nat)
  /-- `drm_fb_release` -/
  | release (file : Nat)
  /-- the loop over the planes in `drm_fb_helper_restore_fbdev_mode` -/
  | disablePlanes (ps : List Nat)
  /-- its loop over the crtcs, with the ones whose mode set has connectors -/
  | restoreCrtcs (cs : List Nat) (lit : Nat → Bool)
  /-- `drm_framebuffer_init` of the console's framebuffer, in `drm_fb_helper_single_fb_probe` -/
  | fbProbe (got : Bool)

/-- The state of the device. `fbs` are the lists of the files, `fbdev` is the framebuffer of the
console, `freed` says that `destroy` was called. -/
structure FbDev where
  refcount : Nat → Nat
  freed : Nat → Bool
  idr : Nat → Bool
  made : Nat
  fbs : Nat → List Nat
  crtcFb : Nat → Option Nat
  oldFb : Nat → Option Nat
  planeFb : Nat → Option Nat
  fbdev : Option Nat
  configMutex : Option Nat
  crtcMutex : Nat → Option Nat
  tasks : Nat → List FbTask

/-- The crtcs and planes of the device, and the files and threads that use it. -/
structure FbCfg where
  crtcs : List Nat
  planes : List Nat
  files : List Nat
  threads : List Nat
  nodupCrtcs : crtcs.Nodup := by decide
  nodupPlanes : planes.Nodup := by decide
  nodupFiles : files.Nodup := by decide
  nodupThreads : threads.Nodup := by decide

/-- Why a step does not end in a new state. -/
inductive FbStop
  /-- a mutex is taken -/
  | blocked
  /-- `BUG` -/
  | bug
  /-- a framebuffer is used after `destroy` -/
  | useAfterFree
  deriving DecidableEq, Repr

namespace FbDev

variable (s : FbDev)

/-! ## References -/

/-- The framebuffer is read or written. -/
def touch (m : Nat) : Except FbStop Unit :=
  if s.freed m then .error .useAfterFree else .ok ()

/-- `kref_get` -/
def get (m : Nat) : Except FbStop FbDev :=
  if s.freed m then .error .useAfterFree
  else .ok { s with refcount := Function.update s.refcount m (s.refcount m + 1) }

/-- `drm_framebuffer_unreference` -/
def put (m : Nat) : Except FbStop FbDev :=
  if s.freed m then .error .useAfterFree
  else .ok { s with
    refcount := Function.update s.refcount m (s.refcount m - 1)
    freed := if s.refcount m - 1 = 0 then Function.update s.freed m true else s.freed }

/-- `if (fb) drm_framebuffer_reference(fb);` -/
def getOpt : Option Nat → Except FbStop FbDev
  | none => .ok s
  | some m => s.get m

/-- `if (fb) drm_framebuffer_unreference(fb);` -/
def putOpt : Option Nat → Except FbStop FbDev
  | none => .ok s
  | some m => s.put m

/-- The framebuffer of a crtc is read, if there is one. -/
def touchOpt : Option Nat → Except FbStop Unit
  | none => .ok ()
  | some m => s.touch m

/-- `__drm_framebuffer_unreference` -/
def putBug (m : Nat) : Except FbStop FbDev :=
  if s.freed m then .error .useAfterFree
  else if s.refcount m - 1 = 0 then .error .bug
  else .ok { s with refcount := Function.update s.refcount m (s.refcount m - 1) }

/-- `__drm_framebuffer_unregister` -/
def unregister (m : Nat) : Except FbStop FbDev :=
  { s with idr := Function.update s.idr m false }.putBug m

/-- `drm_framebuffer_init` of a new framebuffer, with the reference that its creator gets; `got`
says whether `drm_mode_object_get` finds an id. -/
def init (got : Bool) : FbDev :=
  { s with
    refcount := Function.update s.refcount s.made (if got then 2 else 1)
    idr := Function.update s.idr s.made got
    made := s.made + 1 }

/-- `drm_framebuffer_init` of a framebuffer that was there before, which keeps an id that it has. -/
def reinit (m : Nat) (got : Bool) : FbDev :=
  { s with
    refcount := Function.update s.refcount m (if got then 2 else 1)
    idr := if got then Function.update s.idr m true else s.idr }

/-- What thread `t` does from here on. -/
def next (t : Nat) (l : List FbTask) : FbDev :=
  { s with tasks := Function.update s.tasks t l }

/-- No mutex of the mode configuration is taken. -/
def unlocked (cfg : FbCfg) : Bool :=
  s.configMutex.isNone && cfg.crtcs.all fun c => (s.crtcMutex c).isNone

/-- `drm_fb_helper_is_bound`, for the console's framebuffer `m` -/
def isBound (cfg : FbCfg) (m : Nat) : Bool :=
  let bound := cfg.crtcs.countP fun c => s.crtcFb c = some m
  let crtcsBound := cfg.crtcs.countP fun c => (s.crtcFb c).isSome
  !decide (bound < crtcsBound)

end FbDev

/-- What the checks of the arguments and the driver's hooks answer: whether they succeed, and which
framebuffer the crtcs show after `set_config`. -/
structure FbAnswer where
  ok : Bool
  shown : Nat → Option Nat

/-- The crtcs after `set_config` was asked to show `fb` on `c`: it can also turn a crtc off or leave
it as it is. -/
def FbDev.afterConfig (s : FbDev) (c : Nat) (fb : Option Nat) (ans : FbAnswer) (d : Nat) :
    Option Nat :=
  if ans.shown d = none ∨ (d = c ∧ ans.shown d = fb) then ans.shown d else s.crtcFb d

/-- The unreferencing of what was shown before. -/
def unrefOld (old : Option Nat) : List FbTask := old.toList.map .unref

/-! ## Tasks -/

/-- `drm_mode_setcrtc` when it has its reference to the framebuffer. -/
def setCrtcTail (c : Nat) (ok : Bool) : Option Nat → List FbTask
  | none => if ok then [.config c none, .unlockAll] else [.unlockAll]
  | some m =>
    if ok then [.config c (some m), .unref m, .unlockAll] else [.unref m, .unlockAll]

/-- The first task of thread `t`, with the ones after it. -/
def fbExec (cfg : FbCfg) (s : FbDev) (t : Nat) (ans : FbAnswer) (rest : List FbTask) :
    FbTask → Except FbStop FbDev
  | .lockAll =>
    if s.unlocked cfg then
      .ok { s.next t rest with
        configMutex := some t
        crtcMutex := fun c => if c ∈ cfg.crtcs then some t else s.crtcMutex c }
    else .error .blocked
  | .unlockAll =>
    .ok { s.next t rest with
      configMutex := none
      crtcMutex := fun c => if c ∈ cfg.crtcs then none else s.crtcMutex c }
  | .unlockCrtc c =>
    .ok { s.next t rest with crtcMutex := Function.update s.crtcMutex c none }
  | .unref m => do
    let s ← s.put m
    .ok (s.next t rest)
  | .list file m => do
    s.touch m
    .ok { s.next t rest with fbs := Function.update s.fbs file (m :: s.fbs file) }
  | .use m => do
    s.touch m
    .ok (s.next t (.unref m :: rest))
  | .setCrtc c req =>
    match req with
    | .off => .ok (s.next t (setCrtcTail c ans.ok none ++ rest))
    | .keep =>
      match s.crtcFb c with
      | none => .ok (s.next t (.unlockAll :: rest))
      | some m => do
        let s ← s.get m
        .ok (s.next t (setCrtcTail c ans.ok (some m) ++ rest))
    | .fb m =>
      if s.idr m then do
        let s ← s.get m
        .ok (s.next t (setCrtcTail c ans.ok (some m) ++ rest))
      else .ok (s.next t (.unlockAll :: rest))
  | .config c fb =>
    .ok { s.next t (.account cfg.crtcs :: rest) with
      oldFb := s.crtcFb
      crtcFb := s.afterConfig c fb ans }
  | .account [] => .ok (s.next t rest)
  | .account (c :: cs) => do
    let s ← s.getOpt (s.crtcFb c)
    let s ← s.putOpt (s.oldFb c)
    .ok (s.next t (.account cs :: rest))
  | .setPlane p m => do
    s.touch m
    if ans.ok then
      if s.unlocked cfg then
        .ok { s.next t (unrefOld (s.planeFb p) ++ rest) with
          planeFb := Function.update s.planeFb p (some m) }
      else .error .blocked
    else .ok (s.next t (.unref m :: rest))
  | .flip c m => do
    s.touchOpt (s.crtcFb c)
    s.touch m
    if ans.ok then
      .ok { s.next t (unrefOld (s.crtcFb c) ++ .unlockCrtc c :: rest) with
        crtcFb := Function.update s.crtcFb c (some m) }
    else .ok (s.next t (.unref m :: .unlockCrtc c :: rest))
  | .remove m => do
    s.touch m
    if 1 < s.refcount m then
      .ok (s.next t (.lockAll :: .offCrtcs m cfg.crtcs :: .offPlanes m cfg.planes :: .unlockAll ::
        .unref m :: rest))
    else .ok (s.next t (.unref m :: rest))
  | .offCrtcs _ [] => .ok (s.next t rest)
  | .offCrtcs m (c :: cs) =>
    if s.crtcFb c = some m then .ok (s.next t (.config c none :: .offCrtcs m cs :: rest))
    else .ok (s.next t (.offCrtcs m cs :: rest))
  | .offPlanes _ [] => .ok (s.next t rest)
  | .offPlanes m (p :: ps) =>
    if s.planeFb p = some m then do
      let s ← s.putBug m
      .ok { s.next t (.offPlanes m ps :: rest) with planeFb := Function.update s.planeFb p none }
    else .ok (s.next t (.offPlanes m ps :: rest))
  | .release file =>
    match s.fbs file with
    | [] => .ok (s.next t rest)
    | m :: l => do
      let s ← s.unregister m
      .ok { s.next t (.remove m :: .release file :: rest) with
        fbs := Function.update s.fbs file l }
  | .disablePlanes [] => .ok (s.next t rest)
  | .disablePlanes (p :: ps) =>
    match s.planeFb p with
    | none => .ok (s.next t (.disablePlanes ps :: rest))
    | some m => do
      let s ← s.putBug m
      .ok { s.next t (.disablePlanes ps :: rest) with planeFb := Function.update s.planeFb p none }
  | .restoreCrtcs [] _ => .ok (s.next t rest)
  | .restoreCrtcs (c :: cs) lit =>
    .ok (s.next t (.config c (if lit c then s.fbdev else none) :: .restoreCrtcs cs lit :: rest))
  | .fbProbe got =>
    if ans.ok then
      match s.fbdev with
      | none => .ok { (s.init got).next t rest with fbdev := some s.made }
      | some m => do
        s.touch m
        .ok ((s.reinit m got).next t rest)
    else .ok (s.next t rest)

/-! ## Calls -/

/-- What a thread can do next. -/
inductive FbAct
  /-- go on with the call -/
  | go
  /-- `drm_mode_addfb`, `drm_mode_addfb2` with a driver that makes the framebuffer -/
  | addfb (file : Nat) (got : Bool)
  /-- `drm_mode_rmfb` -/
  | rmfb (file id : Nat)
  /-- `drm_mode_getfb`, `drm_mode_dirtyfb_ioctl` -/
  | getfb (id : Nat)
  /-- `drm_mode_setcrtc` -/
  | setcrtc (c : Nat) (req : CrtcReq)
  /-- `drm_mode_setplane` -/
  | setplane (p : Nat) (id : Option Nat)
  /-- `drm_mode_page_flip_ioctl` -/
  | pageFlip (c id : Nat)
  /-- `drm_fb_release` -/
  | close (file : Nat)
  /-- `drm_fb_helper_restore_fbdev_mode`, called under the locks or without -/
  | restore (locked : Bool) (lit : Nat → Bool)
  /-- `drm_fb_helper_initial_config` -/
  | initialConfig (got : Bool)
  /-- `drm_fb_helper_hotplug_event` -/
  | hotplug (got : Bool)

/-- A call of thread `t` from its start to its first task. -/
def fbCall (cfg : FbCfg) (s : FbDev) (t : Nat) : FbAct → Except FbStop FbDev
  | .go => .ok s
  | .addfb file got =>
    if file ∈ cfg.files then .ok ((s.init got).next t [.list file s.made]) else .ok s
  | .rmfb file m =>
    if s.idr m ∧ m ∈ s.fbs file then do
      let s ← s.unregister m
      .ok { s.next t [.remove m] with fbs := Function.update s.fbs file ((s.fbs file).erase m) }
    else .ok s
  | .getfb m =>
    if s.idr m then do
      let s ← s.get m
      .ok (s.next t [.use m])
    else .ok s
  | .setcrtc c req =>
    if c ∈ cfg.crtcs then .ok (s.next t [.lockAll, .setCrtc c req]) else .ok s
  | .setplane p none =>
    if p ∉ cfg.planes then .ok s
    else if s.unlocked cfg then
      .ok { s.next t (unrefOld (s.planeFb p)) with planeFb := Function.update s.planeFb p none }
    else .error .blocked
  | .setplane p (some m) =>
    if p ∈ cfg.planes ∧ s.idr m then do
      let s ← s.get m
      .ok (s.next t [.setPlane p m])
    else .ok s
  | .pageFlip c m =>
    if c ∉ cfg.crtcs then .ok s
    else if (s.crtcMutex c).isSome then .error .blocked
    else if (s.crtcFb c).isNone || !s.idr m then .ok s
    else do
      let s ← s.get m
      .ok { s.next t [.flip c m] with crtcMutex := Function.update s.crtcMutex c (some t) }
  | .close file => .ok (s.next t [.release file])
  | .restore true lit =>
    .ok (s.next t [.lockAll, .disablePlanes cfg.planes, .restoreCrtcs cfg.crtcs lit, .unlockAll])
  | .restore false lit =>
    .ok (s.next t [.disablePlanes cfg.planes, .restoreCrtcs cfg.crtcs lit])
  | .initialConfig got => .ok (s.next t [.fbProbe got])
  | .hotplug got =>
    match s.fbdev with
    | none => .ok s
    | some m =>
      if s.configMutex.isSome then .error .blocked
      else if s.isBound cfg m then do
        s.touch m
        -- `drm_setup_crtcs` between the locks changes no framebuffer
        .ok (s.next t [.lockAll, .unlockAll, .fbProbe got])
      else .ok s

/-- One step of thread `t`: the next task of the call it is in, or the start of a new one. -/
def fbStep (cfg : FbCfg) (s : FbDev) (t : Nat) (act : FbAct) (ans : FbAnswer) :
    Except FbStop FbDev :=
  match s.tasks t with
  | [] => fbCall cfg s t act
  | task :: rest => fbExec cfg s t ans rest task

/-- The device before the first framebuffer. -/
def fbDevInit : FbDev where
  refcount := fun _ => 0
  freed := fun _ => false
  idr := fun _ => false
  made := 0
  fbs := fun _ => []
  crtcFb := fun _ => none
  oldFb := fun _ => none
  planeFb := fun _ => none
  fbdev := none
  configMutex := none
  crtcMutex := fun _ => none
  tasks := fun _ => []

/-- A step: the thread, the call it starts if it is in none, and the answers. -/
structure FbLabel where
  thread : Nat
  act : FbAct
  ans : FbAnswer

/-! ## Runs -/

/-- A task of `drm_fb_helper_restore_fbdev_mode`. -/
def FbTask.restores : FbTask → Bool
  | .disablePlanes _ | .restoreCrtcs _ _ | .config _ _ | .account _ => true
  | _ => false

/-- Thread `t` restores the console without the locks. -/
def FbDev.bare (s : FbDev) (t : Nat) : Bool :=
  !(s.tasks t).isEmpty && (s.tasks t).all FbTask.restores

/-- The console's framebuffer has only the references of its creation, and gets an id if it had
one. -/
def FbDev.renewable (s : FbDev) (m : Nat) (got : Bool) : Bool :=
  s.refcount m == (if s.idr m then 2 else 1) && (!s.idr m || got)

/-- `drm_framebuffer_init` does not take away the references of others, a restore without locks
starts while no mutex is taken, and no other thread makes a step before it ends. -/
def FbDev.orderly (cfg : FbCfg) (s : FbDev) (l : FbLabel) : Bool :=
  (match s.tasks l.thread, l.act with
    | [], .restore false _ => s.unlocked cfg
    | .fbProbe got :: _, _ => !l.ans.ok || s.fbdev.all fun m => s.renewable m got
    | _, _ => true) &&
    cfg.threads.all fun t => !s.bare t || t == l.thread

/-- A thread of the device makes a step. -/
def FbStep (cfg : FbCfg) (s : FbDev) (l : FbLabel) (s' : FbDev) : Prop :=
  l.thread ∈ cfg.threads ∧ fbStep cfg s l.thread l.act l.ans = .ok s'

/-- It makes an orderly one. -/
def FbOrderlyStep (cfg : FbCfg) (s : FbDev) (l : FbLabel) (s' : FbDev) : Prop :=
  s.orderly cfg l = true ∧ FbStep cfg s l s'

end Drm
