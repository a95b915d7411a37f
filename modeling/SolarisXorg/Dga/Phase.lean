import SolarisXorg.Dga.WinGrab
import SolarisXorg.Lib.Poll
import SolarisXorg.Lib.Run

/-!
# The update phase (`mbsmemb_update.c`, `win_update.c`, `mbuf_update.c`, `win_grab.c`)

`Dga.Update` follows the multibuffer sets of all client structures. This is the update phase of one
client structure with everything it synchronizes: the multibuffer state, the clip list, the cursor,
the backing store and the overlay state, the change mask and the notifications.

The server may change the shared information while the client does not hold the lock, which the
synchronization of the clip list and of the backing store give up for a while. An update is given
what happens in its passes: `Pass` has, for each time the lock is given up in a pass, the changes
the server makes meanwhile and how the file operations end. A result `none` is an update that does
not return (a null pointer followed, a failed assertion), that goes on without the lock, or one
whose passes are not those given.

Sequence counters count all changes, and the code compares their low 32 bits (`differs`).
-/

namespace Dga.Phase

/-- Two counters differ as `u_int`s. -/
def differs (m n : Nat) : Bool := m % 2 ^ 32 != n % 2 ^ 32

/-- `DGA_MAX_GRABBABLE_BUFS` -/
def maxGrabbableBufs : Int := 16

/-! ## The shared information -/

/-- The multibuffer state in `WXINFO`: `w_mbsInfo` and the buffers of `wx_dbuf`. -/
structure MbState where
  mbufseq : Nat
  compositionseq : Nat
  enabled : Bool
  flipMode : FlipMode
  /-- `accessMode` is `DGA_MBACCESS_SINGLEADDR`. -/
  singleAddr : Bool
  bufViewable : Int → Bool
  displayBuffer : Int
  numberBuffers : Int

/-- `SHARED_PIXMAP_INFO` of a nonviewable buffer. -/
structure NbInfo where
  obsolete : Bool
  cacheseq : Nat
  devinfoseq : Nat

/-- The shared retained information that is mapped, as it stands when the lock is taken again. -/
structure Retained where
  obsolete : Bool
  modified : Nat

/-- What the update phase uses of `WXINFO` and of the pages that belong to it. -/
structure Shared where
  wObsolete : Bool
  mb : MbState
  writeBuffer : Int
  clipseq : Nat
  /-- `w_flag & WEXTEND` -/
  wextend : Bool
  scliplen : Nat
  curseq : Nat
  retained : Retained
  /-- `w_srtndlink` is not null. -/
  srtndlink : Bool
  ovlstate : Int
  ovlshapevalid : Bool
  devinfoseq : Nat
  nb : Int → NbInfo
  chngcnt : Nat

/-- The changes a server makes. -/
inductive Change where
  | mbuf (composition : Bool) (new : MbState)
  | clip (wextend : Bool) (scliplen : Nat)
  | cursor
  | bstore (obsolete srtndlink : Bool)
  | ovlstate (n : Int)
  | devinfo
  | nbuf (i : Int) (new : NbInfo)
  | obsolete

/-- A multibuffer change: every one counts in `mbufseq`, those of the composition also in
`compositionseq`. -/
def MbState.change (m : MbState) (composition : Bool) (new : MbState) : MbState :=
  { new with
    mbufseq := m.mbufseq + 1
    compositionseq := if composition then m.compositionseq + 1 else m.compositionseq }

/-- The multibuffer state after changes. -/
def MbState.changes (m : MbState) : List Change → MbState
  | [] => m
  | .mbuf composition new :: chs => (m.change composition new).changes chs
  | _ :: chs => m.changes chs

/-- A change without its count in `w_chng_cnt`. -/
def Shared.changeState (S : Shared) : Change → Shared
  | .mbuf composition new => { S with mb := S.mb.change composition new }
  | .clip wextend scliplen => { S with clipseq := S.clipseq + 1, wextend, scliplen }
  | .cursor => { S with curseq := S.curseq + 1 }
  | .bstore obsolete srtndlink => { S with
      retained := ⟨obsolete, S.retained.modified + 1⟩
      srtndlink }
  | .ovlstate n => { S with ovlstate := n }
  | .devinfo => { S with devinfoseq := S.devinfoseq + 1 }
  | .nbuf i new => { S with nb := Function.update S.nb i new }
  | .obsolete => { S with wObsolete := true }

/-- A change. `w_chng_cnt` is bumped when anything changes. -/
def Shared.change (S : Shared) (ch : Change) : Shared :=
  { S.changeState ch with chngcnt := S.chngcnt + 1 }

/-- Changes, one after the other. -/
def Shared.changes (S : Shared) (chs : List Change) : Shared := chs.foldl Shared.change S

/-! ## The client structure -/

/-- `changeMask` -/
structure Mask where
  clip : Bool := false
  cursor : Bool := false
  bstore : Bool := false
  cache : Bool := false
  zombie : Bool := false
  mbufset : Bool := false
  aliased : Bool := false
  site : Bool := false
  devinfo : Bool := false
  ovlstate : Bool := false
  deriving DecidableEq

/-- `DGA_WIN_CHANGEABLE_ATTRS` and `DGA_VMBUF_CHANGEABLE_ATTRS` -/
def Mask.attrs (m : Mask) : Mask := { m with clip := true, cursor := true, bstore := true }

/-- `DGA_MBCHG_…` -/
inductive MbReason where
  | unknown
  | activation
  | deactivation
  | replacement
  deriving DecidableEq

/-- `DGA_SITECHG_…` -/
inductive SiteReason where
  | unknown
  | initial
  | zombie
  | cache
  | aliased
  | mb
  deriving DecidableEq

/-- The calls of the notification functions a client has registered. -/
inductive Note where
  | rendBuf (lockSubj : Int)
  | mb (reason : MbReason)
  | site (lockSubj : Int) (reason : SiteReason)
  | ovlState (n : Int)
  deriving DecidableEq

/-- `DgaMbufSet`. `seqs` is the memory of the arrays `mbufseq`, `clipseq` and `curseq`, which follow
one another with 16 entries each; a buffer is viewable if its `pNbShinfo` is null. -/
structure MbufSet where
  addr : Nat
  numBufs : Int
  viewable : Int → Bool
  seqs : Int → Nat
  cacheSeqs : Int → Nat
  devInfoSeqs : Int → Nat
  prevLocked : Int → Bool

/-- What `s_rtnseq_p` points to: `c_rtnseq`, the mapped retained information, or, after
`_dga_rtn_unmap`, itself. -/
inductive RtnPtr where
  | own
  | info
  | self
  deriving DecidableEq

/-- What the update phase uses of `struct dga_window`. -/
structure Client where
  rLockSubj : Int
  eLockSubj : Int
  eLockSubjPrev : Int
  changeMask : Mask
  cMbufseq : Nat
  cMbcomposseq : Nat
  pMbs : Option MbufSet
  prevWasMbuffered : Bool
  mbChgReason : MbReason
  siteChgReason : SiteReason
  prevLocked : Bool
  cClipseq : Nat
  /-- `w_clipptr` is the extended clip list. -/
  clipExtended : Bool
  wCliplen : Nat
  cCurseq : Nat
  /-- `s_curseq_p` points to `c_curseq`: there is no cursor page. -/
  curseqOwn : Bool
  cRtnseq : Nat
  sRtnseqP : RtnPtr
  /-- the value of `s_rtnseq_p` read as a count -/
  rtnseqWord : Nat
  rtnGrabbed : Bool
  rtnMapped : Bool
  rtnMapchg : Bool
  cDevinfoseq : Nat
  isOverlay : Bool
  cOvlstate : Int
  siteNotify : Bool
  mbNotify : Bool
  rendBufNotify : Bool
  ovlStateNotify : Bool
  notes : List Note
  cWmChngcnt : Int → Nat
  shadowChngcnt : Int → Nat

/-- Writing the change mask. -/
def Client.mark (c : Client) (f : Mask → Mask) : Client := { c with changeMask := f c.changeMask }

/-- A call of a notification function. -/
def Client.note (c : Client) (n : Note) : Client := { c with notes := n :: c.notes }

/-- `*s_curseq_p` -/
def sCurseq (c : Client) (S : Shared) : Nat := if c.curseqOwn then c.cCurseq else S.curseq

/-- `*s_rtnseq_p` -/
def sRtnseq (c : Client) (S : Shared) : Nat :=
  match c.sRtnseqP with
  | .own => c.cRtnseq
  | .info => S.retained.modified
  | .self => c.rtnseqWord

/-- The kinds of lock subjects: `DGA_LOCKSUBJ_WINDOW`, `DGA_LOCKSUBJ_VMBUFFER` and
`DGA_LOCKSUBJ_NMBUFFER`. -/
inductive Kind where
  | window
  | vmbuffer
  | nmbuffer
  | invalid
  deriving DecidableEq

/-- The kind of a lock subject; that of a buffer is read through `pMbs`. -/
def Client.kind (c : Client) (lockSubj : Int) : Option Kind :=
  if lockSubj = -1 then some .window
  else if lockSubj = lockSubjInvalid then some .invalid
  else c.pMbs.map fun m => if m.viewable lockSubj then .vmbuffer else .nmbuffer

/-! ## The synchronization of the clip list and of the backing store -/

/-- The lock given up in `dgai_win_clip_update`: how `open` and `ftruncate` end, and what the server
changes meanwhile. -/
structure ClipRelock where
  opens : Bool
  truncates : Bool
  changes : List Change

/-- The lock given up in `dgai_win_rtn_update`: what `_dga_rtn_map` maps, if it does. -/
structure RtnRelock where
  map : Option Retained
  changes : List Change

/-- The client's mapping of the clip list is not the server's. -/
def clipStale (c : Client) (S : Shared) : Bool :=
  if S.wextend then !c.clipExtended || c.wCliplen != S.scliplen else c.clipExtended

/-- The mapping for the clip list that the server had when the lock was given up. -/
def clipMapped (c : Client) (S : Shared) : Client :=
  if S.wextend then { c with clipExtended := true, wCliplen := S.scliplen }
  else { c with clipExtended := false }

/-- `dgai_win_clip_update`: whether the lock is held at the end, and the state then. -/
def clipUpdate (c : Client) (S : Shared) : List ClipRelock → Option (Bool × Client × Shared)
  | [] => if clipStale c S then none else some (true, c, S)
  | r :: rs =>
    if !clipStale c S then none
    else if r.opens && r.truncates then clipUpdate (clipMapped c S) (S.changes r.changes) rs
    else if rs.isEmpty then some (false, if S.wextend then c else clipMapped c S, S)
    else none

/-- `_dga_rtn_unmap` -/
def rtnUnmap (c : Client) : Client :=
  if c.rtnMapped then
    { c with cRtnseq := 0, sRtnseqP := .self, rtnMapped := false, rtnMapchg := true }
  else c

/-- `_dga_rtn_map` -/
def rtnMap (c : Client) (S : Shared) (map : Option Retained) : Client × Shared :=
  match map with
  | none => (c, S)
  | some retained =>
    if c.rtnMapped then (c, S)
    else ({ c with cRtnseq := 0, sRtnseqP := .info, rtnMapped := true }, { S with retained })

/-- The client's mapping of the retained information is not the server's. -/
def rtnStale (c : Client) (S : Shared) : Bool :=
  if c.rtnMapped then S.retained.obsolete else S.srtndlink

/-- `dgai_win_rtn_update` -/
def rtnUpdate (c : Client) (S : Shared) : List RtnRelock → Option (Client × Shared)
  | [] => if rtnStale c S then none else some (c, S)
  | r :: rs =>
    if !rtnStale c S then none
    else
      match rtnMap (rtnUnmap c) (S.changes r.changes) r.map with
      | (c, S) => rtnUpdate c S rs

/-! ## The multibuffer part -/

/-- What `malloc` and the grabs of pixmaps give `dgai_mbufset_create`: whether all is there, the
address, and what the memory holds. -/
structure Alloc where
  ok : Bool
  addr : Nat
  viewable : Int → Bool
  words : Int → Nat
  cacheSeqs : Int → Nat
  devInfoSeqs : Int → Nat
  prevLocked : Int → Bool

/-- `dgai_mbufset_create`: only the entries of the buffers there are get a value. -/
def mbufsetCreate (m : MbState) (a : Alloc) : Option MbufSet :=
  if a.ok then
    some
      { addr := a.addr
        numBufs := m.numberBuffers
        viewable := fun i => if i < m.numberBuffers then m.bufViewable i else a.viewable i
        seqs := fun i => if i % maxGrabbableBufs < m.numberBuffers then 0 else a.words i
        cacheSeqs := fun i => if i < m.numberBuffers then 0 else a.cacheSeqs i
        devInfoSeqs := fun i => if i < m.numberBuffers then 0 else a.devInfoSeqs i
        prevLocked := fun i => if i < m.numberBuffers then false else a.prevLocked i }
  else none

/-- `dgai_mbsmemb_syncMbufset` -/
def syncMbufset (c : Client) (m : MbState) (a : Alloc) : Client :=
  if !differs c.cMbcomposseq m.compositionseq then c
  else
    let c := { c with
      prevWasMbuffered := c.pMbs.isSome
      pMbs := none
      cMbcomposseq := m.compositionseq }
    if !m.enabled then c
    else
      match mbufsetCreate m a with
      | none => c.mark fun k => { k with zombie := true }
      | some pMbs => { c with pMbs := some pMbs }

/-- `dgai_mbsmemb_syncRendBuf` -/
def syncRendBuf (c : Client) (S : Shared) : Client × Shared :=
  if c.rendBufNotify && S.mb.singleAddr && S.writeBuffer != c.eLockSubj then
    (c.note (.rendBuf c.eLockSubj), { S with writeBuffer := c.eLockSubj })
  else (c, S)

/-- The effective lock subject of a member that is aliased. -/
def aliasTo (c : Client) (lockSubj : Int) : Client :=
  let c := { c with eLockSubj := lockSubj }
  if lockSubj ≠ c.eLockSubjPrev then c.mark fun k => { k.attrs with aliased := true } else c

/-- `dgai_mbwin_syncLockSubj` -/
def mbwinSyncLockSubj (c : Client) (m : MbState) : Client :=
  if m.flipMode = .video then aliasTo c m.displayBuffer else c

/-- `dgai_win_mb_update` -/
def winMbUpdate (c : Client) (S : Shared) (a : Alloc) : Option (Client × Shared) := do
  let c := syncMbufset c S.mb a
  let (c, S) := if c.pMbs.isSome then syncRendBuf (mbwinSyncLockSubj c S.mb) S else (c, S)
  match ← c.kind c.eLockSubj with
  | .window | .vmbuffer => some (c.mark fun k => { k.attrs with mbufset := true }, S)
  | _ => none

/-- `dgai_mbuf_syncLockSubj` -/
def mbufSyncLockSubj (c : Client) (m : MbState) : Client :=
  if m.flipMode = .copy ∧ m.displayBuffer = c.rLockSubj then aliasTo c (-1) else c

/-- `dgai_mbuf_mb_update` -/
def mbufMbUpdate (c : Client) (S : Shared) (a : Alloc) : Option (Client × Shared) :=
  let c := syncMbufset c S.mb a
  if c.pMbs.isNone || c.rLockSubj != -1 && decide (S.mb.numberBuffers ≤ c.rLockSubj) then
    some (c.mark fun k => { k with zombie := true }, S)
  else do
    let (c, S) := syncRendBuf (mbufSyncLockSubj c S.mb) S
    match ← c.kind c.eLockSubj with
    | .window | .vmbuffer => some (c.mark fun k => { k.attrs with mbufset := true }, S)
    | _ => some (c.mark fun k => { k.attrs with cache := true, mbufset := true }, S)

/-! ## The attributes of a lock subject -/

/-- `DgaLastSeqs` -/
structure LastSeqs where
  mbufseq : Nat
  clipseq : Nat
  curseq : Nat
  rtnseq : Nat

/-- What a synchronization loop works on. -/
structure Sync where
  c : Client
  sh : Shared
  last : LastSeqs

/-- What happens in a pass of a synchronization loop. -/
structure Pass where
  alloc : Alloc
  clip : List ClipRelock
  rtn : List RtnRelock

/-- The changes the server makes in a pass. -/
def Pass.changes (p : Pass) : List Change :=
  p.clip.flatMap (·.changes) ++ p.rtn.flatMap (·.changes)

/-- "clip state has changed?" -/
def clipSync (x : Sync) (rs : List ClipRelock) : Option Sync :=
  if differs x.last.clipseq x.sh.clipseq then
    match clipUpdate (x.c.mark fun k => { k with clip := true }) x.sh rs with
    | some (true, c, sh) => some ⟨c, sh, { x.last with clipseq := sh.clipseq }⟩
    | _ => none
  else if rs.isEmpty then some x
  else none

/-- "cursor state has changed?" -/
def cursSync (x : Sync) : Sync :=
  if differs x.last.curseq (sCurseq x.c x.sh) then
    ⟨x.c.mark fun k => { k with cursor := true }, x.sh,
      { x.last with curseq := sCurseq x.c x.sh }⟩
  else x

/-- "backing store state has changed?" -/
def rtnSync (x : Sync) (rs : List RtnRelock) : Option Sync :=
  if differs x.last.rtnseq (sRtnseq x.c x.sh) || x.c.rtnGrabbed && !x.c.rtnMapped then do
    let (c, sh) ← rtnUpdate (x.c.mark fun k => { k with bstore := true }) x.sh rs
    some ⟨c, sh, { x.last with rtnseq := sRtnseq c sh }⟩
  else if rs.isEmpty then some x
  else none

/-- The overlay state. -/
def ovlSync (x : Sync) : Sync :=
  if x.c.isOverlay && x.c.cOvlstate != x.sh.ovlstate then
    { x with
      c := { x.c with
        changeMask := { x.c.changeMask with ovlstate := true }
        cOvlstate := x.sh.ovlstate } }
  else x

/-- `dgai_win_syncChanges` -/
def winSyncChanges (x : Sync) (p : Pass) : Option Sync := do
  let x ← clipSync x p.clip
  let x ← rtnSync (cursSync x) p.rtn
  some (ovlSync x)

/-- A write to one of the arrays of counters of a multibuffer set. -/
def MbufSet.setSeq (m : MbufSet) (array : Int) (bufIndex : Int) (n : Nat) : MbufSet :=
  { m with seqs := Function.update m.seqs (array * maxGrabbableBufs + bufIndex) n }

/-- A write through `pMbs`, where the count has changed. -/
def Client.setSeq (c : Client) (changed : Bool) (array : Int) (bufIndex : Int) (n : Nat) :
    Option Client :=
  if changed then c.pMbs.map fun m => { c with pMbs := some (m.setSeq array bufIndex n) }
  else some c

/-- `dgai_vmbuf_syncChanges` -/
def vmbufSyncChanges (x : Sync) (bufIndex : Int) (p : Pass) : Option Sync := do
  let y ← clipSync x p.clip
  let c ← y.c.setSeq (differs x.last.clipseq x.sh.clipseq) 1 bufIndex y.last.clipseq
  let z := cursSync { y with c }
  let c ← z.c.setSeq (differs y.last.curseq (sCurseq c y.sh)) 2 bufIndex z.last.curseq
  if p.rtn.isEmpty then some { z with c } else none

/-- `dgai_nmbuf_devinfo_update` -/
def nmbufDevinfoUpdate (c : Client) (S : Shared) : Option Client :=
  c.pMbs.map fun m =>
    if differs (m.devInfoSeqs c.eLockSubj) (S.nb c.eLockSubj).devinfoseq then
      { c with
        changeMask := { c.changeMask with devinfo := true }
        pMbs := some { m with
          devInfoSeqs := Function.update m.devInfoSeqs c.eLockSubj
            (S.nb c.eLockSubj).devinfoseq } }
    else c

/-- `dgai_nmbuf_cache_update` -/
def nmbufCacheUpdate (c : Client) (S : Shared) : Option Client :=
  c.pMbs.map fun m =>
    if differs (m.cacheSeqs c.eLockSubj) (S.nb c.eLockSubj).cacheseq then
      { c with
        changeMask := { c.changeMask with cache := true }
        pMbs := some { m with
          cacheSeqs := Function.update m.cacheSeqs c.eLockSubj (S.nb c.eLockSubj).cacheseq } }
    else c

/-- `dgai_nmbuf_syncChanges` -/
def nmbufSyncChanges (x : Sync) (p : Pass) : Option Sync := do
  if p.clip.isEmpty && p.rtn.isEmpty then
    if x.c.changeMask.zombie then some x
    else if (x.sh.nb x.c.eLockSubj).obsolete then
      some { x with c := x.c.mark fun k => { k with zombie := true } }
    else
      let c ← nmbufCacheUpdate x.c x.sh
      let c ← nmbufDevinfoUpdate c x.sh
      some { x with c }
  else none

/-! ## The synchronization loop -/

/-- The loop of `dgai_win_update` and `dgai_mbuf_update`: the window may have become a zombie, the
multibuffer state comes first, then the attributes of the lock subject it leads to. -/
def syncLoop (mbSync : Sync → Alloc → Option Sync) (attrs : Sync → Pass → Option Sync)
    (syncAgain : Sync → Option Bool) (x : Sync) : List Pass → Option Sync
  | [] => none
  | p :: ps =>
    if x.sh.wObsolete then some { x with c := x.c.mark fun k => { k with zombie := true } }
    else do
      let x ← mbSync x p.alloc
      let x ← attrs x p
      if ← syncAgain x then syncLoop mbSync attrs syncAgain x ps
      else if ps.isEmpty then some x
      else none

/-! ## Derived changes and notifications -/

/-- `dgai_mbsmemb_devinfo_update` -/
def devinfoUpdate (c : Client) (S : Shared) : Option Client :=
  if c.eLockSubj = lockSubjInvalid ∨ c.changeMask.zombie = true then some c
  else do
    match ← c.kind c.eLockSubj with
    | .window =>
      if differs c.cDevinfoseq S.devinfoseq then
        some { c with
          changeMask := { c.changeMask with devinfo := true }
          cDevinfoseq := S.devinfoseq }
      else some c
    | .vmbuffer => some c
    | _ => nmbufDevinfoUpdate c S

/-- A site change. -/
def Client.siteChg (c : Client) (reason : SiteReason) : Client :=
  { c with changeMask := { c.changeMask with site := true }, siteChgReason := reason }

/-- Whether the buffer that is the lock subject has been locked before. -/
def Client.bufPrevLocked (c : Client) : Option Bool :=
  if 0 ≤ c.eLockSubj then c.pMbs.map fun m => m.prevLocked c.eLockSubj else some true

/-- The buffer that is the lock subject has been locked. -/
def Client.setPrevLocked (c : Client) : Client :=
  { c with
    pMbs := c.pMbs.map fun m =>
      { m with prevLocked := Function.update m.prevLocked c.eLockSubj true } }

/-- The site changes that follow from other changes. -/
def Client.derivSite (c : Client) : Client :=
  if c.changeMask.cache then c.siteChg .cache
  else if c.changeMask.aliased then c.siteChg .aliased
  else if c.changeMask.mbufset then c.siteChg .mb
  else c

/-- `dgai_mbsmemb_figureDerivChgs` -/
def figureDerivChgs (c : Client) : Option Client :=
  let c := { c with siteChgReason := .unknown }
  if c.changeMask.zombie then some ((c.mark fun k => { k with clip := true }).siteChg .zombie)
  else if c.eLockSubj = -1 ∧ c.prevLocked = false then
    some { c.siteChg .initial with prevLocked := true }
  else
    c.bufPrevLocked.map fun locked =>
      if locked then c.derivSite else (c.siteChg .initial).setPrevLocked

/-- Whether a lock subject is valid and viewable. -/
def Client.viewable (c : Client) (lockSubj : Int) : Option Bool :=
  (c.kind lockSubj).map fun k => k = .window || k = .vmbuffer

/-- `dgai_mbuf_figureDerivChgs` -/
def mbufFigureDerivChgs (c : Client) : Option Client := do
  let c ← figureDerivChgs c
  let curViewable ← c.viewable c.eLockSubj
  let prevViewable ← c.viewable c.eLockSubjPrev
  if curViewable != prevViewable then some (c.mark fun k => { k with clip := true }) else some c

/-- The reason for a change of the multibuffer set; none is reported if it was made and taken away
again in the same update. -/
def mbReason (prevWasMbuffered pMbs : Bool) : MbReason :=
  match prevWasMbuffered, pMbs with
  | false, true => .activation
  | true, false => .deactivation
  | true, true => .replacement
  | false, false => .unknown

/-- `dgai_mbsmemb_notifyMbChg` -/
def notifyMbChg (c : Client) : Client :=
  let reason := mbReason c.prevWasMbuffered c.pMbs.isSome
  let c := { c with mbChgReason := reason }
  if reason = .unknown then c.mark fun k => { k with mbufset := false }
  else if c.mbNotify then
    { (c.note (.mb reason)).mark fun k => { k with mbufset := false } with mbChgReason := .unknown }
  else c

/-- `dgai_mbsmemb_notifySiteChg` -/
def notifySiteChg (c : Client) : Client :=
  if c.siteNotify then
    { (c.note (.site c.eLockSubj c.siteChgReason)).mark fun k => { k with site := false } with
      siteChgReason := .unknown }
  else c

/-- `dgai_mbsmemb_notifyOvlState` -/
def notifyOvlState (c : Client) : Client :=
  if c.ovlStateNotify then
    (c.note (.ovlState c.cOvlstate)).mark fun k => { k with ovlstate := false }
  else c

/-- `dgai_mbsmemb_notify` -/
def notify (c : Client) : Client :=
  let c := if c.changeMask.mbufset then notifyMbChg c else c
  let c := if c.changeMask.site then notifySiteChg c else c
  if c.changeMask.ovlstate then notifyOvlState c else c

/-! ## Windows -/

/-- `dgai_win_getLastSeqs` -/
def winGetLastSeqs (c : Client) : LastSeqs := ⟨c.cMbufseq, c.cClipseq, c.cCurseq, c.cRtnseq⟩

/-- `dgai_win_syncAgain` -/
def winSyncAgain (x : Sync) : Option Bool :=
  if differs x.last.mbufseq x.sh.mb.mbufseq then some true
  else do
    match ← x.c.kind x.c.eLockSubj with
    | .window =>
      some (differs x.last.clipseq x.sh.clipseq || differs x.last.curseq (sCurseq x.c x.sh) ||
        differs x.last.rtnseq (sRtnseq x.c x.sh) ||
        x.c.isOverlay && x.c.cOvlstate != x.sh.ovlstate)
    | .vmbuffer =>
      some (differs x.last.clipseq x.sh.clipseq || differs x.last.curseq (sCurseq x.c x.sh))
    | _ => none

/-- The multibuffer part of a pass of the loop of `dgai_win_update`. -/
def winMbSync (x : Sync) (a : Alloc) : Option Sync :=
  if differs x.last.mbufseq x.sh.mb.mbufseq then do
    let (c, sh) ← winMbUpdate x.c x.sh a
    some ⟨{ c with cMbufseq := sh.mb.mbufseq }, sh, { x.last with mbufseq := sh.mb.mbufseq }⟩
  else some x

/-- The attributes of the effective lock subject of a window. -/
def winAttrs (x : Sync) (bufIndex : Int) (p : Pass) : Option Sync := do
  match ← x.c.kind x.c.eLockSubj with
  | .window => winSyncChanges x p
  | .vmbuffer => vmbufSyncChanges x bufIndex p
  | _ => none

/-- The loop of `dgai_win_update`. -/
def winLoop (x : Sync) (bufIndex : Int) (ps : List Pass) : Option Sync :=
  syncLoop winMbSync (winAttrs · bufIndex ·) winSyncAgain x ps

/-- `c_wm_chngcnt[bufIndex + 1] = *s_chngcnt_p` -/
def Client.synced (c : Client) (S : Shared) (bufIndex : Int) : Client :=
  { c with cWmChngcnt := Function.update c.cWmChngcnt (bufIndex + 1) S.chngcnt }

/-- `DGA_OVLSTATE_CONFLICT` -/
def ovlstateConflict : Int := 2

/-- `dgai_win_update` -/
def winUpdate (c : Client) (S : Shared) (bufIndex : Int) (ps : List Pass) :
    Option (Client × Shared) := do
  let x ← winLoop ⟨{ c with changeMask := {} }, S, winGetLastSeqs c⟩ bufIndex ps
  let c ← devinfoUpdate x.c x.sh
  let c ← figureDerivChgs c
  let c := (notify c).synced x.sh bufIndex
  if c.isOverlay && c.cOvlstate != ovlstateConflict then
    some (c, { x.sh with ovlshapevalid := false })
  else some (c, x.sh)

/-! ## Buffers -/

/-- `dgai_mbuf_getLastSeqs`; the set is the `pMbufSet` the loop is entered with. -/
def mbufGetLastSeqs (c : Client) (m : MbufSet) (bufIndex : Int) : LastSeqs :=
  ⟨m.seqs bufIndex, m.seqs (maxGrabbableBufs + bufIndex), m.seqs (2 * maxGrabbableBufs + bufIndex),
    c.cRtnseq⟩

/-- `dgai_mbuf_syncAgain` -/
def mbufSyncAgain (x : Sync) : Option Bool :=
  if differs x.last.mbufseq x.sh.mb.mbufseq then some true
  else do
    match ← x.c.kind x.c.eLockSubj with
    | .window =>
      some (differs x.last.clipseq x.sh.clipseq || differs x.last.curseq (sCurseq x.c x.sh) ||
        differs x.last.rtnseq (sRtnseq x.c x.sh))
    | .vmbuffer =>
      some (differs x.last.clipseq x.sh.clipseq || differs x.last.curseq (sCurseq x.c x.sh))
    | .nmbuffer => some false
    | .invalid => some true

/-- `pMbufSet->mbufseq[bufIndex] = mbufseq`, `addr` being the set the loop was entered with. If that
one is destroyed, the write is to free memory, which may be that of the new set. -/
def Client.recordMbufseq (c : Client) (addr : Nat) (bufIndex : Int) (mbufseq : Nat) : Client :=
  { c with pMbs := c.pMbs.map fun m => if m.addr = addr then m.setSeq 0 bufIndex mbufseq else m }

/-- The multibuffer part of a pass of the loop of `dgai_mbuf_update`. -/
def mbufMbSync (x : Sync) (addr : Nat) (bufIndex : Int) (a : Alloc) : Option Sync :=
  if differs x.last.mbufseq x.sh.mb.mbufseq then do
    let (c, sh) ← mbufMbUpdate x.c x.sh a
    some ⟨c.recordMbufseq addr bufIndex sh.mb.mbufseq, sh,
      { x.last with mbufseq := sh.mb.mbufseq }⟩
  else some x

/-- The attributes of the effective lock subject of a buffer. -/
def mbufAttrs (x : Sync) (bufIndex : Int) (p : Pass) : Option Sync := do
  match ← x.c.kind x.c.eLockSubj with
  | .window => winSyncChanges x p
  | .vmbuffer => vmbufSyncChanges x bufIndex p
  | .nmbuffer => nmbufSyncChanges x p
  | .invalid => none

/-- The loop of `dgai_mbuf_update`. -/
def mbufLoop (x : Sync) (addr : Nat) (bufIndex : Int) (ps : List Pass) : Option Sync :=
  syncLoop (mbufMbSync · addr bufIndex ·) (mbufAttrs · bufIndex ·) mbufSyncAgain x ps

/-- The composition changes that `dgai_mbuf_update` notices before its loop. -/
def mbufPresync (c : Client) (m : MbState) (a : Alloc) : Client :=
  if differs c.cMbufseq m.mbufseq then syncMbufset c m a else c

/-- `dgai_mbuf_update` -/
def mbufUpdate (c : Client) (S : Shared) (bufIndex : Int) (a : Alloc) (ps : List Pass) :
    Option (Client × Shared) := do
  let c := mbufPresync c S.mb a
  let m ← c.pMbs
  let x ← mbufLoop ⟨{ c with changeMask := {} }, S, mbufGetLastSeqs c m bufIndex⟩ m.addr bufIndex ps
  let c ← devinfoUpdate x.c x.sh
  let c ← mbufFigureDerivChgs c
  some ((notify c).synced x.sh bufIndex, x.sh)

/-! ## Members of a multibuffer set -/

/-- What happens in an update: the memory for a set made before the loop, and the passes. -/
structure Script where
  alloc : Alloc
  passes : List Pass

/-- `dgai_mbsmemb_update` after its test of the change count. -/
def mbsmembSync (c : Client) (S : Shared) (bufIndex : Int) (u : Script) :
    Option (Client × Shared) :=
  let c := { c with rLockSubj := bufIndex, eLockSubjPrev := c.eLockSubj, eLockSubj := bufIndex }
  if bufIndex = -1 then winUpdate c S bufIndex u.passes
  else mbufUpdate c S bufIndex u.alloc u.passes

/-- The bookkeeping of `dgai_mbsmemb_update` for threads: `c_wm_chngcnt` is made to differ, so that
the next lock calls the update function again. -/
def Client.shadowed (c : Client) (S : Shared) (bufIndex : Int) : Client :=
  { c with
    shadowChngcnt :=
      Function.update c.shadowChngcnt (bufIndex + 1) (c.cWmChngcnt (bufIndex + 1))
    cWmChngcnt := Function.update c.cWmChngcnt (bufIndex + 1) (S.chngcnt + (2 ^ 32 - 1)) }

/-- `dgai_mbsmemb_update`: the change mask it returns and the state then. `dgaMTOn` is set where
threads share a window. -/
def mbsmembUpdate (dgaMTOn : Bool) (c : Client) (S : Shared) (bufIndex : Int) (u : Script) :
    Option (Mask × Client × Shared) :=
  if dgaMTOn && !differs (c.shadowChngcnt (bufIndex + 1)) S.chngcnt then some ({}, c, S)
  else
    (mbsmembSync c S bufIndex u).map fun (c, S) =>
      (c.changeMask, if dgaMTOn then c.shadowed S bufIndex else c, S)

/-- `DGA_DRAW_LOCK` calls the update function. -/
def drawLockUpdates (c : Client) (S : Shared) (bufIndex : Int) : Bool :=
  differs (c.cWmChngcnt (bufIndex + 1)) S.chngcnt

/-! ## Grabs -/

/-- The client structure that `dgai_win_grab_common` fills out for the drawable interface.
`cursPage` says that there is a cursor page; `c_ovlstate` is what the memory holds. -/
def grabClient (S : Shared) (cursPage isOverlay : Bool) (cOvlstate : Int) (rtnseqWord : Nat) :
    Client where
  rLockSubj := lockSubjInvalid
  eLockSubj := lockSubjInvalid
  eLockSubjPrev := lockSubjInvalid
  changeMask := {}
  cMbufseq := 0
  cMbcomposseq := 0
  pMbs := none
  prevWasMbuffered := false
  mbChgReason := .unknown
  siteChgReason := .unknown
  prevLocked := false
  cClipseq := 0
  clipExtended := false
  wCliplen := 0
  cCurseq := if cursPage then S.curseq + (2 ^ 32 - 1) else 0
  curseqOwn := !cursPage
  cRtnseq := 0
  sRtnseqP := .own
  rtnseqWord := rtnseqWord
  rtnGrabbed := false
  rtnMapped := false
  rtnMapchg := false
  cDevinfoseq := 0
  isOverlay := isOverlay
  cOvlstate := cOvlstate
  siteNotify := false
  mbNotify := false
  rendBufNotify := false
  ovlStateNotify := false
  notes := []
  cWmChngcnt := fun _ => 0
  shadowChngcnt := fun _ => 0

/-- `dgai_win_initMbufset` -/
def winInitMbufset (c : Client) (m : MbState) (a : Alloc) : Option Client :=
  if !m.enabled then some { c with pMbs := none }
  else (mbufsetCreate m a).map fun pMbs =>
    { c with pMbs := some pMbs, cMbcomposseq := m.compositionseq }

/-! ## Runs -/

/-- A client structure and the shared information of its window. -/
structure Sys where
  c : Client
  sh : Shared

/-- What a server keeps to: the displayed buffer is one of the window's, and every change of the
composition is counted in both counters. -/
structure MbState.Ok (m : MbState) : Prop where
  display : m.enabled = true → 0 ≤ m.displayBuffer ∧ m.displayBuffer < m.numberBuffers
  counts : m.compositionseq ≤ m.mbufseq

/-- Changes a server may make: whether there are buffers and how many is the composition. -/
def MbState.Legal (m : MbState) : List Change → Prop
  | [] => True
  | .mbuf composition new :: chs =>
    (new.enabled = true → 0 ≤ new.displayBuffer ∧ new.displayBuffer < new.numberBuffers) ∧
      (composition = false →
        new.enabled = m.enabled ∧ new.numberBuffers = m.numberBuffers) ∧
      (m.change composition new).Legal chs
  | _ :: chs => m.Legal chs

/-- What the client does between its locks does not touch the lock subjects, the multibuffer set and
the counts of changes: it asks for changes, registers notification functions, grabs the retained
information. -/
structure SameLocks (c c' : Client) : Prop where
  subject : (c'.rLockSubj, c'.eLockSubj, c'.eLockSubjPrev) =
    (c.rLockSubj, c.eLockSubj, c.eLockSubjPrev)
  counts : (c'.cMbufseq, c'.cMbcomposseq, c'.cWmChngcnt, c'.shadowChngcnt) =
    (c.cMbufseq, c.cMbcomposseq, c.cWmChngcnt, c.shadowChngcnt)
  pMbs : c'.pMbs = c.pMbs
  zombie : c'.changeMask.zombie = c.changeMask.zombie

/-- What happens to a window: the server changes it while it is not locked, the client locks it or
one of its buffers, the client does something else. -/
inductive Op where
  | change (ch : Change)
  | update (dgaMTOn : Bool) (bufIndex : Int) (u : Script)
  | other (c : Client)

/-- A step. An update is called by `DGA_DRAW_LOCK` when the change count is another one. -/
def Sys.Step (σ : Sys) : Op → Sys → Prop
  | .change ch, τ => σ.sh.mb.Legal [ch] ∧ τ = ⟨σ.c, σ.sh.change ch⟩
  | .other c, τ => SameLocks σ.c c ∧ τ = ⟨c, σ.sh⟩
  | .update dgaMTOn bufIndex u, τ =>
    -1 ≤ bufIndex ∧ bufIndex < maxGrabbableBufs ∧ drawLockUpdates σ.c σ.sh bufIndex = true ∧
      σ.sh.mb.Legal (u.passes.flatMap Pass.changes) ∧
      ∃ mask, mbsmembUpdate dgaMTOn σ.c σ.sh bufIndex u = some (mask, τ.c, τ.sh)

/-! ## Lock subjects -/

/-- What the effective lock subject should be after an update of the window, `-1`, or of a
buffer. -/
structure SubjectOk (c : Client) (m : MbState) (bufIndex : Int) : Prop where
  window : bufIndex = -1 →
    c.eLockSubj = if c.pMbs.isSome ∧ m.flipMode = .video then m.displayBuffer else -1
  buffer : bufIndex ≠ -1 →
    c.eLockSubj = if m.flipMode = .copy ∧ m.displayBuffer = bufIndex then -1 else bufIndex
  inside : 0 ≤ c.eLockSubj → ∃ s, c.pMbs = some s ∧ c.eLockSubj < s.numBufs

/-- The multibuffer states at the starts of the passes of an update. -/
def starts (m : MbState) : List Pass → List MbState
  | [] => []
  | p :: ps => m :: starts (m.changes p.changes) ps

/-- The multibuffer state at the end of an update. -/
def Script.final (u : Script) (m : MbState) : MbState := m.changes (u.passes.flatMap Pass.changes)

/-- The count of multibuffer changes on record for a member: that of the window, or that of the
buffer in its set. A set that is made before the loop of the update has none yet for its buffers. -/
def Client.record (c : Client) (m : MbState) (bufIndex : Int) (u : Script) : Nat :=
  if bufIndex = -1 then c.cMbufseq
  else if differs c.cMbufseq m.mbufseq && differs c.cMbcomposseq m.compositionseq then
    if bufIndex < m.numberBuffers then 0 else u.alloc.words bufIndex
  else (c.pMbs.map fun s => s.seqs bufIndex).getD 0

/-- Whether a client structure will have a multibuffer set for the multibuffer state `m`. -/
def Client.hasSet (c : Client) (m : MbState) : Bool :=
  if m.compositionseq = c.cMbcomposseq then c.pMbs.isSome else m.enabled

/-- The lock subject a member is an alias of: a window in video flip mode of the displayed buffer, a
displayed buffer in copy flip mode of the window. -/
def Client.aliasOf (c : Client) (bufIndex : Int) (m : MbState) : Option Int :=
  if bufIndex = -1 then
    if c.hasSet m = true ∧ m.flipMode = .video then some m.displayBuffer else none
  else if m.flipMode = .copy ∧ m.displayBuffer = bufIndex then some (-1)
  else none

/-- The count of multibuffer changes is not the one on record. -/
def Sys.Moved (σ : Sys) (bufIndex : Int) (u : Script) (m : MbState) : Prop :=
  Lib.Moved differs MbState.mbufseq (σ.c.record σ.sh.mb bufIndex u) σ.sh.mb m

/-- An alias that an update comes upon is still there at its end; an alias that is there at the end
came with a multibuffer change since the one on record; and a buffer with no change since is one of
the window's. -/
structure Sys.AliasSeen (σ : Sys) (bufIndex : Int) (u : Script) : Prop where
  stays : ∀ m ∈ starts σ.sh.mb u.passes, σ.Moved bufIndex u m →
    (σ.c.aliasOf bufIndex m).isSome = true →
    (σ.c.aliasOf bufIndex (u.final σ.sh.mb)).isSome = true
  noticed : (σ.c.aliasOf bufIndex (u.final σ.sh.mb)).isSome = true →
    σ.Moved bufIndex u (u.final σ.sh.mb)
  inside : bufIndex ≠ -1 → ¬ σ.Moved bufIndex u (u.final σ.sh.mb) →
    bufIndex < (u.final σ.sh.mb).numberBuffers

/-- No 32-bit count comes round between two looks at it. The change count is looked at with threads
only. -/
structure Sys.NoWrap (σ : Sys) (dgaMTOn : Bool) (bufIndex : Int) (u : Script) : Prop where
  composition : σ.sh.mb.compositionseq < σ.c.cMbcomposseq + 2 ^ 32
  mbuf : σ.sh.mb.mbufseq < σ.c.cMbufseq + 2 ^ 32
  passes : ∀ p ∈ u.passes, p.changes.length < 2 ^ 32
  shadow : dgaMTOn = true → σ.sh.chngcnt < σ.c.shadowChngcnt (bufIndex + 1) + 2 ^ 32

/-- With threads, an update whose change count is the one on record returns at once. -/
def Sys.Early (σ : Sys) (dgaMTOn : Bool) (bufIndex : Int) : Prop :=
  dgaMTOn = true ∧ differs (σ.c.shadowChngcnt (bufIndex + 1)) σ.sh.chngcnt = false

/-- What the lock subjects need of the steps. An update that returns at once must be of the member
that was updated last. -/
def Sys.Good (σ : Sys) : Op → Prop
  | .update dgaMTOn bufIndex u =>
    σ.NoWrap dgaMTOn bufIndex u ∧
      (σ.Early dgaMTOn bufIndex →
        σ.c.rLockSubj = bufIndex ∧ σ.c.changeMask.zombie = false) ∧
      (¬ σ.Early dgaMTOn bufIndex → σ.AliasSeen bufIndex u)
  | _ => True

end Dga.Phase
