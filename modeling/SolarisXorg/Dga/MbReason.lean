import SolarisXorg.Dga.Phase

/-!
# The reason for a multibuffer change (`mbsmemb_update.c`)

`dgai_mbsmemb_notifyMbChg` tells a client why its multibuffer set has changed: it goes by `pMbs` and
by `prevWasMbuffered`, which `dgai_mbsmemb_syncMbufset` has kept of the last composition change that
it noticed. `Sys.given` is the reason that an update comes to. It is to compare the client at the
start of the update with the client at its end (`Told.Right`).

The multibuffer states that an update looks at are what the server's changes make of the first one
(`looks`); of these it notices the ones with another count of composition changes (`noticed`).
-/

namespace Dga.Phase

/-! ## The reason given -/

/-- `dgai_win_update` up to `dgai_mbsmemb_notify`. -/
def winNotified (c : Client) (S : Shared) (bufIndex : Int) (ps : List Pass) :
    Option (Client × Shared) := do
  let x ← winLoop ⟨{ c with changeMask := {} }, S, winGetLastSeqs c⟩ bufIndex ps
  let c ← devinfoUpdate x.c x.sh
  let c ← figureDerivChgs c
  some (c, x.sh)

/-- `dgai_mbuf_update` up to `dgai_mbsmemb_notify`. -/
def mbufNotified (c : Client) (S : Shared) (bufIndex : Int) (a : Alloc) (ps : List Pass) :
    Option (Client × Shared) := do
  let c := mbufPresync c S.mb a
  let m ← c.pMbs
  let x ← mbufLoop ⟨{ c with changeMask := {} }, S, mbufGetLastSeqs c m bufIndex⟩ m.addr bufIndex ps
  let c ← devinfoUpdate x.c x.sh
  let c ← mbufFigureDerivChgs c
  some (c, x.sh)

/-- `dgai_mbsmemb_update` up to `dgai_mbsmemb_notify`. -/
def mbsmembNotified (c : Client) (S : Shared) (bufIndex : Int) (u : Script) :
    Option (Client × Shared) :=
  let c := { c with rLockSubj := bufIndex, eLockSubjPrev := c.eLockSubj, eLockSubj := bufIndex }
  if bufIndex = -1 then winNotified c S bufIndex u.passes
  else mbufNotified c S bufIndex u.alloc u.passes

/-- The reason that `dgai_mbsmemb_notifyMbChg` comes to, where `dgai_mbsmemb_notify` calls it. -/
def Client.given (c : Client) : Option MbReason :=
  if c.changeMask.mbufset then some (mbReason c.prevWasMbuffered c.pMbs.isSome) else none

/-- The reason given in a step, if one is. -/
def Sys.given (σ : Sys) : Op → Option MbReason
  | .update dgaMTOn bufIndex u =>
    if dgaMTOn && !differs (σ.c.shadowChngcnt (bufIndex + 1)) σ.sh.chngcnt then none
    else (mbsmembNotified σ.c σ.sh bufIndex u).bind fun (c, _) => c.given
  | _ => none

/-- A reason reaches the client: it is told, or `dga_draw_mbchg` finds it. -/
structure Client.Finds (c : Client) (r : MbReason) : Prop where
  told : c.mbNotify = true → Note.mb r ∈ c.notes
  found : c.mbNotify = false → c.mbChgReason = r ∧ c.changeMask.mbufset = true

/-- Whether a client has a multibuffer set before a step and after it, and the reason given. -/
structure MbTold where
  before : Bool
  after : Bool
  reason : Option MbReason

/-- The reason compares the start with the end: the first activation of a set is told as one, if a
reason is given at all, and no deactivation goes untold. -/
structure MbTold.Right (t : MbTold) : Prop where
  activation : t.reason = some .activation → t.before = false ∧ t.after = true
  activated : t.before = false → t.after = true → t.reason = none ∨ t.reason = some .activation
  deactivation : t.reason = some .deactivation ↔ t.before = true ∧ t.after = false
  replacement : t.reason = some .replacement → t.before = true ∧ t.after = true

/-- A step, with what the client is told. -/
def Sys.TellStep (σ : Sys) (l : Op × MbTold) (τ : Sys) : Prop :=
  σ.Step l.1 τ ∧ l.2 = ⟨σ.c.pMbs.isSome, τ.c.pMbs.isSome, σ.given l.1⟩

/-- The activations and deactivations that a client is told of. -/
def switches (ls : List (Op × MbTold)) : List MbReason :=
  (ls.filterMap (·.2.reason)).filter fun r => r = .activation || r = .deactivation

/-! ## What an update notices -/

/-- The multibuffer states that the passes of a loop look at, each with the memory for a set: those
with another count than the last. A window that is obsolete is not looked at. -/
def looks (last : Nat) (S : Shared) : List Pass → List (MbState × Alloc)
  | [] => []
  | p :: ps =>
    if S.wObsolete then []
    else
      (if differs last S.mb.mbufseq then [(S.mb, p.alloc)] else []) ++
        looks S.mb.mbufseq (S.changes p.changes) ps

/-- What an update of a buffer looks at before its loop. -/
def presyncLooks (c : Client) (m : MbState) (bufIndex : Int) (a : Alloc) : List (MbState × Alloc) :=
  if bufIndex ≠ -1 && differs c.cMbufseq m.mbufseq then [(m, a)] else []

/-- The composition changes among what an update looks at: whether there is a set after each. -/
def noticed (composseq : Nat) : List (MbState × Alloc) → List Bool
  | [] => []
  | (m, a) :: l =>
    if differs composseq m.compositionseq then
      (m.enabled && a.ok) :: noticed m.compositionseq l
    else noticed composseq l

/-- `prevWasMbuffered` is right for an update that notices these composition changes: with none, it
is right before the update; otherwise the client has a set before the last of them if and only if
it has one at the start. -/
def Client.FlagRight (c : Client) (news : List Bool) : Prop :=
  if news = [] then c.prevWasMbuffered = c.pMbs.isSome
  else (c.pMbs.isSome :: news).dropLast.getLast? = some c.pMbs.isSome

/-- An update that looks at a multibuffer change, and at which its drawable is the window or one of
the buffers, has the flag right. -/
def Sys.Tells (σ : Sys) : Op → Prop
  | .update dgaMTOn bufIndex u =>
    let before := presyncLooks σ.c σ.sh.mb bufIndex u.alloc
    let inLoop := looks (σ.c.record σ.sh.mb bufIndex u) σ.sh u.passes
    ¬σ.Early dgaMTOn bufIndex →
      (∃ l ∈ inLoop, bufIndex = -1 ∨ bufIndex < l.1.numberBuffers) →
      σ.c.FlagRight (noticed σ.c.cMbcomposseq (before ++ inLoop))
  | _ => True

end Dga.Phase
