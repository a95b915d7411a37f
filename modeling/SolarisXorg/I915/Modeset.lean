import SolarisXorg.Drm.FbHelper
import SolarisXorg.Lib.Run

/-!
# Mode setting (`intel_display.c`)

A connector shows what its encoder is sent, an encoder what its crtc scans out. A call of
`intel_crtc_set_config` stages new links (`intel_modeset_stage_output_state`), computes which pipes
they affect, turns these off, commits the links and sets the mode. When a step fails it stages the
links from before and sets the old mode again. What the hooks of the hardware and the allocations
answer is a parameter; a crtc is its pipe, which is also its place in the list of crtcs.
-/

namespace I915.Modeset

open Drm (DisplayMode modeEqual)

/-- `DRM_MODE_DPMS_ON` and the other states -/
inductive Dpms
  | on
  | standby
  | suspend
  | off
  deriving DecidableEq, Repr

/-- `ENOMEM` -/
def ENOMEM : Int := 12

/-- `EINVAL` -/
def EINVAL : Int := 22

/-- The outputs of a device. `attached` is the encoder of an `intel_connector`, which never
changes. -/
structure Cfg where
  connectors : List Nat
  encoders : List Nat
  numPipes : Nat
  attached : Nat → Nat
  possibleCrtcs : Nat → Nat
  cloneable : Nat → Bool
  pixelFormat : Nat → Nat
  attached_mem : ∀ c ∈ connectors, attached c ∈ encoders

/-- What the driver tracks: of each connector its encoder, the staged one and the `dpms` property;
of each encoder its crtc, the staged one and `connectors_active`; of each crtc what it shows; of
each framebuffer how often its object is pinned for a crtc. -/
structure Outputs where
  encoder : Nat → Option Nat
  newEncoder : Nat → Option Nat
  dpms : Nat → Dpms
  crtc : Nat → Option Nat
  newCrtc : Nat → Option Nat
  connectorsActive : Nat → Bool
  enabled : Nat → Bool
  active : Nat → Bool
  fb : Nat → Option Nat
  mode : Nat → DisplayMode
  hwmode : Nat → DisplayMode
  x : Nat → Int
  y : Nat → Int
  pins : Nat → Nat

/-- `struct drm_mode_set`, as `BUG_ON` and `WARN_ON` of the callee want it. -/
structure ModeSet (cfg : Cfg) where
  crtc : Nat
  mode : Option DisplayMode
  x : Int
  y : Int
  fb : Option Nat
  connectors : List Nat
  crtc_lt : crtc < cfg.numPipes
  mode_of_fb : fb.isSome → mode.isSome
  fb_iff : fb.isSome ↔ connectors ≠ []
  connectors_mem : ∀ c ∈ connectors, c ∈ cfg.connectors

/-- Why a call does not return. -/
inductive Stop
  /-- `BUG_ON` -/
  | bug
  /-- a null pointer is followed -/
  | oops
  deriving DecidableEq, Repr

/-- What a mode set meets: its allocations, the pipe configuration that the encoders and the crtc
agree on, the hook `crtc_mode_set` before it sets the base, and the two that can fail in
`intel_pipe_set_base`. -/
structure SetModeAns where
  alloc : Bool
  configAlloc : Bool
  adjusted : Option DisplayMode
  modeSet : Int
  pin : Int
  updatePlane : Int

/-- What a call of `intel_crtc_set_config` meets: its allocations, the mode set that was asked for
and the one that restores. -/
structure ConfigAns where
  alloc : Bool
  first : SetModeAns
  restore : SetModeAns

/-- Masks of pipes. -/
abbrev Pipes := Nat → Bool

namespace Outputs

variable (cfg : Cfg) (s : Outputs)

/-! ## Crtcs -/

/-- `connector->encoder->crtc`, if there is one -/
def crtcOf (c : Nat) : Option Nat := (s.encoder c).bind s.crtc

/-- `intel_pin_and_fence_fb_obj` that succeeds -/
def pin (f : Nat) : Outputs := { s with pins := Function.update s.pins f (s.pins f + 1) }

/-- `intel_unpin_fb_obj` -/
def unpin (f : Nat) : Except Stop Outputs :=
  if s.pins f = 0 then .error .bug
  else .ok { s with pins := Function.update s.pins f (s.pins f - 1) }

/-- `intel_pipe_set_base` -/
def pipeSetBase (p : Nat) (x y : Int) (fb : Option Nat) (ans : SetModeAns) :
    Except Stop (Int × Outputs) :=
  match fb with
  | none => .ok (0, s)
  | some f =>
    if ans.pin ≠ 0 then .ok (ans.pin, s)
    else if ans.updatePlane ≠ 0 then do
      let s ← (s.pin f).unpin f
      .ok (ans.updatePlane, s)
    else do
      let oldFb := s.fb p
      let s := { s.pin f with
        fb := Function.update s.fb p (some f)
        x := Function.update s.x p x
        y := Function.update s.y p y }
      match oldFb with
      | none => .ok (0, s)
      | some g => do
        let s ← s.unpin g
        .ok (0, s)

/-- `intel_crtc_mode_set`: every hook `crtc_mode_set` ends with `intel_pipe_set_base`. -/
def crtcModeSet (p : Nat) (x y : Int) (fb : Option Nat) (ans : SetModeAns) :
    Except Stop (Int × Outputs) :=
  if ans.modeSet ≠ 0 then .ok (ans.modeSet, s) else s.pipeSetBase p x y fb ans

/-- `intel_crtc_disable` -/
def intelCrtcDisable (p : Nat) : Except Stop Outputs := do
  let s := { s with active := Function.update s.active p false }
  let s ← match s.fb p with
    | none => .ok s
    | some f => do
      let s ← s.unpin f
      .ok { s with fb := Function.update s.fb p none }
  .ok { s with
    dpms := fun c => if c ∈ cfg.connectors ∧ s.crtcOf c = some p then .off else s.dpms c
    connectorsActive := fun e =>
      if s.crtc e = some p ∧ ∃ c ∈ cfg.connectors, s.encoder c = some e then false
      else s.connectorsActive e }

/-! ## Masks -/

/-- The pipe of `encoder->crtc`, which must not be null. -/
def pipeOf (crtc : Nat → Option Nat) : Option Nat → Except Stop (List Nat)
  | none => .ok []
  | some e =>
    match crtc e with
    | none => .error .oops
    | some p => .ok [p]

/-- The pipes that a connector which changes its encoder affects. -/
def connectorPipes (c : Nat) : Except Stop (List Nat) :=
  if s.encoder c = s.newEncoder c then .ok []
  else do
    let old ← pipeOf s.crtc (s.encoder c)
    let new ← pipeOf s.newCrtc (s.newEncoder c)
    .ok (old ++ new)

/-- The pipes that an encoder which changes its crtc affects. -/
def encoderPipes (e : Nat) : List Nat :=
  if s.crtc e = s.newCrtc e then [] else (s.crtc e).toList ++ (s.newCrtc e).toList

/-- The masks of `intel_modeset_affected_pipes` -/
structure Affected where
  modeset : Pipes
  prepare : Pipes
  disable : Pipes

/-- `intel_modeset_affected_pipes`. The last line of the source keeps only the pipe of the crtc that
the call is for. -/
def affectedPipes (crtc : Nat) : Except Stop Affected := do
  let changed ← cfg.connectors.mapM s.connectorPipes
  let prepare : Pipes := fun p =>
    p ∈ changed.flatten ∨ p ∈ cfg.encoders.flatMap s.encoderPipes ∨
      (p = crtc ∧ s.enabled crtc = true)
  let disable : Pipes := fun p =>
    p < cfg.numPipes ∧ s.enabled p = true ∧ ¬ ∃ e ∈ cfg.encoders, s.newCrtc e = some p
  let masked : Pipes := fun p => prepare p && !disable p && p == crtc
  .ok ⟨masked, masked, disable⟩

/-! ## Setting a mode -/

/-- `check_encoder_cloning` -/
def checkEncoderCloning (crtc : Nat) : Bool :=
  let on := cfg.encoders.filter fun e => s.newCrtc e = some crtc
  !(1 < on.length && on.any fun e => !cfg.cloneable e)

/-- `intel_modeset_pipe_config`, which copies the mode and looks at the format of the
framebuffer. -/
def pipeConfig (crtc : Nat) (fb : Option Nat) (mode : Option DisplayMode) (ans : SetModeAns) :
    Except Stop (Option DisplayMode) :=
  if s.checkEncoderCloning cfg crtc && ans.configAlloc then
    if mode.isSome ∧ fb.isSome then .ok ans.adjusted else .error .oops
  else .ok none

/-- `intel_modeset_commit_output_state` -/
def commitOutputState : Outputs :=
  { s with
    encoder := fun c => if c ∈ cfg.connectors then s.newEncoder c else s.encoder c
    crtc := fun e => if e ∈ cfg.encoders then s.newCrtc e else s.crtc e }

/-- `intel_crtc_in_use` -/
def crtcInUse (p : Nat) : Bool := cfg.encoders.any fun e => s.crtc e = some p

/-- `encoder->crtc` is one of the pipes. -/
def onPipes (pipes : Pipes) (e : Nat) : Bool := (s.crtc e).any pipes

/-- `intel_modeset_update_state` -/
def updateState (prepare : Pipes) : Outputs :=
  let s := { s with
    connectorsActive := fun e =>
      if e ∈ cfg.encoders ∧ s.onPipes prepare e then false else s.connectorsActive e }
  let s := s.commitOutputState cfg
  { s with
    enabled := fun p => if p < cfg.numPipes then s.crtcInUse cfg p else s.enabled p
    dpms := fun c =>
      if c ∈ cfg.connectors ∧ (s.crtcOf c).any prepare then .on else s.dpms c
    connectorsActive := fun e =>
      if s.onPipes prepare e ∧ ∃ c ∈ cfg.connectors, s.encoder c = some e then true
      else s.connectorsActive e }

/-- The crtcs of a mask, in order. -/
def masked (pipes : Pipes) : List Nat := (List.range cfg.numPipes).filter pipes

/-- The loop over `modeset_pipes` with `intel_crtc_mode_set`. -/
def modeSetLoop (x y : Int) (fb : Option Nat) (ans : SetModeAns) :
    Outputs → List Nat → Except Stop (Int × Outputs)
  | s, [] => .ok (0, s)
  | s, p :: ps => do
    let (ret, s) ← s.crtcModeSet p x y fb ans
    if ret ≠ 0 then .ok (ret, s) else modeSetLoop x y fb ans s ps

/-- `__intel_set_mode` after that loop: the crtcs of `prepare_pipes` are enabled, or, at `done`, the
modes of the crtc are put back. -/
def afterModeSet (crtc : Nat) (savedMode savedHwmode : DisplayMode) (prepare : Pipes)
    (new : Option (DisplayMode × DisplayMode)) (ret : Int) : Outputs :=
  if ret ≠ 0 then
    if s.enabled crtc then
      { s with
        mode := Function.update s.mode crtc savedMode
        hwmode := Function.update s.hwmode crtc savedHwmode }
    else s
  else
    let s := { s with active := fun p => if p ∈ masked cfg prepare then true else s.active p }
    match new with
    | none => s
    | some (_, adjusted) => { s with hwmode := Function.update s.hwmode crtc adjusted }

/-- The part of `__intel_set_mode` that changes the outputs. `new` is the mode with the adjusted
one, if there is a pipe in `modeset`. -/
def program (crtc : Nat) (pipes : Affected) (new : Option (DisplayMode × DisplayMode)) (x y : Int)
    (fb : Option Nat) (ans : SetModeAns) : Except Stop (Int × Outputs) := do
  let savedMode := s.mode crtc
  let savedHwmode := s.hwmode crtc
  let s ← (masked cfg pipes.disable).foldlM (intelCrtcDisable cfg) s
  let s := { s with
    active := fun p => if p ∈ masked cfg pipes.prepare ∧ s.enabled p then false else s.active p
    mode := match new with
      | none => s.mode
      | some (mode, _) => Function.update s.mode crtc mode }
  let (ret, s) ← modeSetLoop x y fb ans (s.updateState cfg pipes.prepare)
    (masked cfg pipes.modeset)
  .ok (ret, s.afterModeSet cfg crtc savedMode savedHwmode pipes.prepare new ret)

/-- `intel_set_mode` -/
def setMode (crtc : Nat) (mode : Option DisplayMode) (x y : Int) (fb : Option Nat)
    (ans : SetModeAns) : Except Stop (Int × Outputs) :=
  if ans.alloc then do
    let pipes ← s.affectedPipes cfg crtc
    if masked cfg pipes.modeset = [] then s.program cfg crtc pipes none x y fb ans
    else
      match ← s.pipeConfig cfg crtc fb mode ans, mode with
      | some adjusted, some mode => s.program cfg crtc pipes (some (mode, adjusted)) x y fb ans
      | _, _ => .ok (-EINVAL, s)
  else .ok (-ENOMEM, s)

end Outputs

/-! ## `intel_crtc_set_config` -/

namespace Outputs

variable {cfg : Cfg} (s : Outputs) (set : ModeSet cfg)

/-- `is_crtc_connector_off` -/
def isCrtcConnectorOff : Bool :=
  set.connectors.any fun c => s.crtcOf c = some set.crtc ∧ s.dpms c ≠ .on

/-- The tests of `intel_set_config_compute_mode_changes` on the framebuffer:
`mode_changed` and `fb_changed` -/
def computeFbChanges : Bool × Bool :=
  if s.isCrtcConnectorOff set then (true, false)
  else if s.fb set.crtc = set.fb then (false, false)
  else
    match s.fb set.crtc, set.fb with
    | some f, some g =>
      if cfg.pixelFormat g ≠ cfg.pixelFormat f then (true, false) else (false, true)
    | _, _ => (true, false)

/-- `intel_set_config_compute_mode_changes`: `mode_changed` and `fb_changed` -/
def computeModeChanges : Bool × Bool :=
  let (modeChanged, fbChanged) := s.computeFbChanges set
  let moved := set.fb.isSome && (set.x ≠ s.x set.crtc || set.y ≠ s.y set.crtc)
  let other := set.mode.any fun mode => !modeEqual mode (s.mode set.crtc)
  (modeChanged || other, fbChanged || moved)

/-- The encoder that `intel_modeset_stage_output_state` stages for a connector. -/
def stagedEncoder (c : Nat) : Option Nat :=
  let new := if c ∈ set.connectors then some (cfg.attached c) else s.newEncoder c
  if (set.fb = none ∨ c ∉ set.connectors) ∧ s.crtcOf c = some set.crtc then none else new

/-- The loop of `intel_modeset_stage_output_state` over the crtcs of enabled connectors. -/
def stageCrtcs : Outputs → List Nat → Except Stop (Int × Outputs)
  | s, [] => .ok (0, s)
  | s, c :: cs =>
    match s.newEncoder c with
    | none => stageCrtcs s cs
    | some e =>
      match if c ∈ set.connectors then some set.crtc else s.crtc e with
      | none => .error .oops
      | some p =>
        if (cfg.possibleCrtcs e).testBit p then
          stageCrtcs { s with newCrtc := Function.update s.newCrtc (cfg.attached c) (some p) } cs
        else .ok (-EINVAL, s)

/-- `intel_modeset_stage_output_state`: the return value, and whether it sets `mode_changed`. -/
def stageOutputState : Except Stop (Int × Bool × Outputs) := do
  let s := { s with
    newEncoder := fun c => if c ∈ cfg.connectors then s.stagedEncoder set c else s.newEncoder c }
  let changed := cfg.connectors.any fun c => s.newEncoder c ≠ s.encoder c
  let (ret, s) ← stageCrtcs set s cfg.connectors
  if ret ≠ 0 then .ok (ret, changed, s)
  else
    let s := { s with
      newCrtc := fun e =>
        if e ∈ cfg.encoders ∧ ¬ ∃ c ∈ cfg.connectors, s.newEncoder c = some e then none
        else s.newCrtc e }
    .ok (0, changed || cfg.encoders.any (fun e => s.newCrtc e ≠ s.crtc e), s)

/-- `intel_crtc_set_config` as far as `if (ret)`: the return value and `mode_changed`. -/
def attempt (ans : SetModeAns) : Except Stop (Int × Bool × Outputs) := do
  let (modeChanged, fbChanged) := s.computeModeChanges set
  let (ret, staged, s) ← s.stageOutputState set
  let modeChanged := modeChanged || staged
  if ret ≠ 0 then .ok (ret, modeChanged, s)
  else if modeChanged then
    let (ret, s) ← s.setMode cfg set.crtc set.mode set.x set.y set.fb ans
    .ok (ret, modeChanged, s)
  else if fbChanged then
    let (ret, s) ← s.pipeSetBase set.crtc set.x set.y set.fb ans
    .ok (ret, modeChanged, s)
  else .ok (0, modeChanged, s)

/-- `intel_set_config_restore_state`, with the links of `saved` -/
def restoreState (cfg : Cfg) (s saved : Outputs) : Outputs :=
  { s with
    newCrtc := fun e => if e ∈ cfg.encoders then saved.crtc e else s.newCrtc e
    newEncoder := fun c => if c ∈ cfg.connectors then saved.encoder c else s.newEncoder c }

/-- What `intel_crtc_set_config` returns, and what the mode set that restores does; 0 if there is
none. -/
structure ConfigResult where
  ret : Int
  restore : Int
  state : Outputs

/-- `intel_crtc_set_config` -/
def intelCrtcSetConfig (ans : ConfigAns) : Except Stop ConfigResult :=
  if ans.alloc then do
    let (ret, modeChanged, t) ← s.attempt set ans.first
    if ret ≠ 0 then
      let t := restoreState cfg t s
      if modeChanged then
        let (restore, t) ← t.setMode cfg set.crtc (some (t.mode set.crtc)) (s.x set.crtc)
          (s.y set.crtc) (s.fb set.crtc) ans.restore
        .ok ⟨ret, restore, t⟩
      else .ok ⟨ret, 0, t⟩
    else .ok ⟨0, 0, t⟩
  else .ok ⟨-ENOMEM, 0, s⟩

end Outputs

/-! ## `intel_connector_dpms` -/

namespace Outputs

variable (cfg : Cfg) (s : Outputs)

/-- `intel_crtc_update_dpms` -/
def crtcUpdateDpms (p : Nat) : Outputs :=
  { s with
    active := Function.update s.active p
      (cfg.encoders.any fun e => s.crtc e = some p ∧ s.connectorsActive e) }

/-- `intel_encoder_dpms` of an encoder with a crtc -/
def encoderDpms (e p : Nat) (mode : Dpms) : Outputs :=
  let s := { s with connectorsActive := Function.update s.connectorsActive e (mode == Dpms.on) }
  s.crtcUpdateDpms cfg p

/-- `intel_connector_dpms` -/
def connectorDpms (c : Nat) (mode : Dpms) : Outputs :=
  let mode : Dpms := if mode = .on then .on else .off
  if mode = s.dpms c then s
  else
    let s := { s with dpms := Function.update s.dpms c mode }
    match s.crtc (cfg.attached c) with
    | none => s
    | some p => s.encoderDpms cfg (cfg.attached c) p mode

end Outputs

/-! ## `intel_modeset_check_state` -/

namespace Outputs

variable (cfg : Cfg) (s : Outputs)

/-- `check_connector_state`, without `intel_connector_check_state`, which asks the hardware -/
def checkConnectorState : Bool := cfg.connectors.all fun c => s.newEncoder c = s.encoder c

/-- `check_encoder_state`, without what `get_hw_state` answers -/
def checkEncoderState : Bool :=
  cfg.encoders.all fun e =>
    let on := cfg.connectors.filter fun c => s.encoder c = some e
    let enabled := !on.isEmpty
    let active := on.any fun c => s.dpms c ≠ .off
    s.newCrtc e = s.crtc e ∧ !(s.connectorsActive e && (s.crtc e).isNone) ∧
      (s.crtc e).isSome = enabled ∧ !(active && (s.crtc e).isNone) ∧ s.connectorsActive e = active

/-- `check_crtc_state`, without what `get_pipe_config` answers -/
def checkCrtcState : Bool :=
  (List.range cfg.numPipes).all fun p =>
    let on := cfg.encoders.filter fun e => s.crtc e = some p
    let enabled := !on.isEmpty
    let active := on.any s.connectorsActive
    !(s.active p && !s.enabled p) ∧ active = s.active p ∧ enabled = s.enabled p

/-- The tests of `intel_modeset_check_state` on links and flags: the staged links are the current
ones, and the enabled and active flags are those that the links give. What it compares with the
hardware, and all of `check_shared_dpll_state`, is not here. -/
def checkState : Bool :=
  s.checkConnectorState cfg && s.checkEncoderState cfg && s.checkCrtcState cfg

/-- Nothing is shown. -/
def dark (mode : DisplayMode) : Outputs where
  encoder := fun _ => none
  newEncoder := fun _ => none
  dpms := fun _ => .off
  crtc := fun _ => none
  newCrtc := fun _ => none
  connectorsActive := fun _ => false
  enabled := fun _ => false
  active := fun _ => false
  fb := fun _ => none
  mode := fun _ => mode
  hwmode := fun _ => mode
  x := fun _ => 0
  y := fun _ => 0
  pins := fun _ => 0

end Outputs

/-! ## Runs -/

/-- A call, with what it meets. -/
inductive Call (cfg : Cfg)
  | setConfig (set : ModeSet cfg) (ans : ConfigAns)
  | dpms (c : Nat) (mode : Dpms)

/-- A call that returns without `failed to restore config after modeset failure`. -/
def ModesetStep (cfg : Cfg) (s : Outputs) : Call cfg → Outputs → Prop
  | .setConfig set ans, s' =>
    ∃ r, s.intelCrtcSetConfig set ans = .ok r ∧ r.restore = 0 ∧ r.state = s'
  | .dpms c mode, s' => c ∈ cfg.connectors ∧ s.connectorDpms cfg c mode = s'

end I915.Modeset
