import Mathlib.Data.List.Basic
import Mathlib.Logic.Function.Basic

/-!
# The first configuration of the outputs (`drm_fb_helper.c`, `drm_modes.c`, `drm_edid.c`)

`drm_setup_crtcs` gives every enabled connector a mode, searches the assignment of crtcs to
connectors of the highest score (`drm_pick_crtcs`) and writes it into the mode set of each crtc. It
runs once at start and again after every hotplug event. Arrays are functions of the index; a crtc is
its index in `crtc_info`, a connector its index in `connector_info`. What goes wrong in the kernel is
an error of the model (`SetupFault`).
-/

namespace Drm

/-! ## Modes -/

/-- `struct drm_display_mode` -/
structure DisplayMode where
  type : UInt32
  clock : Int
  hdisplay : Int
  hsyncStart : Int
  hsyncEnd : Int
  htotal : Int
  hskew : Int
  vdisplay : Int
  vsyncStart : Int
  vsyncEnd : Int
  vtotal : Int
  vscan : Int
  flags : UInt32
  vrefresh : Int
  deriving DecidableEq, Repr

/-- `DRM_MODE_TYPE_PREFERRED` -/
def modeTypePreferred : UInt32 := 8

/-- `DRM_MODE_TYPE_DRIVER` -/
def modeTypeDriver : UInt32 := 64

/-- `DRM_MODE_FLAG_INTERLACE` -/
def modeFlagInterlace : UInt32 := 16

/-- `KHZ2PICOS`: the division is one of `unsigned long`. -/
def khz2picos (a : Int) : Nat := 1000000000 / (a % 18446744073709551616).toNat

/-- `drm_mode_equal_no_clocks` -/
def modeEqualNoClocks (mode1 mode2 : DisplayMode) : Bool :=
  mode1.hdisplay = mode2.hdisplay ∧ mode1.hsyncStart = mode2.hsyncStart ∧
    mode1.hsyncEnd = mode2.hsyncEnd ∧ mode1.htotal = mode2.htotal ∧ mode1.hskew = mode2.hskew ∧
    mode1.vdisplay = mode2.vdisplay ∧ mode1.vsyncStart = mode2.vsyncStart ∧
    mode1.vsyncEnd = mode2.vsyncEnd ∧ mode1.vtotal = mode2.vtotal ∧ mode1.vscan = mode2.vscan ∧
    mode1.flags = mode2.flags

/-- `drm_mode_equal` -/
def modeEqual (mode1 mode2 : DisplayMode) : Bool :=
  if mode1.clock ≠ 0 ∧ mode2.clock ≠ 0 then
    if khz2picos mode1.clock ≠ khz2picos mode2.clock then false else modeEqualNoClocks mode1 mode2
  else if mode1.clock ≠ mode2.clock then false
  else modeEqualNoClocks mode1 mode2

/-- The entry of `drm_dmt_modes` for 1024x768 at 60 Hz; the flags are `DRM_MODE_FLAG_NHSYNC` and
`DRM_MODE_FLAG_NVSYNC`. -/
def dmtMode1024 : DisplayMode where
  type := modeTypeDriver
  clock := 65000
  hdisplay := 1024
  hsyncStart := 1048
  hsyncEnd := 1184
  htotal := 1344
  hskew := 0
  vdisplay := 768
  vsyncStart := 771
  vsyncEnd := 777
  vtotal := 806
  vscan := 0
  flags := 10
  vrefresh := 0

/-- `drm_mode_find_dmt` for this mode: a duplicate, if there is memory for one. -/
def modeFindDmt (mem : Bool) : Option DisplayMode := if mem then some dmtMode1024 else none

/-! ## The helper's connectors and crtcs -/

/-- What `drm_setup_crtcs` can run into: a `BUG_ON`, `drm_mode_equal` of a null pointer, and an
element past the end of the array `connectors` of a mode set. -/
inductive SetupFault where
  | bug
  | nullMode
  | overrun
  deriving DecidableEq, Repr

/-- `enum drm_connector_status` -/
inductive ConnectorStatus where
  | connected
  | disconnected
  | unknown
  deriving DecidableEq, Repr

/-- `struct drm_cmdline_mode` -/
structure CmdlineMode where
  specified : Bool
  refreshSpecified : Bool
  xres : Int
  yres : Int
  refresh : Int
  rb : Bool
  interlace : Bool
  margins : Bool
  deriving DecidableEq, Repr

/-- `struct drm_fb_helper_connector` with what the helper reads of its connector; `bestEncoder` is
`possible_crtcs` of the encoder that the hook of this name answers. -/
structure FbConnector where
  status : ConnectorStatus
  modes : List DisplayMode
  cmdlineMode : CmdlineMode
  bestEncoder : Option UInt32
  deriving DecidableEq, Repr

/-- `struct drm_fb_helper_crtc`; `mode` is the duplicate that the mode set owns, `connectors` the
first `num_connectors` elements of the array. -/
structure FbCrtc where
  desiredMode : Option DisplayMode := none
  mode : Option (Nat × DisplayMode) := none
  connectors : List Nat := []
  fb : Option Nat := none
  deriving DecidableEq, Repr

/-- `struct drm_fb_helper`; `numConnector` is `mode_config.num_connector`, `maxConnCount` the length
of the array `connectors` of each mode set. The duplicates of modes are numbered as they are made;
`dmtMade` are the ones of `drm_mode_find_dmt`, `destroyed` the ones given to `drm_mode_destroy`. -/
structure FbHelper where
  fb : Option Nat
  crtcCount : Nat
  maxConnCount : Nat
  crtcInfo : Nat → FbCrtc
  connectorCount : Nat
  connectorInfo : Nat → FbConnector
  numConnector : Nat
  made : Nat
  dmtMade : List Nat
  destroyed : List Nat

/-- An array of crtcs, one for each connector. -/
abbrev Crtcs := Nat → Option Nat

/-! ## Picking the crtcs -/

/-- `drm_has_preferred_mode` -/
def hasPreferredMode (conn : FbConnector) (width height : Int) : Option DisplayMode :=
  conn.modes.find? fun mode =>
    !(mode.hdisplay > width ∨ mode.vdisplay > height) && mode.type &&& modeTypePreferred != 0

/-- `drm_has_cmdline_mode` -/
def hasCmdlineMode (conn : FbConnector) : Bool := conn.cmdlineMode.specified

/-- `drm_pick_crtcs`: what an assigned connector counts. -/
def myScore (conn : FbConnector) (width height : Int) : Nat :=
  1 + (if conn.status = .connected then 1 else 0) + (if hasCmdlineMode conn then 1 else 0) +
    (if (hasPreferredMode conn width height).isSome then 1 else 0)

/-- `drm_pick_crtcs`: the first connector before `n` that has the crtc. -/
def firstUser (bestCrtcs : Crtcs) (n c : Nat) : Option Nat :=
  (List.range n).find? fun o => bestCrtcs o == some c

/-- `drm_pick_crtcs`: the tests on the crtc `c` in front of the assignment. -/
def crtcUsable (helper : FbHelper) (modes : Nat → Option DisplayMode) (possible : UInt32)
    (bestCrtcs : Crtcs) (n c : Nat) : Bool :=
  if possible.toNat.testBit c = false then false
  else
    match firstUser bestCrtcs n c with
    | none => true
    | some o =>
      if 1 < helper.crtcCount then false
      else
        match modes o, modes n with
        | some mode1, some mode2 => modeEqual mode1 mode2
        | _, _ => false

/-- The variables of the loop over the crtcs. -/
structure PickVars where
  bestScore : Nat
  bestCrtcs : Crtcs
  crtcs : Crtcs

/-- `drm_pick_crtcs`: one round of the loop; `next` is the call for the next connector. -/
def pickRound (helper : FbHelper) (modes : Nat → Option DisplayMode) (possible : UInt32)
    (my n : Nat) (next : Crtcs → Nat × Crtcs) (v : PickVars) (c : Nat) : PickVars :=
  if !crtcUsable helper modes possible v.bestCrtcs n c then v
  else
    let crtcs := Function.update v.crtcs n (some c)
    let crtcs : Crtcs := fun i => if i < n then v.bestCrtcs i else crtcs i
    let r := next crtcs
    let score := my + r.1
    if v.bestScore < score then
      { bestScore := score
        bestCrtcs := fun i => if i < helper.numConnector then r.2 i else v.bestCrtcs i
        crtcs := r.2 }
    else { v with crtcs := r.2 }

/-- `drm_pick_crtcs`: the score and `best_crtcs`; the connectors from `n` on are as many as the
first number. `kzalloc` says whether the allocation succeeds in the call with these crtcs given to
the connectors before `n`, which no two calls have in common. -/
def pickCrtcs (helper : FbHelper) (modes : Nat → Option DisplayMode)
    (kzalloc : List (Option Nat) → Bool) (width height : Int) :
    Nat → Nat → Crtcs → Nat × Crtcs
  | 0, _, bestCrtcs => (0, bestCrtcs)
  | k + 1, n, bestCrtcs =>
    let conn := helper.connectorInfo n
    let next := pickCrtcs helper modes kzalloc width height k (n + 1)
    let r := next (Function.update bestCrtcs n none)
    if (modes n).isNone then r
    else if !kzalloc ((List.range n).map bestCrtcs) then r
    else
      match conn.bestEncoder with
      | none => r
      | some possible =>
        let v := (List.range helper.crtcCount).foldl
          (pickRound helper modes possible (myScore conn width height) n next)
          { bestScore := r.1, bestCrtcs := r.2, crtcs := fun _ => none }
        (v.bestScore, v.bestCrtcs)

/-! ## The modes -/

/-- `drm_connector_enabled` -/
def connectorEnabled (conn : FbConnector) (strict : Bool) : Bool :=
  if strict then conn.status = .connected else conn.status ≠ .disconnected

/-- `drm_enable_connectors` -/
def enableConnectors (helper : FbHelper) : Nat → Bool :=
  let enabled := fun i => connectorEnabled (helper.connectorInfo i) true
  if (List.range helper.connectorCount).any enabled then enabled
  else fun i => connectorEnabled (helper.connectorInfo i) false

/-- `drm_pick_cmdline_mode`: the mode and the connector, to which a mode that had to be made is
added; `create` is `drm_mode_create_from_cmdline_mode`. -/
def pickCmdlineMode (create : CmdlineMode → Option DisplayMode) (conn : FbConnector) :
    Option DisplayMode × FbConnector :=
  let cmdline := conn.cmdlineMode
  if !cmdline.specified then (none, conn)
  else
    let found :=
      if cmdline.rb || cmdline.margins then none
      else conn.modes.find? fun mode =>
        !(mode.hdisplay != cmdline.xres || mode.vdisplay != cmdline.yres) &&
          !(cmdline.refreshSpecified && mode.vrefresh != cmdline.refresh) &&
          !(cmdline.interlace && mode.flags &&& modeFlagInterlace == 0)
    match found with
    | some mode => (some mode, conn)
    | none =>
      match create cmdline with
      | some mode => (some mode, { conn with modes := mode :: conn.modes })
      | none => (none, conn)

/-- The variables of the loops that choose modes; `dmt` says whether `drm_mode_find_dmt` has made a
duplicate. -/
structure TargetVars where
  connectorInfo : Nat → FbConnector
  modes : Nat → Option DisplayMode
  dmt : Bool

/-- `modes[i] = drm_pick_cmdline_mode(..)` -/
def TargetVars.pick (v : TargetVars) (create : CmdlineMode → Option DisplayMode) (i : Nat) :
    TargetVars :=
  let r := pickCmdlineMode create (v.connectorInfo i)
  { v with
    connectorInfo := Function.update v.connectorInfo i r.2
    modes := Function.update v.modes i r.1 }

/-- `drm_target_cloned`: the loop over the connectors `i`, `i + 1`, .. for the modes of the command
line, as many as the first number. -/
def cloneCmdline (create : CmdlineMode → Option DisplayMode) (enabled : Nat → Bool) :
    Nat → Nat → Bool → TargetVars → Bool × TargetVars
  | 0, _, canClone, v => (canClone, v)
  | k + 1, i, canClone, v =>
    if !enabled i then cloneCmdline create enabled k (i + 1) canClone v
    else
      let v := v.pick create i
      match v.modes i with
      | none => (false, v)
      | some mode =>
        let same := (List.range i).all fun j =>
          !enabled j || (v.modes j).any fun m => modeEqual m mode
        cloneCmdline create enabled k (i + 1) (canClone && same) v

/-- `drm_target_cloned`: the walk over the modes of a connector; the last mode that is equal
stays. -/
def findEqual (dmtMode : Option DisplayMode) (modes : List DisplayMode) (m : Option DisplayMode) :
    Except SetupFault (Option DisplayMode) :=
  match dmtMode, modes with
  | none, _ :: _ => .error .nullMode
  | none, [] => .ok m
  | some dmtMode, modes =>
    .ok (modes.foldl (fun m mode => if modeEqual mode dmtMode then some mode else m) m)

/-- `drm_target_cloned`: the round for connector `i` of the loop for 1024x768. -/
def cloneDmt (dmtMode : Option DisplayMode) (enabled : Nat → Bool) (r : Bool × TargetVars)
    (i : Nat) : Except SetupFault (Bool × TargetVars) :=
  if !enabled i then .ok r
  else
    (findEqual dmtMode (r.2.connectorInfo i).modes (r.2.modes i)).map fun found =>
      (r.1 && found.isSome, { r.2 with modes := Function.update r.2.modes i found })

/-- `drm_target_cloned`; `dmtMem` says whether there is memory for the duplicate of
`drm_mode_find_dmt`, which is not destroyed. -/
def targetCloned (helper : FbHelper) (create : CmdlineMode → Option DisplayMode)
    (dmtMem : Bool) (enabled : Nat → Bool) (v : TargetVars) :
    Except SetupFault (Bool × TargetVars) :=
  if 1 < helper.crtcCount then .ok (false, v)
  else if (List.range helper.connectorCount).countP enabled ≤ 1 then .ok (false, v)
  else
    let r := cloneCmdline create enabled helper.connectorCount 0 true v
    if r.1 then .ok r
    else (List.range helper.connectorCount).foldlM (cloneDmt (modeFindDmt dmtMem) enabled)
      (true, { r.2 with dmt := (modeFindDmt dmtMem).isSome })

/-- `drm_target_preferred`: the round for connector `i`. -/
def targetRound (create : CmdlineMode → Option DisplayMode) (enabled : Nat → Bool)
    (width height : Int) (v : TargetVars) (i : Nat) : TargetVars :=
  if !enabled i then v
  else
    let v := v.pick create i
    if (v.modes i).isSome then v
    else
      let mode := (hasPreferredMode (v.connectorInfo i) width height).or
        (v.connectorInfo i).modes.head?
      { v with modes := Function.update v.modes i mode }

/-- `drm_target_preferred` -/
def targetPreferred (helper : FbHelper) (create : CmdlineMode → Option DisplayMode)
    (enabled : Nat → Bool) (width height : Int) (v : TargetVars) : TargetVars :=
  (List.range helper.connectorCount).foldl (targetRound create enabled width height) v

/-! ## The mode sets -/

/-- Crtc `c` is given the value `x`. -/
def FbHelper.setCrtc (helper : FbHelper) (c : Nat) (x : FbCrtc) : FbHelper :=
  { helper with crtcInfo := Function.update helper.crtcInfo c x }

/-- `if (modeset->mode) drm_mode_destroy(dev, modeset->mode);` -/
def FbHelper.destroyMode (helper : FbHelper) (c : Nat) : FbHelper :=
  match (helper.crtcInfo c).mode with
  | some m => { helper with destroyed := m.1 :: helper.destroyed }
  | none => helper

/-- `drm_setup_crtcs`: the mode sets are emptied. -/
def resetCrtc (helper : FbHelper) (c : Nat) : FbHelper :=
  helper.setCrtc c { helper.crtcInfo c with connectors := [], fb := none }

/-- `drm_setup_crtcs`: the connector `i` goes into the mode set of its crtc; `dup` says whether
`drm_mode_duplicate` gets memory in this round. -/
def fillCrtc (modes : Nat → Option DisplayMode) (crtcs : Crtcs) (dup : Nat → Bool)
    (helper : FbHelper) (i : Nat) : Except SetupFault FbHelper :=
  match modes i, crtcs i with
  | some mode, some c =>
    let h := helper.destroyMode c
    let x := helper.crtcInfo c
    if helper.maxConnCount ≤ x.connectors.length then .error .overrun
    else
      let x := { x with
        desiredMode := some mode
        mode := if dup i then some (h.made, mode) else none
        connectors := x.connectors ++ [i]
        fb := helper.fb }
      .ok { h.setCrtc c x with made := if dup i then h.made + 1 else h.made }
  | _, _ => .ok helper

/-- `drm_setup_crtcs`: the old mode of a crtc without connectors. -/
def clearCrtc (helper : FbHelper) (c : Nat) : Except SetupFault FbHelper :=
  let x := helper.crtcInfo c
  if x.connectors.length ≠ 0 then .ok helper
  else if x.fb.isSome then .error .bug
  else .ok ((helper.destroyMode c).setCrtc c { x with mode := none })

/-- What `drm_setup_crtcs` gets from outside: the memory for its three arrays, for the arrays of
`drm_pick_crtcs` and for the duplicates of the mode sets and of `drm_mode_find_dmt`, and the modes
that are made for the command line. -/
structure SetupEnv where
  kcalloc : Bool
  kzalloc : List (Option Nat) → Bool
  dup : Nat → Bool
  dmtMem : Bool
  create : CmdlineMode → Option DisplayMode

/-- The variables before the first choice. -/
def targetStart (helper : FbHelper) : TargetVars where
  connectorInfo := helper.connectorInfo
  modes _ := none
  dmt := false

/-- `drm_setup_crtcs`: the modes of the connectors. -/
def setupModes (helper : FbHelper) (env : SetupEnv) (width height : Int) :
    Except SetupFault TargetVars :=
  let enabled := enableConnectors helper
  (targetCloned helper env.create env.dmtMem enabled (targetStart helper)).map fun r =>
    if r.1 then r.2 else targetPreferred helper env.create enabled width height r.2

/-- The helper behind the choice of the modes, with the modes that were added to the lists of the
connectors and the duplicate of `drm_mode_find_dmt`. -/
def FbHelper.chose (helper : FbHelper) (v : TargetVars) : FbHelper :=
  { helper with
    connectorInfo := v.connectorInfo
    made := if v.dmt then helper.made + 1 else helper.made
    dmtMade := if v.dmt then helper.made :: helper.dmtMade else helper.dmtMade }

/-- `drm_setup_crtcs` behind the choice of the modes. -/
def setupSets (helper : FbHelper) (modes : Nat → Option DisplayMode) (env : SetupEnv)
    (width height : Int) : Except SetupFault FbHelper :=
  let crtcs := (pickCrtcs helper modes env.kzalloc width height helper.connectorCount 0
    fun _ => none).2
  let helper := (List.range helper.crtcCount).foldl resetCrtc helper
  ((List.range helper.connectorCount).foldlM (fillCrtc modes crtcs env.dup) helper).bind
    fun helper => (List.range helper.crtcCount).foldlM clearCrtc helper

/-- `drm_setup_crtcs` of a driver without the hook `initial_config`. -/
def setupCrtcs (helper : FbHelper) (env : SetupEnv) (width height : Int) :
    Except SetupFault FbHelper :=
  if !env.kcalloc then .ok helper
  else
    (setupModes helper env width height).bind fun v =>
      setupSets (helper.chose v) v.modes env width height

/-- `drm_fb_helper_single_fb_probe`: after the driver has made the framebuffer. -/
def singleFbProbe (helper : FbHelper) (fb : Option Nat) : FbHelper :=
  let helper := { helper with fb := fb }
  (List.range helper.crtcCount).foldl
    (fun h c =>
      if (h.crtcInfo c).connectors.length ≠ 0 then
        h.setCrtc c { h.crtcInfo c with fb := h.fb }
      else h)
    helper

/-- What happens to the helper: the connectors are probed, `drm_setup_crtcs` runs, and the driver
answers `fb_probe`. -/
inductive FbOp where
  | probe (connectorInfo : Nat → FbConnector)
  | setup (env : SetupEnv) (width height : Int)
  | fbProbe (fb : Option Nat)

/-- One of them. -/
def FbHelper.step (helper : FbHelper) : FbOp → Except SetupFault FbHelper
  | .probe connectorInfo => .ok { helper with connectorInfo := connectorInfo }
  | .setup env width height => setupCrtcs helper env width height
  | .fbProbe fb => .ok (singleFbProbe helper fb)

/-- The helper as `drm_fb_helper_init` and `drm_fb_helper_single_add_all_connectors` make it. -/
def FbHelper.init (crtcCount maxConnCount numConnector : Nat)
    (connectorInfo : Nat → FbConnector) : FbHelper where
  fb := none
  crtcCount := crtcCount
  maxConnCount := maxConnCount
  crtcInfo := fun _ => {}
  connectorCount := numConnector
  connectorInfo := connectorInfo
  numConnector := numConnector
  made := 0
  dmtMade := []
  destroyed := []

/-- `drm_fb_helper_crtc_free` -/
def crtcFree (helper : FbHelper) : FbHelper :=
  (List.range helper.crtcCount).foldl FbHelper.destroyMode helper

end Drm
