import SolarisXorg.I915.Proof.ModesetConfig

/-!
# Runs of `intel_crtc_set_config` and `intel_connector_dpms`

Every run from a dark device stays at rest between its calls (`modesetRun_rest`), so each call ends
as `setConfig_end` says: it never pins wrongly, it follows a null pointer in one case
(`modesetRun_oops`), a refused call puts back all but the crtcs it has turned off
(`modesetRun_refused`), and one that succeeds shows what it was asked for (`modesetRun_accepted`).
-/

namespace I915.Modeset

open Lib
open Drm (DisplayMode modeEqual)

variable {cfg : Cfg} {s t : Outputs} {set : ModeSet cfg}

/-! ## At rest -/

theorem dark_rest (cfg : Cfg) (mode : DisplayMode) : Rest cfg (Outputs.dark mode) := by
  have hno (p : Nat) : ¬ Drives cfg (Outputs.dark mode).crtc p := by
    intro ⟨e, _, h⟩
    cases h
  have hlinked : Linked cfg (Outputs.dark mode).encoder (Outputs.dark mode).crtc := by
    refine ⟨?_, fun e _ => iff_of_false (by simp [Outputs.dark]) (by simp [Outputs.dark]), ?_⟩
    · intro c _ e h
      cases h
    · intro e _ p h
      cases h
  refine ⟨⟨hlinked, fun p _ => iff_of_false (by simp [Outputs.dark]) (hno p),
    fun p _ _ => ⟨rfl, rfl⟩, fun f => ?_, ?_⟩, fun _ _ => rfl, fun _ _ => rfl⟩
  · simp [Outputs.dark, holders]
  · intro e _ h
    cases h

/-- `intel_connector_dpms` switches only what is driven. -/
theorem connectorDpms_cases (cfg : Cfg) (s : Outputs) (c : Nat) (mode : Dpms) :
    ∃ dpms connectorsActive active,
      s.connectorDpms cfg c mode =
        { s with dpms := dpms, connectorsActive := connectorsActive, active := active } ∧
      (∀ e, connectorsActive e = true → s.connectorsActive e = true ∨ (s.crtc e).isSome = true) ∧
      ∀ q, active q = true → s.active q = true ∨ Drives cfg s.crtc q := by
  rw [Outputs.connectorDpms]
  generalize (if mode = .on then Dpms.on else Dpms.off) = mode
  dsimp only
  split
  next => exact ⟨s.dpms, s.connectorsActive, s.active, rfl, fun _ => .inl, fun _ => .inl⟩
  next =>
    cases hcrtc : s.crtc (cfg.attached c) with
    | none => exact ⟨_, s.connectorsActive, s.active, rfl, fun _ => .inl, fun _ => .inl⟩
    | some p =>
      refine ⟨_, _, _, rfl, fun e he => ?_, fun q hq => ?_⟩
      · by_cases hec : e = cfg.attached c
        · exact .inr (hec ▸ hcrtc ▸ rfl)
        · exact .inl ((Function.update_of_ne hec _ _).symm.trans he)
      · by_cases hqp : q = p
        · rw [hqp] at hq
          have hany := (Function.update_self p _ s.active).symm.trans hq
          obtain ⟨e, he, hon⟩ := List.any_eq_true.1 hany
          simp only [decide_eq_true_eq] at hon
          exact .inr (hqp ▸ ⟨e, he, hon.1⟩)
        · exact .inl ((Function.update_of_ne hqp _ _).symm.trans hq)

theorem connectorDpms_rest (h : Rest cfg s) (c : Nat) (mode : Dpms) :
    Rest cfg (s.connectorDpms cfg c mode) := by
  obtain ⟨dpms, connectorsActive, active, heq, hca, hactive⟩ := connectorDpms_cases cfg s c mode
  rw [heq]
  refine ⟨⟨h.inv.linked, h.inv.enabled, fun p hp hoff => ?_, h.inv.pinned, fun e he hon => ?_⟩,
    h.staged⟩
  · obtain ⟨hfb, hdark⟩ := h.inv.dark p hp hoff
    refine ⟨hfb, ?_⟩
    by_contra hon
    rcases hactive p (by simpa using hon) with hon | hdriven
    · rw [hdark] at hon
      cases hon
    · have hon := (h.inv.enabled p hp).2 hdriven
      change s.enabled p = false at hoff
      rw [hoff] at hon
      cases hon
  · exact (hca e hon).elim (h.inv.activeCrtc e he) id

/-- **Every run** is at rest between its calls. -/
theorem modesetRun_rest {mode : DisplayMode} {ls : List (Call cfg)}
    (h : Run (ModesetStep cfg) (Outputs.dark mode) ls s) : Rest cfg s := by
  refine h.inv (dark_rest cfg mode) fun t l u ht hstep => ?_
  cases l with
  | setConfig set ans =>
    obtain ⟨r, hr, hrestore, rfl⟩ := hstep
    exact setConfig_rest ht hr hrestore
  | dpms c mode =>
    obtain ⟨-, rfl⟩ := hstep
    exact connectorDpms_rest ht c mode

/-! ## Calls that do not return -/

/-- What the restoring mode set meets on the links from before. -/
theorem restore_oops_iff (h : Rest cfg s) {u : Outputs} {mode : DisplayMode} {x y : Int}
    {fb : Option Nat} {ans : SetModeAns} {r : Except Stop (Int × Outputs)}
    (hend : SetModeEnd cfg (Outputs.restoreState cfg u s) set.crtc (some mode) x y fb ans r) :
    r ≠ .error .bug ∧ (r = .error .oops ↔ s.enabled set.crtc = true ∧ fb = none ∧
      ans.alloc = true ∧ ans.configAlloc = true ∧ s.checkEncoderCloning cfg set.crtc = true) := by
  have hdrives := (restoreState_drives s u set.crtc).trans
    (h.inv.enabled _ set.crtc_lt).symm
  have hcloning := restoreState_cloning h u set.crtc
  cases hend with
  | refused ret hret hwhy =>
    refine ⟨by simp, iff_of_false (by simp) fun ⟨_, hfb, halloc, hconfig, hclone⟩ => ?_⟩
    rcases hwhy with hno | ⟨-, -, hsome⟩
    · rw [halloc] at hno
      cases hno
    · have hfb' := hsome (hcloning.trans hclone) hconfig
      rw [hfb] at hfb'
      cases hfb'
  | oops halloc hdriven hclone hconfig hnull =>
    refine ⟨by simp, iff_of_true rfl
      ⟨hdrives.1 hdriven, ?_, halloc, hconfig, hcloning.symm.trans hclone⟩⟩
    rcases hnull with hnull | hnull
    · cases hnull
    · exact hnull
  | off t halloc hset hdriven =>
    exact ⟨by simp, iff_of_false (by simp) fun ⟨hon, _⟩ => hdriven (hdrives.2 hon)⟩
  | lit t halloc hset hdriven hagrees hfb =>
    refine ⟨by simp, iff_of_false (by simp) fun ⟨_, hnone, _⟩ => ?_⟩
    rw [hnone] at hfb
    cases hfb.1
  | failed t ret hret halloc hset hdriven hagrees hfb =>
    refine ⟨by simp, iff_of_false (by simp) fun ⟨_, hnone, _⟩ => ?_⟩
    rw [hnone] at hfb
    cases hfb.1

/-- **What a call can crash on.** In every state of every run the object of a framebuffer is pinned
once for each crtc that shows it, so no call unpins one that is not pinned. A call follows a null
pointer exactly when it is refused while its crtc is enabled without a framebuffer, and the old mode
is set again. -/
theorem modesetRun_oops {mode : DisplayMode} {ls : List (Call cfg)}
    (h : Run (ModesetStep cfg) (Outputs.dark mode) ls s) (set : ModeSet cfg) (ans : ConfigAns) :
    (∀ f, s.pins f = holders s.fb (List.range cfg.numPipes) f) ∧
      s.intelCrtcSetConfig set ans ≠ .error .bug ∧
      (s.intelCrtcSetConfig set ans = .error .oops ↔ ans.alloc = true ∧
        (∃ ret changed t, s.attempt set ans.first = .ok (ret, changed, t) ∧ ret ≠ 0) ∧
        s.enabled set.crtc = true ∧ s.fb set.crtc = none ∧ ans.restore.alloc = true ∧
        ans.restore.configAlloc = true ∧ s.checkEncoderCloning cfg set.crtc = true) := by
  have hrest := modesetRun_rest h
  refine ⟨hrest.inv.pinned, ?_⟩
  have hend := setConfig_end hrest set ans
  generalize hr : s.intelCrtcSetConfig set ans = r at hend
  cases hend with
  | noMemory halloc =>
    refine ⟨by simp, iff_of_false (by simp) fun ⟨hyes, _⟩ => ?_⟩
    rw [halloc] at hyes
    cases hyes
  | accepted changed u hattempt =>
    refine ⟨by simp, iff_of_false (by simp) fun ⟨_, ⟨ret, changed', t, hattempt', hret⟩, _⟩ => ?_⟩
    rw [hattempt] at hattempt'
    cases hattempt'
    exact hret rfl
  | kept ret newEncoder newCrtc hret hdark =>
    refine ⟨by simp, iff_of_false (by simp) fun ⟨_, _, hon, hnone, _⟩ => ?_⟩
    have hsome := hdark hon
    rw [hnone] at hsome
    cases hsome
  | tried ret u hret halloc hattempt hend e hmode =>
    obtain ⟨hbug, hoops⟩ := restore_oops_iff hrest hmode
    cases e with
    | ok e =>
      refine ⟨by simp [Except.map], iff_of_false (by simp [Except.map]) ?_⟩
      intro ⟨_, _, hon, hfb, h⟩
      cases hoops.2 ⟨hon, hfb, h⟩
    | error stop =>
      have hstop : stop = .oops := by
        cases stop with
        | bug => exact absurd rfl hbug
        | oops => rfl
      subst hstop
      obtain ⟨hon, hfb, hrestore⟩ := hoops.1 rfl
      exact ⟨by simp [Except.map], iff_of_true rfl
        ⟨halloc, ⟨ret, true, u, hattempt, hret⟩, hon, hfb, hrestore⟩⟩

/-! Two screens, and a crtc that takes the screen of the other. -/

def screensCfg : Cfg where
  connectors := [0, 1]
  encoders := [0, 1]
  numPipes := 2
  attached := id
  possibleCrtcs := fun _ => 3
  cloneable := fun _ => false
  pixelFormat := fun _ => 0
  attached_mem := by decide

def screensMode : DisplayMode := ⟨0, 65000, 1024, 1048, 1184, 1344, 768, 771, 777, 806, 0, 0, 0, 60⟩

/-- A request for the first screen -/
def firstScreen (p : Fin 2) (f : Nat) : ModeSet screensCfg where
  crtc := p
  mode := some screensMode
  x := 0
  y := 0
  fb := some f
  connectors := [0]
  crtc_lt := p.isLt
  mode_of_fb := fun _ => rfl
  fb_iff := by simp
  connectors_mem := by decide

/-- The mode set succeeds. -/
def setOk : SetModeAns := ⟨true, true, some screensMode, 0, 0, 0⟩

/-- The run of the calls, while they return and restore. -/
def modesetRunOf (cfg : Cfg) (mode : DisplayMode) (ls : List (Call cfg)) : Option Outputs :=
  ls.foldlM (fun s l => match l with
    | .setConfig set ans =>
      match s.intelCrtcSetConfig set ans with
      | .ok r => if r.restore = 0 then some r.state else none
      | .error _ => none
    | .dpms c mode => if c ∈ cfg.connectors then some (s.connectorDpms cfg c mode) else none)
    (Outputs.dark mode)

theorem modesetRunOf_run {mode : DisplayMode} (ls : List (Call cfg))
    (h : modesetRunOf cfg mode ls = some s) :
    Run (ModesetStep cfg) (Outputs.dark mode) ls s := by
  refine Run.of_foldlM (fun s l s' hs => ?_) h
  cases l with
  | setConfig set ans =>
    cases hr : s.intelCrtcSetConfig set ans with
    | ok r =>
      simp only [hr] at hs
      split at hs
      next hrestore => exact ⟨r, hr, hrestore, Option.some.inj hs⟩
      next => cases hs
    | error e =>
      simp only [hr] at hs
      cases hs
  | dpms c mode =>
    dsimp only at hs
    split at hs
    next hc => exact ⟨hc, Option.some.inj hs⟩
    next => cases hs

/-- A call, from what it returns. -/
theorem exists_result {ans : ConfigAns} {ret restore : Int}
    (h : (s.intelCrtcSetConfig set ans).map (fun r => (r.ret, r.restore)) = .ok (ret, restore)) :
    ∃ r, s.intelCrtcSetConfig set ans = .ok r ∧ r.ret = ret ∧ r.restore = restore := by
  cases hr : s.intelCrtcSetConfig set ans with
  | ok r =>
    rw [hr] at h
    cases h
    exact ⟨r, rfl, rfl, rfl⟩
  | error e =>
    rw [hr] at h
    cases h

/-- Crtc 0 shows framebuffer 1. -/
def litCalls : List (Call screensCfg) := [.setConfig (firstScreen 0 1) ⟨true, setOk, setOk⟩]

def litState : Outputs :=
  (modesetRunOf screensCfg screensMode litCalls).getD (Outputs.dark screensMode)

/-- The hook of the mode set fails. -/
def hookFails : ConfigAns := ⟨true, { setOk with modeSet := -EINVAL }, setOk⟩

/-- Crtc 1 asks for the screen of crtc 0. -/
def stolenCalls : List (Call screensCfg) := litCalls ++ [.setConfig (firstScreen 1 2) hookFails]

/-- The screen is with crtc 0 again, which shows nothing. -/
def stolenState : Outputs :=
  (modesetRunOf screensCfg screensMode stolenCalls).getD (Outputs.dark screensMode)

theorem modesetRun_oops_stolen :
    stolenState.intelCrtcSetConfig (firstScreen 0 1)
      ⟨true, { setOk with configAlloc := false }, setOk⟩ = .error .oops :=
  (modesetRun_oops (modesetRunOf_run stolenCalls rfl) (firstScreen 0 1) _).2.2.2
    ⟨rfl, ⟨-EINVAL, true, _, rfl, by decide⟩, rfl, rfl, rfl, rfl, rfl⟩

/-! ## What the other crtcs show -/

/-- The crtcs other than `p` show in `t` what they showed in `s`, but for the ones that are lost,
which show nothing. -/
structure Others (cfg : Cfg) (s : Outputs) (p : Nat) (lost : Nat → Prop) (t : Outputs) : Prop where
  gone : ∀ q < cfg.numPipes, q ≠ p → lost q → t.fb q = none ∧ t.active q = false
  kept : ∀ q < cfg.numPipes, q ≠ p → ¬ lost q → t.fb q = s.fb q ∧ t.active q = s.active q
  mode : ∀ q < cfg.numPipes, q ≠ p → t.mode q = s.mode q ∧ t.x q = s.x q ∧ t.y q = s.y q

theorem SetTo.others {p : Nat} {newEncoder newCrtc : Nat → Option Nat}
    (h : SetTo cfg { s with newEncoder := newEncoder, newCrtc := newCrtc } p t) {lost : Nat → Prop}
    (hlost : ∀ q < cfg.numPipes, q ≠ p →
      (TurnsOff cfg { s with newEncoder := newEncoder, newCrtc := newCrtc } q ↔ lost q)) :
    Others cfg s p lost t := by
  refine ⟨fun q hq hne hl => ?_, fun q hq hne hl => ?_, fun q hq hne => ?_⟩
  all_goals obtain ⟨hfb, hactive, hmode, -, hx, hy⟩ := h.other q hq hne
  · have hoff := (hlost q hq hne).2 hl
    exact ⟨hfb.trans (if_pos hoff), hactive.trans (if_pos hoff)⟩
  · have hon := mt (hlost q hq hne).1 hl
    exact ⟨hfb.trans (if_neg hon), hactive.trans (if_neg hon)⟩
  · exact ⟨hmode, hx, hy⟩

/-- A mode set that turns no other crtc off. -/
theorem Others.trans {p : Nat} {lost lost' : Nat → Prop} {u : Outputs} (h : Others cfg s p lost t)
    (h' : Others cfg t p lost' u) (hno : ∀ q < cfg.numPipes, q ≠ p → ¬ lost' q) :
    Others cfg s p lost u := by
  refine ⟨fun q hq hne hl => ?_, fun q hq hne hl => ?_, fun q hq hne => ?_⟩
  · obtain ⟨hfb, hactive⟩ := h'.kept q hq hne (hno q hq hne)
    exact ⟨hfb.trans (h.gone q hq hne hl).1, hactive.trans (h.gone q hq hne hl).2⟩
  · obtain ⟨hfb, hactive⟩ := h'.kept q hq hne (hno q hq hne)
    exact ⟨hfb.trans (h.kept q hq hne hl).1, hactive.trans (h.kept q hq hne hl).2⟩
  · obtain ⟨hmode, hx, hy⟩ := h'.mode q hq hne
    obtain ⟨hmode', hx', hy'⟩ := h.mode q hq hne
    exact ⟨hmode.trans hmode', hx.trans hx', hy.trans hy'⟩

/-- A state in which the crtcs show the same. -/
theorem Others.of_same {p : Nat} {lost : Nat → Prop} (hfb : t.fb = s.fb)
    (hactive : t.active = s.active) (hmode : t.mode = s.mode) (hx : t.x = s.x) (hy : t.y = s.y)
    (hno : ∀ q < cfg.numPipes, q ≠ p → ¬ lost q) : Others cfg s p lost t := by
  refine ⟨fun q hq hne hl => absurd hl (hno q hq hne), fun q _ _ _ => ?_, fun q _ _ => ?_⟩
  · rw [hfb, hactive]
    exact ⟨rfl, rfl⟩
  · rw [hmode, hx, hy]
    exact ⟨rfl, rfl, rfl⟩

/-- What the attempt turns off is what the request takes. -/
theorem StagedFor.turnsOff (h : StagedFor s set t) (henabled : t.enabled = s.enabled) (q : Nat) :
    TurnsOff cfg t q ↔ Lost s set q := by
  rw [TurnsOff, Lost, henabled, h.drives q]

/-! ## Calls that are refused -/

/-- The crtc of the call shows what it showed. -/
structure SameSelf (s : Outputs) (p : Nat) (t : Outputs) : Prop where
  fb : t.fb p = s.fb p
  mode : t.mode p = s.mode p
  x : t.x p = s.x p
  y : t.y p = s.y p

/-- A refused attempt leaves what its crtc shows, and turns off what the request takes. -/
theorem AttemptEnd.refused_others {ans : SetModeAns} {ret : Int} {changed : Bool} {u : Outputs}
    (hret : ret ≠ 0) (hend : AttemptEnd s set ans (.ok (ret, changed, u))) :
    SameSelf s set.crtc u ∧
      Others cfg s set.crtc (fun q => Proceeds s set ans ∧ Lost s set q) u := by
  cases hend with
  | refused _ _ newEncoder newCrtc _ _ hstop =>
    exact ⟨⟨rfl, rfl, rfl, rfl⟩,
      .of_same rfl rfl rfl rfl rfl fun q hq _ h => hstop h.1 q hq h.2⟩
  | failed _ newEncoder newCrtc _ _ hproceeds hfor hset hfb hmode hx hy =>
    exact ⟨⟨hfb, hmode, hx, hy⟩, hset.others fun q _ _ =>
      (hfor.turnsOff rfl q).trans (and_iff_right hproceeds).symm⟩
  | set => exact absurd rfl hret
  | moved => exact absurd rfl hret

/-- The old mode shows what the crtc showed. -/
theorem restore_self (h : Rest cfg s) {u : Outputs} (hself : SameSelf s set.crtc u)
    {ans : SetModeAns} (hend : SetModeEnd cfg (Outputs.restoreState cfg u s) set.crtc
      (some (u.mode set.crtc)) (s.x set.crtc) (s.y set.crtc) (s.fb set.crtc) ans (.ok (0, t))) :
    SameSelf s set.crtc t ∧ (s.active set.crtc = true → t.active set.crtc = true) := by
  cases hend with
  | refused _ hne => exact absurd rfl hne
  | off _ _ _ hdriven hfb _ hmode hx hy =>
    -- the crtc was off before the call
    have hundriven := mt (restoreState_drives s u set.crtc).2 hdriven
    have hoff := mt (h.inv.enabled _ set.crtc_lt).1 hundriven
    obtain ⟨hdark, hinactive⟩ := h.inv.dark _ set.crtc_lt (by simpa using hoff)
    refine ⟨⟨hfb.trans hdark.symm, hmode.trans hself.mode, hx.trans hself.x, hy.trans hself.y⟩,
      fun hon => ?_⟩
    rw [hinactive] at hon
    cases hon
  | lit _ _ _ _ _ hfb hon hmode hx hy =>
    exact ⟨⟨hfb.2, (Option.some.inj hmode).symm.trans hself.mode, hx, hy⟩, fun _ => hon⟩
  | failed _ _ hne => exact absurd rfl hne

/-- **What a refused call puts back**, when the old mode can be set again: every link, which crtcs
are enabled, and what its own crtc shows. It does not light the crtcs again that the attempt has
turned off because the request took their connectors. -/
theorem modesetRun_refused {mode : DisplayMode} {ls : List (Call cfg)}
    (h : Run (ModesetStep cfg) (Outputs.dark mode) ls s) {ans : ConfigAns}
    {r : Outputs.ConfigResult} (hr : s.intelCrtcSetConfig set ans = .ok r) (hret : r.ret ≠ 0)
    (hrestore : r.restore = 0) :
    (∀ c ∈ cfg.connectors, r.state.encoder c = s.encoder c) ∧
      (∀ e ∈ cfg.encoders, r.state.crtc e = s.crtc e) ∧
      (∀ q < cfg.numPipes, r.state.enabled q = s.enabled q) ∧ SameSelf s set.crtc r.state ∧
      (s.active set.crtc = true → r.state.active set.crtc = true) ∧
      Others cfg s set.crtc (fun q => ans.alloc = true ∧ Proceeds s set ans.first ∧ Lost s set q)
        r.state := by
  have hrest := modesetRun_rest h
  have hend := setConfig_end hrest set ans
  rw [hr] at hend
  generalize hres : (Except.ok r : Except Stop Outputs.ConfigResult) = res at hend
  cases hend with
  | noMemory halloc =>
    cases hres
    refine ⟨fun _ _ => rfl, fun _ _ => rfl, fun _ _ => rfl, ⟨rfl, rfl, rfl, rfl⟩, id,
      .of_same rfl rfl rfl rfl rfl fun q _ _ hno => ?_⟩
    rw [halloc] at hno
    cases hno.1
  | accepted =>
    cases hres
    exact absurd rfl hret
  | kept ret newEncoder newCrtc _ hdark hstop =>
    cases hres
    exact ⟨fun _ _ => rfl, fun _ _ => rfl, fun _ _ => rfl, ⟨rfl, rfl, rfl, rfl⟩, id,
      .of_same rfl rfl rfl rfl rfl fun q hq _ hlost => hstop hlost.2.1 q hq hlost.2.2⟩
  | tried ret u hret halloc hattempt hattemptEnd e hmode =>
    cases e with
    | error _ => cases hres
    | ok e =>
      obtain ⟨restore, t⟩ := e
      cases hres
      change restore = 0 at hrestore
      subst hrestore
      have hset := hmode.setTo
      obtain ⟨hinv, hkeep⟩ := hattemptEnd.refused_state hrest hret
      obtain ⟨hself, hothers⟩ := hattemptEnd.refused_others hret
      have hlinks : ∀ e ∈ cfg.encoders, t.crtc e = s.crtc e := fun e he =>
        (hset.crtc e he).trans (restoreState_newCrtc he)
      have hdrives (q : Nat) : Drives cfg t.crtc q ↔ Drives cfg s.crtc q :=
        (hset.drives q).trans (restoreState_drives s u q)
      have henabled : ∀ q < cfg.numPipes, t.enabled q = s.enabled q := by
        intro q hq
        rw [Bool.eq_iff_iff, hset.inv.enabled q hq, hrest.inv.enabled q hq, hdrives q]
      -- no crtc has more encoders after the attempt than before it
      have hno : ∀ q < cfg.numPipes, q ≠ set.crtc →
          ¬ TurnsOff cfg (Outputs.restoreState cfg u s) q := by
        intro q hq hne ⟨hon, hundriven⟩
        obtain ⟨e, he, heq⟩ := (hinv.enabled q hq).1 hon
        exact hundriven ((restoreState_drives s u q).2 ⟨e, he, hkeep e he q hne heq⟩)
      have hothers' : Others cfg s set.crtc
          (fun q => ans.alloc = true ∧ Proceeds s set ans.first ∧ Lost s set q) t := by
        simp only [halloc, true_and]
        exact hothers.trans (SetTo.others (s := u) hset fun _ _ _ => Iff.rfl) hno
      obtain ⟨hself', hactive⟩ := restore_self hrest hself hmode
      exact ⟨fun c hc => (hset.encoder c hc).trans (restoreState_newEncoder hc), hlinks, henabled,
        hself', hactive, hothers'⟩

/-- A call that stages its links and meets no obstacle before it turns pipes off. -/
theorem proceeds_of_staged {ans : SetModeAns}
    (h : (s.stageOutputState set).map (fun r => (r.1, r.2.2.checkEncoderCloning cfg set.crtc)) =
      .ok (0, true))
    (halloc : ans.alloc = true) (hconfig : ans.configAlloc = true)
    (hadjusted : ans.adjusted.isSome = true) : Proceeds s set ans := by
  cases hr : s.stageOutputState set with
  | ok r =>
    obtain ⟨ret, changed, u⟩ := r
    rw [hr] at h
    obtain ⟨hret, hcloning⟩ := Prod.mk.inj (Except.ok.inj h)
    dsimp only at hret
    subst hret
    exact ⟨changed, u, hr, halloc, hcloning, hconfig, hadjusted⟩
  | error e =>
    rw [hr] at h
    cases h

/-- Crtc 0 has its screen again and shows nothing. -/
theorem modesetRun_refused_stolen :
    ∃ r, litState.intelCrtcSetConfig (firstScreen 1 2) hookFails = .ok r ∧ r.ret = -EINVAL ∧
      r.state.crtc 0 = some 0 ∧ r.state.enabled 0 = true ∧ r.state.fb 0 = none := by
  obtain ⟨r, hr, hret, hrestore⟩ :=
    @exists_result screensCfg litState (firstScreen 1 2) hookFails (-EINVAL) 0 rfl
  have hne : r.ret ≠ 0 := by
    rw [hret]
    decide
  obtain ⟨-, hcrtc, henabled, -, -, hothers⟩ :=
    modesetRun_refused (modesetRunOf_run litCalls (s := litState) rfl) hr hne hrestore
  have hproceeds : Proceeds litState (firstScreen 1 2) hookFails.first :=
    proceeds_of_staged rfl rfl rfl rfl
  have hlost : Lost litState (firstScreen 1 2) 0 := ⟨rfl, by decide⟩
  exact ⟨r, hr, hret, hcrtc 0 (by decide), henabled 0 (by decide),
    (hothers.gone 0 (by decide) (by decide) ⟨rfl, hproceeds, hlost⟩).1⟩

/-! ## Calls that succeed -/

/-- **What a call shows that succeeds.** The connectors it names use their encoders and lose the
ones they had, an encoder gets the crtc of its last user, and a crtc that loses all its encoders
shows nothing. A named connector stays off the crtc when a later one that is not named uses its
encoder. -/
theorem modesetRun_accepted {mode : DisplayMode} {ls : List (Call cfg)}
    (h : Run (ModesetStep cfg) (Outputs.dark mode) ls s) {ans : ConfigAns}
    {r : Outputs.ConfigResult} (hr : s.intelCrtcSetConfig set ans = .ok r) (hret : r.ret = 0) :
    (∀ c ∈ cfg.connectors, r.state.encoder c =
        if c ∈ set.connectors then some (cfg.attached c)
        else if s.crtcOf c = some set.crtc then none else s.encoder c) ∧
      (∀ e ∈ cfg.encoders, r.state.crtc e = s.stagedCrtc set e) ∧
      (∀ c ∈ set.connectors, r.state.crtcOf c = some set.crtc ↔
        ∃ d ∈ set.connectors, s.lastUser set (cfg.attached c) = some d) ∧
      Shown s set r.state ∧ Others cfg s set.crtc (Lost s set) r.state := by
  have hrest := modesetRun_rest h
  obtain ⟨changed, u, rfl, hend⟩ : ∃ changed u, r = ⟨0, 0, u⟩ ∧
      AttemptEnd s set ans.first (.ok (0, changed, u)) := by
    have hend := setConfig_end hrest set ans
    rw [hr] at hend
    generalize hres : (Except.ok r : Except Stop Outputs.ConfigResult) = res at hend
    cases hend with
    | noMemory =>
      cases hres
      exact absurd hret (by simp [ENOMEM])
    | accepted changed u _ hend =>
      cases hres
      exact ⟨changed, u, rfl, hend⟩
    | kept ret _ _ hne =>
      cases hres
      exact absurd hret hne
    | tried ret u hne _ _ _ e =>
      cases e with
      | error _ => cases hres
      | ok _ =>
        cases hres
        exact absurd hret hne
  have hlinks : (∀ c ∈ cfg.connectors, u.encoder c = s.stagedEncoder set c) ∧
      (∀ e ∈ cfg.encoders, u.crtc e = s.stagedCrtc set e) ∧ Shown s set u ∧
      Others cfg s set.crtc (Lost s set) u := by
    cases hend with
    | refused _ _ _ _ hne => exact absurd rfl hne
    | failed _ _ _ _ hne => exact absurd rfl hne
    | set newEncoder newCrtc _ hfor hset hshown =>
      exact ⟨fun c hc => (hset.encoder c hc).trans (hfor.encoder c hc),
        fun e he => (hset.crtc e he).trans (hfor.crtc e he), hshown,
        hset.others fun q _ _ => hfor.turnsOff rfl q⟩
    | moved newEncoder newCrtc fb x y pins hfor hsame hfb hx hy hpins hshown =>
      have hno := not_lost_of_staged hrest hfor hsame rfl
      exact ⟨fun c hc => (hsame.1 c hc).symm.trans (hfor.encoder c hc),
        fun e he => (hsame.2 e he).symm.trans (hfor.crtc e he), hshown,
        fun q hq _ hlost => absurd hlost (hno q hq), fun q _ hne _ => ⟨hfb q hne, rfl⟩,
        fun q _ hne => ⟨rfl, hx q hne, hy q hne⟩⟩
  obtain ⟨hencoder, hcrtc, hshown, hothers⟩ := hlinks
  refine ⟨fun c hc => ?_, hcrtc, fun c hc => ?_, hshown, hothers⟩
  · refine (hencoder c hc).trans ?_
    by_cases hmem : c ∈ set.connectors
    · rw [stagedEncoder_of_mem hmem, if_pos hmem]
    · rw [stagedEncoder_of_notMem hmem, if_neg hmem, hrest.staged.1 c hc]
  · have hmem := set.connectors_mem c hc
    have hcrtcOf : u.crtcOf c = s.stagedCrtc set (cfg.attached c) := by
      rw [Outputs.crtcOf, hencoder c hmem, stagedEncoder_of_mem hc, Option.bind_some,
        hcrtc _ (cfg.attached_mem c hmem)]
    rw [hcrtcOf, Outputs.stagedCrtc]
    cases hlast : s.lastUser set (cfg.attached c) with
    | none => exact absurd (stagedEncoder_of_mem hc) (lastUser_eq_none.1 hlast c hmem)
    | some d =>
      dsimp only
      by_cases hd : d ∈ set.connectors
      · rw [if_pos hd]
        exact iff_of_true rfl ⟨d, hd, rfl⟩
      · obtain ⟨hdc, hstaged⟩ := lastUser_mem hlast
        obtain ⟨p, hp, hne⟩ := exists_crtc_of_notMem hrest.inv.linked hrest.staged hdc hd hstaged
        rw [if_neg hd, hp]
        refine iff_of_false (fun h => hne (Option.some.inj h)) fun h => hd ?_
        obtain ⟨d', hd', heq⟩ := h
        exact Option.some.inj heq ▸ hd'

/-- The call that lights the first screen -/
theorem modesetRun_accepted_lit :
    ∃ r, (Outputs.dark screensMode).intelCrtcSetConfig (firstScreen 0 1) ⟨true, setOk, setOk⟩ =
      .ok r ∧ r.state.crtcOf 0 = some 0 ∧ r.state.fb 0 = some 1 := by
  obtain ⟨r, hr, hret, -⟩ := @exists_result screensCfg (Outputs.dark screensMode) (firstScreen 0 1)
    ⟨true, setOk, setOk⟩ 0 0 rfl
  obtain ⟨-, -, hcrtc, hshown, -⟩ := modesetRun_accepted .nil hr hret
  exact ⟨r, hr, (hcrtc 0 (by decide)).2 ⟨0, by decide, by decide⟩, (hshown.1 (by decide)).1⟩

end I915.Modeset
