import SolarisXorg.I915.Proof.ModesetSet

/-!
# `intel_crtc_set_config`

Between two calls the staged links are the links and the crtcs fit them (`Rest`). A call that stages
its links and sets its mode ends in such a state, and so does one that is refused and restores
(`setConfig_end`, `setConfig_rest`).
-/

namespace I915.Modeset

open Lib
open Drm (DisplayMode modeEqual)

/-- Between two calls. -/
structure Rest (cfg : Cfg) (s : Outputs) : Prop where
  inv : Inv cfg s
  staged : Staged cfg s

variable {cfg : Cfg} {s t : Outputs} {set : ModeSet cfg} {p : Nat}

/-! ## The staged state -/

theorem Inv.staged (h : Inv cfg s) (newEncoder newCrtc : Nat → Option Nat) :
    Inv cfg { s with newEncoder := newEncoder, newCrtc := newCrtc } :=
  ⟨h.linked, h.enabled, h.dark, h.pinned, h.activeCrtc⟩

/-- An encoder of another crtc keeps a user. -/
theorem stagedCrtc_keeps (h : Rest cfg s) {e q : Nat} (he : e ∈ cfg.encoders)
    (hq : q ≠ set.crtc) (heq : s.crtc e = some q) : (s.stagedCrtc set e).isSome = true := by
  refine (stagedCrtc_isSome h.inv.linked h.staged e).2 ?_
  obtain ⟨c, hc, hce⟩ := (h.inv.linked.used e he).1 (by rw [heq]; rfl)
  refine ⟨c, hc, ?_⟩
  by_cases hmem : c ∈ set.connectors
  · rw [stagedEncoder_of_mem hmem, h.inv.linked.attached c hc e hce]
  · have hne : s.crtcOf c ≠ some set.crtc := by
      rw [Outputs.crtcOf, hce, Option.bind_some, heq]
      simpa using hq
    rw [stagedEncoder_of_notMem hmem, if_neg hne, h.staged.1 c hc, hce]

/-- Without a framebuffer nothing is staged on the crtc. -/
theorem not_drives_of_no_fb (h : Rest cfg s) (hfb : set.fb = none) :
    ¬ Drives cfg (s.stagedCrtc set) set.crtc := by
  intro ⟨e, he, heq⟩
  rw [Outputs.stagedCrtc] at heq
  cases hlast : s.lastUser set e with
  | none =>
    rw [hlast] at heq
    cases heq
  | some c =>
    obtain ⟨hc, hce⟩ := lastUser_mem hlast
    have hmem := not_mem_of_no_fb hfb c
    obtain ⟨p, hp, hne⟩ := exists_crtc_of_notMem h.inv.linked h.staged hc hmem hce
    rw [hlast] at heq
    simp only [if_neg hmem] at heq
    rw [heq] at hp
    exact hne (Option.some.inj hp).symm

theorem StagedFor.drives (h : StagedFor s set t) (q : Nat) :
    Drives cfg t.newCrtc q ↔ Drives cfg (s.stagedCrtc set) q := by
  constructor
  · intro ⟨e, he, hq⟩
    exact ⟨e, he, (h.crtc e he).symm.trans hq⟩
  · intro ⟨e, he, hq⟩
    exact ⟨e, he, (h.crtc e he).trans hq⟩

/-- If staging changes no link then the links are the ones that were asked for. -/
theorem StagedFor.drives_of_staged (h : StagedFor s set t) (hsame : Staged cfg t)
    (hcrtc : t.crtc = s.crtc) (q : Nat) :
    Drives cfg (s.stagedCrtc set) q ↔ Drives cfg s.crtc q := by
  rw [← h.drives q]
  constructor
  · intro ⟨e, he, hq⟩
    exact ⟨e, he, by rw [← hcrtc, ← hsame.2 e he, hq]⟩
  · intro ⟨e, he, hq⟩
    exact ⟨e, he, by rw [hsame.2 e he, hcrtc, hq]⟩

/-! ## The attempt -/

/-- The call stages its links, and its mode set gets as far as turning pipes off. -/
def Proceeds (s : Outputs) (set : ModeSet cfg) (ans : SetModeAns) : Prop :=
  ∃ changed t, s.stageOutputState set = .ok (0, changed, t) ∧ ans.alloc = true ∧
    Agrees cfg t set.crtc ans

/-- The links that the call asks for, and none of them drives an enabled crtc. -/
def Lost (s : Outputs) (set : ModeSet cfg) (q : Nat) : Prop :=
  s.enabled q = true ∧ ¬ Drives cfg (s.stagedCrtc set) q

/-- What the crtc shows when the call succeeds. -/
def Shown (s : Outputs) (set : ModeSet cfg) (u : Outputs) : Prop :=
  (Drives cfg (s.stagedCrtc set) set.crtc →
    u.fb set.crtc = set.fb ∧ u.x set.crtc = set.x ∧ u.y set.crtc = set.y ∧
      ∃ mode, set.mode = some mode ∧ modeEqual mode (u.mode set.crtc) = true) ∧
    (¬ Drives cfg (s.stagedCrtc set) set.crtc → u.fb set.crtc = none)

/-- How the call ends before it restores. -/
inductive AttemptEnd (s : Outputs) (set : ModeSet cfg) (ans : SetModeAns) :
    Except Stop (Int × Bool × Outputs) → Prop
  /-- refused, with only staged links changed -/
  | refused (ret : Int) (changed : Bool) (newEncoder newCrtc : Nat → Option Nat) (hret : ret ≠ 0)
      (hdark : changed = false → s.enabled set.crtc = true → (s.fb set.crtc).isSome = true)
      (hstop : Proceeds s set ans → ∀ q < cfg.numPipes, ¬ Lost s set q) :
      AttemptEnd s set ans
        (.ok (ret, changed, { s with newEncoder := newEncoder, newCrtc := newCrtc }))
  /-- the mode was not set -/
  | failed (ret : Int) (newEncoder newCrtc : Nat → Option Nat) (u : Outputs) (hret : ret ≠ 0)
      (hproceeds : Proceeds s set ans)
      (hfor : StagedFor s set { s with newEncoder := newEncoder, newCrtc := newCrtc })
      (hset : SetTo cfg { s with newEncoder := newEncoder, newCrtc := newCrtc } set.crtc u)
      (hfb : u.fb set.crtc = s.fb set.crtc) (hmode : u.mode set.crtc = s.mode set.crtc)
      (hx : u.x set.crtc = s.x set.crtc) (hy : u.y set.crtc = s.y set.crtc)
      (hactive : u.active set.crtc = false) (hdriven : Drives cfg (s.stagedCrtc set) set.crtc) :
      AttemptEnd s set ans (.ok (ret, true, u))
  /-- the links and the mode are set -/
  | set (newEncoder newCrtc : Nat → Option Nat) (u : Outputs)
      (hfor : StagedFor s set { s with newEncoder := newEncoder, newCrtc := newCrtc })
      (hset : SetTo cfg { s with newEncoder := newEncoder, newCrtc := newCrtc } set.crtc u)
      (hshown : Shown s set u)
      (hactive : u.active set.crtc = true ↔ Drives cfg (s.stagedCrtc set) set.crtc) :
      AttemptEnd s set ans (.ok (0, true, u))
  /-- there were no other links to set, and the crtc may show another framebuffer -/
  | moved (newEncoder newCrtc fb : Nat → Option Nat) (x y : Nat → Int) (pins : Nat → Nat)
      (hfor : StagedFor s set { s with newEncoder := newEncoder, newCrtc := newCrtc })
      (hsame : Staged cfg { s with newEncoder := newEncoder, newCrtc := newCrtc })
      (hfb : ∀ q, q ≠ set.crtc → fb q = s.fb q) (hx : ∀ q, q ≠ set.crtc → x q = s.x q)
      (hy : ∀ q, q ≠ set.crtc → y q = s.y q)
      (hpins : ∀ f, pins f = holders fb (List.range cfg.numPipes) f)
      (hshown : Shown s set { s with
        newEncoder := newEncoder, newCrtc := newCrtc, fb := fb, x := x, y := y, pins := pins }) :
      AttemptEnd s set ans (.ok (0, false, { s with
        newEncoder := newEncoder, newCrtc := newCrtc, fb := fb, x := x, y := y, pins := pins }))

theorem attempt_eq {ret : Int} {changed : Bool}
    (h : s.stageOutputState set = .ok (ret, changed, t)) (ans : SetModeAns) :
    s.attempt set ans =
      if ret ≠ 0 then .ok (ret, (s.computeModeChanges set).1 || changed, t)
      else if (s.computeModeChanges set).1 || changed then
        (t.setMode cfg set.crtc set.mode set.x set.y set.fb ans).bind fun (ret, u) =>
          .ok (ret, (s.computeModeChanges set).1 || changed, u)
      else if (s.computeModeChanges set).2 then
        (t.pipeSetBase set.crtc set.x set.y set.fb ans).bind fun (ret, u) =>
          .ok (ret, (s.computeModeChanges set).1 || changed, u)
      else .ok (0, (s.computeModeChanges set).1 || changed, t) := by
  rw [Outputs.attempt, h]
  rfl

/-- A crtc that shows nothing needs its mode to be set. -/
theorem modeChanged_of_dark {f : Nat} (hdark : s.fb set.crtc = none) (hfb : set.fb = some f) :
    (s.computeModeChanges set).1 = true := by
  have h : (s.computeFbChanges set).1 = true := by
    rw [Outputs.computeFbChanges, hdark, hfb]
    by_cases hoff : s.isCrtcConnectorOff set = true
    · rw [if_pos hoff]
    · rw [if_neg hoff, if_neg (by simp)]
  rw [Outputs.computeModeChanges]
  simp only [h, Bool.true_or]

/-- When no mode needs to be set. -/
theorem modeChanged_eq_false (h : (s.computeModeChanges set).1 = false) :
    (∀ mode, set.mode = some mode → modeEqual mode (s.mode set.crtc) = true) ∧
      ((s.computeModeChanges set).2 = false →
        s.fb set.crtc = set.fb ∧
          (set.fb.isSome = true → set.x = s.x set.crtc ∧ set.y = s.y set.crtc)) ∧
      ((s.computeModeChanges set).2 = true →
        set.fb.isSome = true ∧ (s.fb set.crtc).isSome = true) := by
  rw [Outputs.computeModeChanges] at h ⊢
  simp only [Bool.or_eq_false_iff] at h
  obtain ⟨hfb, hmode⟩ := h
  refine ⟨fun mode hsome => ?_, ?_⟩
  · rw [hsome, Option.any_some] at hmode
    simpa using hmode
  rw [Outputs.computeFbChanges] at hfb ⊢
  by_cases hoff : s.isCrtcConnectorOff set = true
  · rw [if_pos hoff] at hfb
    cases hfb
  rw [if_neg hoff] at hfb ⊢
  by_cases hsame : s.fb set.crtc = set.fb
  · rw [if_pos hsame]
    refine ⟨fun h => ⟨hsame, fun hsome => ?_⟩, fun h => ?_⟩
    · rw [hsome] at h
      simpa using h
    · simp only [Bool.false_or, Bool.and_eq_true] at h
      exact ⟨h.1, hsame ▸ h.1⟩
  · rw [if_neg hsame] at hfb ⊢
    cases hold : s.fb set.crtc with
    | none =>
      rw [hold] at hfb
      cases hfb
    | some f =>
      cases hnew : set.fb with
      | none =>
        rw [hold, hnew] at hfb
        cases hfb
      | some g =>
        rw [hold, hnew] at hfb
        dsimp only at hfb ⊢
        split at hfb
        next => cases hfb
        next hformat =>
          rw [if_neg hformat]
          exact ⟨fun h => by simp at h, fun _ => ⟨rfl, rfl⟩⟩

/-- The links of a state in which nothing is staged -/
theorem not_lost_of_staged (h : Rest cfg s) (hfor : StagedFor s set t) (hsame : Staged cfg t)
    (hcrtc : t.crtc = s.crtc) : ∀ q < cfg.numPipes, ¬ Lost s set q := by
  intro q hq ⟨hon, hno⟩
  exact hno ((hfor.drives_of_staged hsame hcrtc q).2 ((h.inv.enabled q hq).1 hon))

/-- The links or the mode are other ones than before. -/
theorem attempt_changed (h : Rest cfg s) {changed : Bool} {newEncoder newCrtc : Nat → Option Nat}
    (hstage : s.stageOutputState set =
      .ok (0, changed, { s with newEncoder := newEncoder, newCrtc := newCrtc }))
    (hfor : StagedFor s set { s with newEncoder := newEncoder, newCrtc := newCrtc })
    (hmode : ((s.computeModeChanges set).1 || changed) = true) (ans : SetModeAns) :
    AttemptEnd s set ans (s.attempt set ans) := by
  rw [attempt_eq hstage, if_neg (by simp), if_pos hmode, hmode]
  have hlinked := hfor.linked h.inv.linked h.staged
  have hdrives := hfor.drives set.crtc
  have hkeep : ∀ e ∈ cfg.encoders, ∀ q, q ≠ set.crtc → s.crtc e = some q →
      (newCrtc e).isSome = true := by
    intro e he q hq heq
    have hnew : newCrtc e = s.stagedCrtc set e := hfor.crtc e he
    rw [hnew]
    exact stagedCrtc_keeps h he hq heq
  have hend := setMode_end (h.inv.staged newEncoder newCrtc) hlinked hkeep set.crtc_lt set.mode
    set.x set.y set.fb ans
  generalize hr : Outputs.setMode cfg { s with newEncoder := newEncoder, newCrtc := newCrtc }
    set.crtc set.mode set.x set.y set.fb ans = r at hend
  have hstop (hwhy : ans.alloc = false ∨
      ¬ Agrees cfg { s with newEncoder := newEncoder, newCrtc := newCrtc } set.crtc ans) :
      ¬ Proceeds s set ans := by
    intro ⟨changed', t', hstage', halloc, hagrees⟩
    rw [hstage] at hstage'
    cases hstage'
    rcases hwhy with hno | hno
    · rw [halloc] at hno
      cases hno
    · exact hno hagrees
  cases hend with
  | refused ret hret hwhy =>
    exact .refused ret true newEncoder newCrtc hret (fun h => by cases h)
      fun hproceeds => absurd hproceeds (hstop (hwhy.imp_right fun h => h.2.1))
  | oops halloc hdriven hcloning hconfig hnull =>
    -- a request with a framebuffer has a mode, and one without drives nothing
    exfalso
    rcases hnull with hnull | hnull
    · have hfb : set.fb = none := by
        by_contra hsome
        have hmode' := set.mode_of_fb (Option.isSome_iff_ne_none.2 hsome)
        rw [hnull] at hmode'
        cases hmode'
      exact not_drives_of_no_fb h hfb (hdrives.1 hdriven)
    · exact not_drives_of_no_fb h hnull (hdrives.1 hdriven)
  | off t halloc hset hdriven hfb hactive hmodep hx hy =>
    refine .set newEncoder newCrtc t hfor hset ⟨fun h => absurd (hdrives.2 h) hdriven,
      fun _ => hfb⟩ ?_
    rw [hactive]
    exact iff_of_false (by simp) fun h => hdriven (hdrives.2 h)
  | lit t halloc hset hdriven hagrees hfb hactive hmodep hx hy =>
    refine .set newEncoder newCrtc t hfor hset ⟨fun _ => ⟨hfb.2, hx, hy, _, hmodep, ?_⟩,
      fun h => absurd (hdrives.1 hdriven) h⟩ (iff_of_true hactive (hdrives.1 hdriven))
    simp [modeEqual, Drm.modeEqualNoClocks]
  | failed t ret hret halloc hset hdriven hagrees hfb hactive hmodep hx hy =>
    exact .failed ret newEncoder newCrtc t hret ⟨changed, _, hstage, halloc, hagrees⟩ hfor hset
      hfb.2 hmodep hx hy hactive (hdrives.1 hdriven)

/-- Neither is. -/
theorem attempt_still (h : Rest cfg s) {newEncoder newCrtc : Nat → Option Nat}
    (hstage : s.stageOutputState set =
      .ok (0, false, { s with newEncoder := newEncoder, newCrtc := newCrtc }))
    (hfor : StagedFor s set { s with newEncoder := newEncoder, newCrtc := newCrtc })
    (hstaged : Staged cfg { s with newEncoder := newEncoder, newCrtc := newCrtc })
    (hmc : (s.computeModeChanges set).1 = false) (ans : SetModeAns) :
    AttemptEnd s set ans (s.attempt set ans) := by
  obtain ⟨hequal, hstill, hmove⟩ := modeChanged_eq_false hmc
  have hdriven : Drives cfg (s.stagedCrtc set) set.crtc ↔ s.enabled set.crtc = true :=
    (hfor.drives_of_staged hstaged rfl _).trans (h.inv.enabled _ set.crtc_lt).symm
  rw [attempt_eq hstage, if_neg (by simp), hmc, if_neg (by simp), Bool.false_or]
  by_cases hfc : (s.computeModeChanges set).2 = true
  · rw [if_pos hfc]
    obtain ⟨hsome, hlit⟩ := hmove hfc
    obtain ⟨f, hf⟩ := Option.isSome_iff_exists.1 hsome
    obtain ⟨mode, hmodeset⟩ := Option.isSome_iff_exists.1 (set.mode_of_fb hsome)
    rcases pipeSetBase_cases (h.inv.staged newEncoder newCrtc).pinned set.crtc_lt (f := f) set.x
      set.y ans with ⟨ret, hret, hbase⟩ | ⟨pins, hbase, hpins⟩
    · rw [hf, hbase]
      exact .refused ret false newEncoder newCrtc hret (fun _ _ => hlit)
        fun _ => not_lost_of_staged h hfor hstaged rfl
    · rw [hf, hbase]
      refine .moved newEncoder newCrtc _ _ _ pins hfor hstaged
        (fun q hq => Function.update_of_ne hq _ _) (fun q hq => Function.update_of_ne hq _ _)
        (fun q hq => Function.update_of_ne hq _ _) hpins
        ⟨fun _ => ⟨(Function.update_self _ _ _).trans hf.symm, Function.update_self _ _ _,
          Function.update_self _ _ _, mode, hmodeset, hequal mode hmodeset⟩, fun hno => ?_⟩
      -- a crtc that shows something is driven
      refine absurd (hdriven.2 ?_) hno
      by_contra hoff
      rw [(h.inv.dark _ set.crtc_lt (by simpa using hoff)).1] at hlit
      cases hlit
  · rw [if_neg hfc]
    obtain ⟨hfb, hxy⟩ := hstill (by simpa using hfc)
    refine .moved newEncoder newCrtc s.fb s.x s.y s.pins hfor hstaged (fun _ _ => rfl)
      (fun _ _ => rfl) (fun _ _ => rfl) h.inv.pinned ⟨fun hyes => ?_, fun hno => ?_⟩
    · have hsome : set.fb.isSome = true := by
        rw [Option.isSome_iff_ne_none]
        exact fun hnone => not_drives_of_no_fb h hnone hyes
      obtain ⟨mode, hmodeset⟩ := Option.isSome_iff_exists.1 (set.mode_of_fb hsome)
      obtain ⟨hx, hy⟩ := hxy hsome
      exact ⟨hfb, hx.symm, hy.symm, mode, hmodeset, hequal mode hmodeset⟩
    · exact (h.inv.dark _ set.crtc_lt (by simpa using fun hon => hno (hdriven.2 hon))).1

/-- **A call of `intel_crtc_set_config`**, as far as `if (ret)`. -/
theorem attempt_end (h : Rest cfg s) (set : ModeSet cfg) (ans : SetModeAns) :
    AttemptEnd s set ans (s.attempt set ans) := by
  obtain ⟨newEncoder, newCrtc, changed, ret, hstage, hcase⟩ :=
    stageOutputState_cases h.inv.linked h.staged set
  rcases hcase with ⟨rfl, hne⟩ | ⟨rfl, hfor, hsame⟩
  · rw [attempt_eq hstage, if_pos (by decide)]
    refine .refused _ _ newEncoder newCrtc (by decide) (fun hunchanged _ => ?_) fun hproceeds => ?_
    · obtain ⟨f, hf⟩ := Option.isSome_iff_exists.1 (set.fb_iff.2 hne)
      cases hdark : s.fb set.crtc with
      | some _ => rfl
      | none =>
        rw [modeChanged_of_dark hdark hf] at hunchanged
        cases hunchanged
    · obtain ⟨changed', t', hstage', -⟩ := hproceeds
      rw [hstage] at hstage'
      cases hstage'
  by_cases hmode : ((s.computeModeChanges set).1 || changed) = true
  · exact attempt_changed h hstage hfor hmode ans
  · obtain ⟨hmc, rfl⟩ : (s.computeModeChanges set).1 = false ∧ changed = false := by
      simpa using hmode
    exact attempt_still h hstage hfor (hsame rfl) hmc ans

/-! ## Restoring -/

theorem restoreState_newEncoder {u : Outputs} {c : Nat} (hc : c ∈ cfg.connectors) :
    (Outputs.restoreState cfg u s).newEncoder c = s.encoder c := if_pos hc

theorem restoreState_newCrtc {u : Outputs} {e : Nat} (he : e ∈ cfg.encoders) :
    (Outputs.restoreState cfg u s).newCrtc e = s.crtc e := if_pos he

theorem restoreState_drives (s u : Outputs) (q : Nat) :
    Drives cfg (Outputs.restoreState cfg u s).newCrtc q ↔ Drives cfg s.crtc q := by
  constructor
  · intro ⟨e, he, hq⟩
    exact ⟨e, he, (restoreState_newCrtc he).symm.trans hq⟩
  · intro ⟨e, he, hq⟩
    exact ⟨e, he, (restoreState_newCrtc he).trans hq⟩

/-- The cloning check of the links from before -/
theorem restoreState_cloning (h : Rest cfg s) (u : Outputs) (p : Nat) :
    (Outputs.restoreState cfg u s).checkEncoderCloning cfg p = s.checkEncoderCloning cfg p := by
  have hfilter : (cfg.encoders.filter fun e =>
      (Outputs.restoreState cfg u s).newCrtc e = some p) =
      cfg.encoders.filter fun e => s.newCrtc e = some p := by
    refine List.filter_congr fun e he => ?_
    rw [restoreState_newCrtc he, h.staged.2 e he]
  rw [Outputs.checkEncoderCloning, Outputs.checkEncoderCloning]
  simp only [hfilter]

/-- How the call ends. -/
inductive ConfigEnd (s : Outputs) (set : ModeSet cfg) (ans : ConfigAns) :
    Except Stop Outputs.ConfigResult → Prop
  /-- an allocation fails -/
  | noMemory (halloc : ans.alloc = false) : ConfigEnd s set ans (.ok ⟨-ENOMEM, 0, s⟩)
  /-- the request is met -/
  | accepted (changed : Bool) (u : Outputs)
      (hattempt : s.attempt set ans.first = .ok (0, changed, u))
      (hend : AttemptEnd s set ans.first (.ok (0, changed, u))) :
      ConfigEnd s set ans (.ok ⟨0, 0, u⟩)
  /-- it is refused before the mode of the crtc was to be set -/
  | kept (ret : Int) (newEncoder newCrtc : Nat → Option Nat) (hret : ret ≠ 0)
      (hdark : s.enabled set.crtc = true → (s.fb set.crtc).isSome = true)
      (hstop : Proceeds s set ans.first → ∀ q < cfg.numPipes, ¬ Lost s set q) :
      ConfigEnd s set ans (.ok ⟨ret, 0, Outputs.restoreState cfg
        { s with newEncoder := newEncoder, newCrtc := newCrtc } s⟩)
  /-- it is refused, and the old mode is set again -/
  | tried (ret : Int) (u : Outputs) (hret : ret ≠ 0) (halloc : ans.alloc = true)
      (hattempt : s.attempt set ans.first = .ok (ret, true, u))
      (hend : AttemptEnd s set ans.first (.ok (ret, true, u))) (r : Except Stop (Int × Outputs))
      (hrestore : SetModeEnd cfg (Outputs.restoreState cfg u s) set.crtc
        (some (u.mode set.crtc)) (s.x set.crtc) (s.y set.crtc) (s.fb set.crtc) ans.restore r) :
      ConfigEnd s set ans (r.map fun e => ⟨ret, e.1, e.2⟩)

/-- The state in which an attempt is refused. -/
theorem AttemptEnd.refused_state (h : Rest cfg s) {ans : SetModeAns} {ret : Int} {changed : Bool}
    {u : Outputs} (hret : ret ≠ 0) (hend : AttemptEnd s set ans (.ok (ret, changed, u))) :
    Inv cfg u ∧ ∀ e ∈ cfg.encoders, ∀ q, q ≠ set.crtc → u.crtc e = some q → s.crtc e = some q := by
  cases hend with
  | refused _ _ newEncoder newCrtc =>
    exact ⟨h.inv.staged newEncoder newCrtc, fun _ _ _ _ heq => heq⟩
  | failed _ newEncoder newCrtc _ _ _ hfor hset =>
    refine ⟨hset.inv, fun e he q hq heq => ?_⟩
    have hnew : newCrtc e = s.stagedCrtc set e := hfor.crtc e he
    have hcrtc : u.crtc e = newCrtc e := hset.crtc e he
    rw [hcrtc, hnew] at heq
    rcases stagedCrtc_cases s set e with hnone | hown | hsame
    · rw [hnone] at heq
      cases heq
    · rw [hown] at heq
      exact absurd (Option.some.inj heq).symm hq
    · exact hsame ▸ heq
  | set => exact absurd rfl hret
  | moved => exact absurd rfl hret

/-- **Every call of `intel_crtc_set_config`** ends in one of these ways. -/
theorem setConfig_end (h : Rest cfg s) (set : ModeSet cfg) (ans : ConfigAns) :
    ConfigEnd s set ans (s.intelCrtcSetConfig set ans) := by
  rw [Outputs.intelCrtcSetConfig]
  by_cases halloc : ans.alloc = true
  case neg =>
    rw [if_neg halloc]
    exact .noMemory (by simpa using halloc)
  rw [if_pos halloc]
  have hend := attempt_end h set ans.first
  generalize hattempt : s.attempt set ans.first = a at hend
  obtain ⟨ret, changed, u, rfl⟩ : ∃ ret changed u, a = .ok (ret, changed, u) := by
    cases hend <;> exact ⟨_, _, _, rfl⟩
  by_cases hret : ret = 0
  · subst hret
    exact .accepted changed u hattempt hend
  change ConfigEnd s set ans (if ret ≠ 0 then
    if changed = true then
      (Outputs.setMode cfg (Outputs.restoreState cfg u s) set.crtc (some (u.mode set.crtc))
        (s.x set.crtc) (s.y set.crtc) (s.fb set.crtc) ans.restore).bind
          fun e => .ok ⟨ret, e.1, e.2⟩
    else .ok ⟨ret, 0, Outputs.restoreState cfg u s⟩ else _)
  rw [if_pos hret]
  by_cases hchanged : changed = true
  · rw [if_pos hchanged]
    subst hchanged
    obtain ⟨hinv, hkeep⟩ := hend.refused_state h hret
    refine .tried ret u hret halloc hattempt hend _ (setMode_end (hinv.staged _ _) ?_ ?_
      set.crtc_lt _ _ _ _ _)
    · exact h.inv.linked.congr (fun c hc => restoreState_newEncoder hc)
        fun e he => restoreState_newCrtc he
    · intro e he q hq heq
      have hnew : (Outputs.restoreState cfg u s).newCrtc e = some q :=
        (restoreState_newCrtc he).trans (hkeep e he q hq heq)
      exact hnew ▸ rfl
  · rw [if_neg hchanged]
    cases hend with
    | refused _ _ newEncoder newCrtc _ hdark hstop =>
      exact .kept ret newEncoder newCrtc hret (hdark (by simpa using hchanged)) hstop
    | failed => exact absurd rfl hchanged
    | set => exact absurd rfl hret
    | moved => exact absurd rfl hret

/-! ## Between calls -/

theorem SetTo.staged (h : SetTo cfg s p t) : Staged cfg t := by
  refine ⟨fun c hc => ?_, fun e he => ?_⟩
  · rw [h.newEncoder, h.encoder c hc]
  · rw [h.newCrtc, h.crtc e he]

theorem AttemptEnd.rest (h : Rest cfg s) {ans : SetModeAns} {changed : Bool} {u : Outputs}
    (hend : AttemptEnd s set ans (.ok (0, changed, u))) : Rest cfg u := by
  cases hend with
  | refused _ _ _ _ hret => exact absurd rfl hret
  | failed _ _ _ _ hret => exact absurd rfl hret
  | set newEncoder newCrtc _ hfor hset => exact ⟨hset.inv, hset.staged⟩
  | moved newEncoder newCrtc fb x y pins hfor hsame hfb hx hy hpins hshown =>
    refine ⟨⟨h.inv.linked, h.inv.enabled, fun q hq hoff => ?_, hpins, h.inv.activeCrtc⟩, hsame⟩
    by_cases hqp : q = set.crtc
    · subst hqp
      refine ⟨hshown.2 fun hdriven => ?_, (h.inv.dark _ hq hoff).2⟩
      have hon := (h.inv.enabled _ hq).2 ((hfor.drives_of_staged hsame rfl _).1 hdriven)
      change s.enabled set.crtc = false at hoff
      rw [hon] at hoff
      cases hoff
    · obtain ⟨hdark, hactive⟩ := h.inv.dark q hq hoff
      exact ⟨(hfb q hqp).trans hdark, hactive⟩

/-- A mode set that ends well. -/
theorem SetModeEnd.setTo {mode : Option DisplayMode} {x y : Int} {fb : Option Nat}
    {ans : SetModeAns} (h : SetModeEnd cfg s p mode x y fb ans (.ok (0, t))) : SetTo cfg s p t := by
  cases h with
  | refused _ hret => exact absurd rfl hret
  | off _ _ hset => exact hset
  | lit _ _ hset => exact hset
  | failed _ _ hret => exact absurd rfl hret

/-- **A call that does not fail to restore** leaves the outputs at rest. -/
theorem setConfig_rest (h : Rest cfg s) {ans : ConfigAns} {r : Outputs.ConfigResult}
    (hr : s.intelCrtcSetConfig set ans = .ok r) (hrestore : r.restore = 0) : Rest cfg r.state := by
  have hend := setConfig_end h set ans
  rw [hr] at hend
  generalize hres : (Except.ok r : Except Stop Outputs.ConfigResult) = res at hend
  cases hend with
  | noMemory =>
    cases hres
    exact h
  | accepted changed u _ hend =>
    cases hres
    exact hend.rest h
  | kept ret newEncoder newCrtc =>
    cases hres
    exact ⟨h.inv.staged _ _, fun c hc => restoreState_newEncoder hc,
      fun e he => restoreState_newCrtc he⟩
  | tried ret u hret halloc hattempt hend e hmode =>
    cases e with
    | error _ => cases hres
    | ok e =>
      obtain ⟨restore, t⟩ := e
      cases hres
      change restore = 0 at hrestore
      subst hrestore
      exact ⟨hmode.setTo.inv, hmode.setTo.staged⟩

end I915.Modeset
