import SolarisXorg.I915.Proof.ModesetRun

/-!
# `intel_modeset_check_state`

`connectors_active` follows the `dpms` of the connectors of an encoder, and `active` follows the
encoders of a crtc (`Tracked`). A mode set keeps this for the crtcs whose encoders it does not take
(`SetTo.trackedBut`), and `intel_connector_dpms` keeps it when no two connectors share an encoder
(`connectorDpms_tracked`), so the tests on links and flags find nothing wrong (`checkState_holds`).
The comparisons with the hardware and the reference counts of the plls are not looked at.
-/

namespace I915.Modeset

open Lib
open Drm (DisplayMode)

/-- An encoder is active when a connector that uses it is not off. -/
def EncoderTracked (cfg : Cfg) (s : Outputs) (e : Nat) : Prop :=
  s.connectorsActive e = true ↔ ∃ c ∈ cfg.connectors, s.encoder c = some e ∧ s.dpms c ≠ .off

/-- A crtc is active when one of its encoders is. -/
def CrtcTracked (cfg : Cfg) (s : Outputs) (p : Nat) : Prop :=
  s.active p = true ↔ ∃ e ∈ cfg.encoders, s.crtc e = some p ∧ s.connectorsActive e = true

structure Tracked (cfg : Cfg) (s : Outputs) : Prop where
  encoder : ∀ e ∈ cfg.encoders, EncoderTracked cfg s e
  crtc : ∀ p < cfg.numPipes, CrtcTracked cfg s p

/-- Tracked, but for the crtc of a call that is going on. -/
structure TrackedBut (cfg : Cfg) (s : Outputs) (p : Nat) : Prop where
  encoder : ∀ e ∈ cfg.encoders, EncoderTracked cfg s e
  crtc : ∀ q < cfg.numPipes, q ≠ p → CrtcTracked cfg s q

/-- No two connectors share an encoder. -/
def Alone (cfg : Cfg) : Prop :=
  ∀ c ∈ cfg.connectors, ∀ d ∈ cfg.connectors, cfg.attached c = cfg.attached d → c = d

instance (cfg : Cfg) : Decidable (Alone cfg) :=
  inferInstanceAs (Decidable (∀ c ∈ cfg.connectors, ∀ d ∈ cfg.connectors, _ → _))

variable {cfg : Cfg} {s t : Outputs} {set : ModeSet cfg} {p : Nat}

theorem TrackedBut.tracked (h : TrackedBut cfg s p) (hp : CrtcTracked cfg s p) :
    Tracked cfg s := by
  refine ⟨h.encoder, fun q hq => ?_⟩
  by_cases hqp : q = p
  · exact hqp ▸ hp
  · exact h.crtc q hq hqp

/-- The connectors of an encoder are one. -/
theorem Alone.unique (h : Alone cfg) {encoder crtc encoder' crtc' : Nat → Option Nat}
    (hlinked : Linked cfg encoder crtc) (hlinked' : Linked cfg encoder' crtc') {c d e : Nat}
    (hc : c ∈ cfg.connectors) (hd : d ∈ cfg.connectors) (hce : encoder c = some e)
    (hde : encoder' d = some e) : c = d :=
  h c hc d hd ((hlinked.attached c hc e hce).symm.trans (hlinked'.attached d hd e hde))

/-! ## Mode sets -/

section
variable (halone : Alone cfg) (hinv : Inv cfg s) (hnew : Linked cfg s.newEncoder s.newCrtc)
  (hsame : ∀ e ∈ cfg.encoders, ∀ q, q ≠ p → (s.crtc e = some q ↔ s.newCrtc e = some q))
  (h : SetTo cfg s p t)

include hinv hsame in
/-- A mode set that takes no encoder of another crtc turns none off. -/
theorem not_turnsOff {q : Nat} (hq : q < cfg.numPipes) (hne : q ≠ p) : ¬ TurnsOff cfg s q := by
  intro hyp
  obtain ⟨hon, hno⟩ := hyp
  obtain ⟨e, he, heq⟩ := (hinv.enabled q hq).1 hon
  exact hno ⟨e, he, (hsame e he q hne).1 heq⟩

include hinv hsame h in
/-- An encoder of another crtc is as active as it was. -/
theorem SetTo.active_other {e q : Nat} (he : e ∈ cfg.encoders) (hne : q ≠ p)
    (hq : s.newCrtc e = some q) : t.connectorsActive e = s.connectorsActive e := by
  have hold := (hsame e he q hne).2 hq
  have hlt := (hinv.linked.possible e he q hold).1
  have hnep : s.newCrtc e ≠ some p := by
    rw [hq]
    exact fun hqp => hne (Option.some.inj hqp)
  have hkept : ¬ (s.crtc e = some p ∨ (s.crtc e).any (fun q => TurnsOff cfg s q) = true) := by
    rw [hold, Option.any_some]
    intro hoff
    rcases hoff with hqp | hoff
    · exact hne (Option.some.inj hqp)
    · exact not_turnsOff hinv hsame hlt hne (of_decide_eq_true hoff)
  rw [h.connectorsActive e he, if_neg hnep, if_neg hkept]

include halone hinv hnew hsame h in
theorem SetTo.encoderTracked (htracked : TrackedBut cfg s p) {e : Nat} (he : e ∈ cfg.encoders) :
    EncoderTracked cfg t e := by
  rw [EncoderTracked]
  cases hq : s.newCrtc e with
  | none =>
    -- nothing uses the encoder
    have hunused : ¬ ∃ c ∈ cfg.connectors, s.newEncoder c = some e := by
      intro hused
      have hsome := (hnew.used e he).2 hused
      rw [hq] at hsome
      cases hsome
    refine iff_of_false (fun hon => ?_) fun hused => ?_
    · have hsome := h.inv.activeCrtc e he hon
      rw [h.crtc e he, hq] at hsome
      cases hsome
    · obtain ⟨c, hc, hce, -⟩ := hused
      exact hunused ⟨c, hc, (h.encoder c hc).symm.trans hce⟩
  | some q =>
    obtain ⟨c, hc, hce⟩ := (hnew.used e he).1 (by rw [hq]; rfl)
    have htce : t.encoder c = some e := (h.encoder c hc).trans hce
    have hbind : (s.newEncoder c).bind s.newCrtc = some q := by
      rw [hce, Option.bind_some, hq]
    have hdpms := h.dpms c hc
    rw [hbind] at hdpms
    by_cases hqp : q = p
    · subst hqp
      rw [h.connectorsActive e he, if_pos hq]
      rw [if_pos rfl] at hdpms
      exact iff_of_true rfl ⟨c, hc, htce, by rw [hdpms]; decide⟩
    · have hold := (hsame e he q hqp).2 hq
      obtain ⟨d, hd, hde⟩ := (hinv.linked.used e he).1 (by rw [hold]; rfl)
      obtain rfl : d = c := halone.unique hinv.linked hnew hd hc hde hce
      have hcrtcOf : s.crtcOf d = some q := by
        rw [Outputs.crtcOf, hde, Option.bind_some, hold]
      have hlt := (hinv.linked.possible e he q hold).1
      rw [if_neg fun heq => hqp (Option.some.inj heq), hcrtcOf, Option.any_some,
        if_neg fun hoff => not_turnsOff hinv hsame hlt hqp (of_decide_eq_true hoff)] at hdpms
      rw [h.active_other hinv hsame he hqp hq]
      refine (htracked.encoder e he).trans ⟨?_, ?_⟩
      · intro hyp
        obtain ⟨c, hc, hce, hon⟩ := hyp
        obtain rfl : c = d := halone.unique hinv.linked hinv.linked hc hd hce hde
        exact ⟨c, hc, htce, hdpms ▸ hon⟩
      · intro hyp
        obtain ⟨c, hc, hce', hon⟩ := hyp
        obtain rfl : c = d := halone.unique h.inv.linked hinv.linked hc hd hce' hde
        exact ⟨c, hc, hde, hdpms ▸ hon⟩

include halone hinv hnew hsame h in
/-- **A mode set that takes no encoder of another crtc** keeps the others tracked. -/
theorem SetTo.trackedBut (htracked : TrackedBut cfg s p) : TrackedBut cfg t p := by
  refine ⟨fun e he => h.encoderTracked halone hinv hnew hsame htracked he, fun q hq hne => ?_⟩
  have hactive := (h.other q hq hne).2.1.trans (if_neg (not_turnsOff hinv hsame hq hne))
  rw [CrtcTracked, hactive]
  refine (htracked.crtc q hq hne).trans ⟨?_, ?_⟩
  · intro hyp
    obtain ⟨e, he, heq, hon⟩ := hyp
    have hqe := (hsame e he q hne).1 heq
    exact ⟨e, he, (h.crtc e he).trans hqe, (h.active_other hinv hsame he hne hqe).trans hon⟩
  · intro hyp
    obtain ⟨e, he, heq, hon⟩ := hyp
    have hqe := (h.crtc e he).symm.trans heq
    exact ⟨e, he, (hsame e he q hne).2 hqe, (h.active_other hinv hsame he hne hqe).symm.trans hon⟩

include h in
/-- The crtc of the call, when it is lit or off. -/
theorem SetTo.crtcTracked (hactive : t.active p = true ↔ Drives cfg s.newCrtc p) :
    CrtcTracked cfg t p := by
  rw [CrtcTracked, hactive]
  constructor
  · intro hyp
    obtain ⟨e, he, hq⟩ := hyp
    exact ⟨e, he, (h.crtc e he).trans hq, (h.connectorsActive e he).trans (if_pos hq)⟩
  · intro hyp
    obtain ⟨e, he, hq, -⟩ := hyp
    exact ⟨e, he, (h.crtc e he).symm.trans hq⟩

end

/-! ## Calls -/

/-- The request takes no connector of another crtc. -/
def Polite (s : Outputs) (set : ModeSet cfg) : Prop :=
  ∀ c ∈ set.connectors, ∀ q, s.crtcOf c = some q → q = set.crtc

/-- Such a request leaves the other crtcs their encoders. -/
theorem Polite.stagedCrtc (halone : Alone cfg) (h : Rest cfg s) (hpolite : Polite s set) {e q : Nat}
    (he : e ∈ cfg.encoders) (hne : q ≠ set.crtc) :
    s.crtc e = some q ↔ s.stagedCrtc set e = some q := by
  constructor
  · intro hq
    obtain ⟨c, hc, hce⟩ := (h.inv.linked.used e he).1 (by rw [hq]; rfl)
    have hcrtcOf : s.crtcOf c = some q := by
      rw [Outputs.crtcOf, hce, Option.bind_some, hq]
    have hsome : (s.stagedCrtc set e).isSome = true := stagedCrtc_keeps h he hne hq
    rw [Outputs.stagedCrtc] at hsome ⊢
    cases hlast : s.lastUser set e with
    | none =>
      rw [hlast] at hsome
      cases hsome
    | some d =>
      obtain ⟨hd, hde⟩ := lastUser_mem hlast
      -- the user of the encoder is still the connector from before, which is not named
      have hdc : d = c := by
        refine halone d hd c hc ?_
        rw [← stagedEncoder_attached h.inv.linked h.staged hd hde,
          ← h.inv.linked.attached c hc e hce]
      dsimp only
      rw [if_neg fun hmem => hne (hpolite d hmem q (hdc ▸ hcrtcOf)), hq]
  · intro hq
    rcases stagedCrtc_cases s set e with hnone | hown | hsame
    · rw [hnone] at hq
      cases hq
    · rw [hown] at hq
      exact absurd (Option.some.inj hq).symm hne
    · exact hsame.symm.trans hq

section
variable (halone : Alone cfg) (h : Rest cfg s) (hpolite : Polite s set) (htracked : Tracked cfg s)
include halone h hpolite htracked

theorem StagedFor.trackedBut {newEncoder newCrtc : Nat → Option Nat} {u : Outputs}
    (hfor : StagedFor s set { s with newEncoder := newEncoder, newCrtc := newCrtc })
    (hset : SetTo cfg { s with newEncoder := newEncoder, newCrtc := newCrtc } set.crtc u) :
    TrackedBut cfg u set.crtc := by
  refine hset.trackedBut halone (h.inv.staged newEncoder newCrtc)
    (hfor.linked h.inv.linked h.staged) (fun e he q hne => ?_) ?_
  · have hnew : newCrtc e = s.stagedCrtc set e := hfor.crtc e he
    change s.crtc e = some q ↔ newCrtc e = some q
    rw [hnew]
    exact hpolite.stagedCrtc halone h he hne
  · exact ⟨htracked.encoder, fun q hq _ => htracked.crtc q hq⟩

/-- A call that succeeds -/
theorem AttemptEnd.tracked {ans : SetModeAns} {changed : Bool} {u : Outputs}
    (hend : AttemptEnd s set ans (.ok (0, changed, u))) : Tracked cfg u := by
  cases hend with
  | refused _ _ _ _ hne => exact absurd rfl hne
  | failed _ _ _ _ hne => exact absurd rfl hne
  | set newEncoder newCrtc _ hfor hset hshown hactive =>
    refine (hfor.trackedBut halone h hpolite htracked hset).tracked (hset.crtcTracked ?_)
    exact hactive.trans (hfor.drives set.crtc).symm
  | moved => exact ⟨htracked.encoder, htracked.crtc⟩

/-- A refused attempt keeps the other crtcs as they were. -/
theorem AttemptEnd.refused_tracked {ans : SetModeAns} {ret : Int} {changed : Bool} {u : Outputs}
    (hret : ret ≠ 0) (hend : AttemptEnd s set ans (.ok (ret, changed, u))) :
    TrackedBut cfg u set.crtc ∧ ∀ e ∈ cfg.encoders, ∀ q, q ≠ set.crtc →
      (u.crtc e = some q ↔ s.crtc e = some q) := by
  cases hend with
  | refused _ _ newEncoder newCrtc =>
    exact ⟨⟨htracked.encoder, fun q hq _ => htracked.crtc q hq⟩, fun _ _ _ _ => Iff.rfl⟩
  | failed _ newEncoder newCrtc _ _ _ hfor hset =>
    refine ⟨hfor.trackedBut halone h hpolite htracked hset, fun e he q hne => ?_⟩
    have hcrtc : u.crtc e = s.stagedCrtc set e := (hset.crtc e he).trans (hfor.crtc e he)
    rw [hcrtc]
    exact (hpolite.stagedCrtc halone h he hne).symm
  | set => exact absurd rfl hret
  | moved => exact absurd rfl hret

/-- **A call that does not fail to restore** keeps the outputs tracked. -/
theorem setConfig_tracked {ans : ConfigAns} {r : Outputs.ConfigResult}
    (hr : s.intelCrtcSetConfig set ans = .ok r) (hrestore : r.restore = 0) :
    Tracked cfg r.state := by
  have hend := setConfig_end h set ans
  rw [hr] at hend
  generalize hres : (Except.ok r : Except Stop Outputs.ConfigResult) = res at hend
  cases hend with
  | noMemory =>
    cases hres
    exact htracked
  | accepted changed u _ hend =>
    cases hres
    exact hend.tracked halone h hpolite htracked
  | kept ret newEncoder newCrtc =>
    cases hres
    exact ⟨htracked.encoder, htracked.crtc⟩
  | tried ret u hne _ _ hend e hmode =>
    cases e with
    | error _ => cases hres
    | ok e =>
      obtain ⟨restore, v⟩ := e
      cases hres
      change restore = 0 at hrestore
      subst hrestore
      have hset := hmode.setTo
      obtain ⟨hinv, -⟩ := hend.refused_state h hne
      obtain ⟨hbut, hcrtc⟩ := hend.refused_tracked halone h hpolite htracked hne
      have hlinked : Linked cfg (Outputs.restoreState cfg u s).newEncoder
          (Outputs.restoreState cfg u s).newCrtc :=
        h.inv.linked.congr (fun c hc => restoreState_newEncoder hc)
          fun e he => restoreState_newCrtc he
      have hbut' : TrackedBut cfg v set.crtc := by
        refine hset.trackedBut halone (hinv.staged _ _) hlinked (fun e he q hq => ?_)
          ⟨hbut.encoder, hbut.crtc⟩
        have hnew : (Outputs.restoreState cfg u s).newCrtc e = s.crtc e := restoreState_newCrtc he
        change u.crtc e = some q ↔ (Outputs.restoreState cfg u s).newCrtc e = some q
        rw [hnew]
        exact hcrtc e he q hq
      refine hbut'.tracked (hset.crtcTracked ?_)
      cases hmode with
      | refused _ hne => exact absurd rfl hne
      | off _ _ _ hdriven _ hoff => exact iff_of_false (by rw [hoff]; simp) hdriven
      | lit _ _ _ hdriven _ _ hon => exact iff_of_true hon hdriven
      | failed _ _ hne => exact absurd rfl hne

end

/-! ## `intel_connector_dpms` -/

/-- The connectors of another encoder keep their `dpms`. -/
theorem users_update (h : Linked cfg s.encoder s.crtc) {c e : Nat} (hne : e ≠ cfg.attached c)
    (mode : Dpms) :
    (∃ d ∈ cfg.connectors, s.encoder d = some e ∧ s.dpms d ≠ .off) ↔
      ∃ d ∈ cfg.connectors, s.encoder d = some e ∧ Function.update s.dpms c mode d ≠ .off := by
  refine exists_congr fun d => and_congr_right fun hd => and_congr_right fun hde => ?_
  have hdc : d ≠ c := by
    intro hdc
    subst hdc
    exact hne (h.attached d hd e hde)
  rw [Function.update_of_ne hdc]

/-- The connector's encoder follows it, and the crtc its encoders. -/
theorem encoderDpms_tracked (halone : Alone cfg) (h : Rest cfg s) (htracked : Tracked cfg s)
    {c p : Nat} (hc : c ∈ cfg.connectors) (hcrtc : s.crtc (cfg.attached c) = some p) {mode : Dpms}
    (hmode : mode = .on ∨ mode = .off) :
    Tracked cfg (Outputs.encoderDpms cfg { s with dpms := Function.update s.dpms c mode }
      (cfg.attached c) p mode) := by
  refine ⟨fun e he => ?_, fun q hq => ?_⟩
  · change (Function.update s.connectorsActive (cfg.attached c) (mode == Dpms.on) e = true) ↔
      ∃ d ∈ cfg.connectors, s.encoder d = some e ∧ Function.update s.dpms c mode d ≠ .off
    by_cases hne : e = cfg.attached c
    · subst hne
      obtain ⟨d, hd, hde⟩ := (h.inv.linked.used _ he).1 (by rw [hcrtc]; rfl)
      obtain rfl : d = c := halone d hd c hc (h.inv.linked.attached d hd _ hde).symm
      rw [Function.update_self]
      constructor
      · intro hon
        refine ⟨d, hd, hde, ?_⟩
        rw [Function.update_self, beq_iff_eq.1 hon]
        decide
      · intro hyp
        obtain ⟨c, hc, hce, hon⟩ := hyp
        obtain rfl : c = d := halone.unique h.inv.linked h.inv.linked hc hd hce hde
        rw [Function.update_self] at hon
        rcases hmode with hon' | hoff
        · rw [hon']
          rfl
        · exact absurd hoff hon
    · rw [Function.update_of_ne hne]
      exact (htracked.encoder e he).trans (users_update h.inv.linked hne mode)
  · change (Function.update s.active p _ q = true) ↔ ∃ e ∈ cfg.encoders, s.crtc e = some q ∧
      Function.update s.connectorsActive (cfg.attached c) (mode == Dpms.on) e = true
    by_cases hqp : q = p
    · subst hqp
      rw [Function.update_self, List.any_eq_true]
      simp only [decide_eq_true_eq]
    · rw [Function.update_of_ne hqp]
      refine (htracked.crtc q hq).trans ?_
      refine exists_congr fun e => and_congr_right fun he => and_congr_right fun heq => ?_
      rw [Function.update_of_ne]
      intro hea
      rw [hea, hcrtc] at heq
      exact hqp (Option.some.inj heq).symm

/-- **`intel_connector_dpms`** of a connector that shares its encoder with no other. -/
theorem connectorDpms_tracked (halone : Alone cfg) (h : Rest cfg s) (htracked : Tracked cfg s)
    {c : Nat} (hc : c ∈ cfg.connectors) (mode : Dpms) :
    Tracked cfg (s.connectorDpms cfg c mode) := by
  rw [Outputs.connectorDpms]
  have hmode : (if mode = .on then Dpms.on else .off) = .on ∨
      (if mode = .on then Dpms.on else .off) = .off := by
    split
    · exact .inl rfl
    · exact .inr rfl
  generalize (if mode = .on then Dpms.on else Dpms.off) = mode at hmode
  dsimp only
  split
  next => exact htracked
  next =>
    cases hcrtc : s.crtc (cfg.attached c) with
    | none =>
      refine ⟨fun e he => (htracked.encoder e he).trans ?_, htracked.crtc⟩
      by_cases hne : e = cfg.attached c
      · -- nothing uses the encoder
        have hunused : ¬ ∃ d ∈ cfg.connectors, s.encoder d = some e := by
          intro hused
          have hsome := (h.inv.linked.used e he).2 hused
          rw [hne, hcrtc] at hsome
          cases hsome
        refine iff_of_false (fun hused => hunused ?_) fun hused => hunused ?_
        · obtain ⟨d, hd, hde, -⟩ := hused
          exact ⟨d, hd, hde⟩
        · obtain ⟨d, hd, hde, -⟩ := hused
          exact ⟨d, hd, hde⟩
      · exact users_update h.inv.linked hne mode
    | some p => exact encoderDpms_tracked halone h htracked hc hcrtc hmode

/-! ## The check -/

/-- At rest, and tracked, the state passes the tests. -/
theorem Tracked.check (h : Rest cfg s) (htracked : Tracked cfg s) : s.checkState cfg = true := by
  rw [Outputs.checkState, Bool.and_eq_true, Bool.and_eq_true]
  refine ⟨⟨?_, ?_⟩, ?_⟩
  · rw [Outputs.checkConnectorState, List.all_eq_true]
    exact fun c hc => decide_eq_true (h.staged.1 c hc)
  · rw [Outputs.checkEncoderState, List.all_eq_true]
    intro e he
    have hused : (s.crtc e).isSome =
        !(cfg.connectors.filter fun c => s.encoder c = some e).isEmpty := by
      rw [Bool.eq_iff_iff, h.inv.linked.used e he]
      simp
    have htrack : s.connectorsActive e =
        (cfg.connectors.filter fun c => s.encoder c = some e).any fun c => s.dpms c ≠ .off := by
      rw [Bool.eq_iff_iff]
      refine (htracked.encoder e he).trans ?_
      simp
    have hcrtc : (s.connectorsActive e && (s.crtc e).isNone) = false := by
      cases hon : s.connectorsActive e with
      | false => rfl
      | true =>
        have hsome := h.inv.activeCrtc e he hon
        cases hq : s.crtc e with
        | none =>
          rw [hq] at hsome
          cases hsome
        | some q => rfl
    dsimp only
    rw [← htrack, ← hused, hcrtc, h.staged.2 e he]
    simp
  · rw [Outputs.checkCrtcState, List.all_eq_true]
    intro p hp
    have hp' := List.mem_range.1 hp
    have henabled : (!(cfg.encoders.filter fun e => s.crtc e = some p).isEmpty) = s.enabled p := by
      rw [Bool.eq_iff_iff, h.inv.enabled p hp', Drives]
      simp
    have hactive : ((cfg.encoders.filter fun e => s.crtc e = some p).any s.connectorsActive) =
        s.active p := by
      rw [Bool.eq_iff_iff]
      refine Iff.trans ?_ (htracked.crtc p hp').symm
      simp
    have hoff : (s.active p && !s.enabled p) = false := by
      cases hon : s.enabled p with
      | true => simp
      | false => simp [(h.inv.dark p hp' hon).2]
    dsimp only
    rw [hactive, henabled, hoff]
    simp

/-- A call that takes no connector of another crtc. -/
def PoliteStep (cfg : Cfg) (s : Outputs) (l : Call cfg) (s' : Outputs) : Prop :=
  ModesetStep cfg s l s' ∧ ∀ set ans, l = .setConfig set ans → Polite s set

theorem dark_tracked (cfg : Cfg) (mode : DisplayMode) : Tracked cfg (Outputs.dark mode) := by
  refine ⟨fun e _ => iff_of_false (by simp [Outputs.dark]) ?_,
    fun p _ => iff_of_false (by simp [Outputs.dark]) ?_⟩
  · intro hyp
    obtain ⟨c, -, h, -⟩ := hyp
    cases h
  · intro hyp
    obtain ⟨e, -, h, -⟩ := hyp
    cases h

/-- **The links and flags agree with one another**, as `intel_modeset_check_state` tests them, in any
run in which no call takes a connector of another crtc, on a device whose connectors share no
encoder. -/
theorem checkState_holds (halone : Alone cfg) {mode : DisplayMode} {ls : List (Call cfg)}
    (h : Run (PoliteStep cfg) (Outputs.dark mode) ls s) : s.checkState cfg = true := by
  obtain ⟨hrest, htracked⟩ : Rest cfg s ∧ Tracked cfg s := by
    refine h.inv (I := fun s => Rest cfg s ∧ Tracked cfg s)
      ⟨dark_rest cfg mode, dark_tracked cfg mode⟩ fun t l u hinv hstep => ?_
    obtain ⟨ht, htracked⟩ := hinv
    obtain ⟨hstep, hpolite⟩ := hstep
    cases l with
    | setConfig set ans =>
      obtain ⟨r, hr, hrestore, rfl⟩ := hstep
      exact ⟨setConfig_rest ht hr hrestore,
        setConfig_tracked halone ht (hpolite set ans rfl) htracked hr hrestore⟩
    | dpms c mode =>
      obtain ⟨hc, rfl⟩ := hstep
      exact ⟨connectorDpms_rest ht c mode, connectorDpms_tracked halone ht htracked hc mode⟩
  exact htracked.check hrest

/-- The call that lights the first screen -/
theorem checkState_holds_lit :
    ∃ r, (Outputs.dark screensMode).intelCrtcSetConfig (firstScreen 0 1) ⟨true, setOk, setOk⟩ =
      .ok r ∧ r.state.checkState screensCfg = true := by
  obtain ⟨r, hr, -, hrestore⟩ := @exists_result screensCfg (Outputs.dark screensMode)
    (firstScreen 0 1) ⟨true, setOk, setOk⟩ 0 0 rfl
  have hpolite : Polite (Outputs.dark screensMode) (firstScreen 0 1) := by
    intro c _ q hq
    cases hq
  have hstep : PoliteStep screensCfg (Outputs.dark screensMode)
      (.setConfig (firstScreen 0 1) ⟨true, setOk, setOk⟩) r.state := by
    refine ⟨⟨r, hr, hrestore, rfl⟩, fun set ans heq => ?_⟩
    cases heq
    exact hpolite
  exact ⟨r, hr, checkState_holds (by decide) (.snoc .nil hstep)⟩

end I915.Modeset
