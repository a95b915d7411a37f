import Mathlib.Data.List.Nodup
import SolarisXorg.I915.Proof.Modeset

/-!
# What `intel_set_mode` does

The pipe of the call is in `modeset_pipes` exactly when the staged links drive it, and the pipes in
`disable_pipes` are the enabled ones that they drive no more (`affectedPipes_eq`). So the call is
refused before it changes anything, or it commits the links, turns these pipes off and sets the mode
of its crtc, which may fail (`setMode_end`). In each case the crtcs fit the links and the pin
counts what is shown (`Inv`).
-/

namespace I915.Modeset

open Lib
open Drm (DisplayMode)

/-- Some encoder has the crtc. -/
def Drives (cfg : Cfg) (crtc : Nat → Option Nat) (p : Nat) : Prop :=
  ∃ e ∈ cfg.encoders, crtc e = some p

instance (cfg : Cfg) (crtc : Nat → Option Nat) (p : Nat) : Decidable (Drives cfg crtc p) :=
  inferInstanceAs (Decidable (∃ e ∈ cfg.encoders, crtc e = some p))

/-- The object of a framebuffer is pinned once for each crtc that shows it. -/
def Pinned (cfg : Cfg) (s : Outputs) : Prop :=
  ∀ f, s.pins f = holders s.fb (List.range cfg.numPipes) f

/-- The crtcs fit the links. -/
structure Inv (cfg : Cfg) (s : Outputs) : Prop where
  linked : Linked cfg s.encoder s.crtc
  enabled : ∀ p < cfg.numPipes, s.enabled p = true ↔ Drives cfg s.crtc p
  dark : ∀ p < cfg.numPipes, s.enabled p = false → s.fb p = none ∧ s.active p = false
  pinned : Pinned cfg s
  activeCrtc : ∀ e ∈ cfg.encoders, s.connectorsActive e = true → (s.crtc e).isSome = true

/-- The crtc loses all its encoders when the staged links are committed. -/
def TurnsOff (cfg : Cfg) (s : Outputs) (p : Nat) : Prop :=
  s.enabled p = true ∧ ¬ Drives cfg s.newCrtc p

instance (cfg : Cfg) (s : Outputs) (p : Nat) : Decidable (TurnsOff cfg s p) :=
  inferInstanceAs (Decidable (_ ∧ _))

variable {cfg : Cfg} {s t : Outputs} {p f : Nat}

/-! ## Pins -/

theorem unpin_pin (s : Outputs) (f : Nat) : (s.pin f).unpin f = .ok s := by
  simp [Outputs.pin, Outputs.unpin]

theorem Pinned.pos (h : Pinned cfg s) (hp : p < cfg.numPipes) (hf : s.fb p = some f) :
    s.pins f ≠ 0 := by
  rw [h f]
  have := holders_pos_iff.2 ⟨p, List.mem_range.2 hp, hf⟩
  omega

/-- The counts after a crtc shows something else. -/
theorem Pinned.move (h : Pinned cfg s) (hp : p < cfg.numPipes) {fb : Nat → Option Nat}
    (hfb : ∀ q, q ≠ p → fb q = s.fb q) {pins : Nat → Nat}
    (hpins : ∀ f, pins f + (if s.fb p = some f then 1 else 0) =
      s.pins f + if fb p = some f then 1 else 0) (f : Nat) :
    pins f = holders fb (List.range cfg.numPipes) f := by
  have hoff := holders_of_eq_off (f := s.fb) (g := fb) List.nodup_range (List.mem_range.2 hp)
    (fun q _ hne => hfb q hne) f
  have hcur := hpins f
  rw [h f] at hcur
  omega

/-- The counts after a crtc shows nothing. -/
theorem Pinned.drop (h : Pinned cfg s) (hp : p < cfg.numPipes) (hf : s.fb p = some f) (g : Nat) :
    Function.update s.pins f (s.pins f - 1) g =
      holders (Function.update s.fb p none) (List.range cfg.numPipes) g := by
  have hpos := h.pos hp hf
  refine h.move hp (fun q hq => Function.update_of_ne hq _ _) (fun i => ?_) g
  rw [hf, Function.update_self, Function.update_apply]
  by_cases hif : i = f
  · subst hif
    simp only [if_true, reduceCtorEq, if_false]
    omega
  · simp [hif, Ne.symm hif]

/-- **`intel_pipe_set_base`** shows the framebuffer or changes nothing. -/
theorem pipeSetBase_cases (h : Pinned cfg s) (hp : p < cfg.numPipes) (x y : Int)
    (ans : SetModeAns) :
    (∃ ret, ret ≠ 0 ∧ s.pipeSetBase p x y (some f) ans = .ok (ret, s)) ∨
      ∃ pins, s.pipeSetBase p x y (some f) ans = .ok (0, { s with
          fb := Function.update s.fb p (some f)
          x := Function.update s.x p x
          y := Function.update s.y p y
          pins := pins }) ∧
        ∀ g, pins g = holders (Function.update s.fb p (some f)) (List.range cfg.numPipes) g := by
  rw [Outputs.pipeSetBase]
  by_cases hpin : ans.pin ≠ 0
  · exact .inl ⟨ans.pin, hpin, if_pos hpin⟩
  rw [if_neg hpin]
  by_cases hplane : ans.updatePlane ≠ 0
  · refine .inl ⟨ans.updatePlane, hplane, ?_⟩
    rw [if_pos hplane, unpin_pin]
    rfl
  rw [if_neg hplane]
  refine .inr ?_
  cases hold : s.fb p with
  | none =>
    refine ⟨(s.pin f).pins, rfl, h.move hp (fun q hq => Function.update_of_ne hq _ _) fun g => ?_⟩
    rw [hold, Function.update_self, Outputs.pin]
    dsimp only
    rw [Function.update_apply]
    by_cases hgf : g = f
    · simp [hgf]
    · simp [hgf, Ne.symm hgf]
  | some g =>
    have hpos : (s.pin f).pins g ≠ 0 := by
      have hg := h.pos hp hold
      simp only [Outputs.pin, Function.update_apply]
      split
      · omega
      · exact hg
    refine ⟨Function.update (s.pin f).pins g ((s.pin f).pins g - 1), ?_,
      h.move hp (fun q hq => Function.update_of_ne hq _ _) fun i => ?_⟩
    · dsimp only
      rw [Outputs.unpin, if_neg hpos]
      rfl
    · have hg := h.pos hp hold
      rw [hold, Function.update_self]
      simp only [Outputs.pin, Function.update_apply, Option.some.injEq] at hpos ⊢
      by_cases hig : i = g
      · subst hig
        by_cases hif : i = f
        · subst hif
          simp only [if_true] at hpos ⊢
          omega
        · simp only [if_true, if_neg hif, if_neg (Ne.symm hif)] at hpos ⊢
          omega
      · by_cases hif : i = f
        · subst hif
          simp [hig, Ne.symm hig]
        · simp [hig, hif, Ne.symm hig, Ne.symm hif]

/-! ## Turning pipes off -/

/-- `t` is `s` with the pipes of `ps` turned off. -/
def TurnedOff (cfg : Cfg) (s : Outputs) (ps : List Nat) (t : Outputs) : Prop :=
  ∃ dpms connectorsActive active fb pins,
    t = { s with
      dpms := dpms
      connectorsActive := connectorsActive
      active := active
      fb := fb
      pins := pins } ∧
    (∀ c, dpms c =
      if c ∈ cfg.connectors ∧ ∃ p ∈ ps, s.crtcOf c = some p then .off else s.dpms c) ∧
    (∀ e, connectorsActive e =
      if (∃ p ∈ ps, s.crtc e = some p) ∧ ∃ c ∈ cfg.connectors, s.encoder c = some e then false
      else s.connectorsActive e) ∧
    (∀ p, active p = if p ∈ ps then false else s.active p) ∧
    (∀ p, fb p = if p ∈ ps then none else s.fb p) ∧ Pinned cfg t

/-- `intel_crtc_disable` of one pipe -/
theorem intelCrtcDisable_eq (h : Pinned cfg s) (hp : p < cfg.numPipes) :
    ∃ t, s.intelCrtcDisable cfg p = .ok t ∧ TurnedOff cfg s [p] t := by
  have hactive (q : Nat) : Function.update s.active p false q =
      if q ∈ [p] then false else s.active q := by
    rw [Function.update_apply]
    simp
  have hdpms (c : Nat) : (if c ∈ cfg.connectors ∧ s.crtcOf c = some p then Dpms.off else s.dpms c) =
      if c ∈ cfg.connectors ∧ ∃ q ∈ [p], s.crtcOf c = some q then .off else s.dpms c := by
    simp
  have hca (e : Nat) :
      (if s.crtc e = some p ∧ ∃ c ∈ cfg.connectors, s.encoder c = some e then false
        else s.connectorsActive e) =
      if (∃ q ∈ [p], s.crtc e = some q) ∧ ∃ c ∈ cfg.connectors, s.encoder c = some e then false
      else s.connectorsActive e := by
    simp
  cases hfb : s.fb p with
  | none =>
    refine ⟨_, ?_, _, _, _, s.fb, s.pins, rfl, hdpms, hca, hactive, fun q => ?_, h⟩
    · simp only [Outputs.intelCrtcDisable, hfb]
      rfl
    · by_cases hq : q = p
      · simp [hq, hfb]
      · simp [hq]
  | some f =>
    have hpos := h.pos hp hfb
    refine ⟨_, ?_, _, _, _, Function.update s.fb p none,
      Function.update s.pins f (s.pins f - 1), rfl, hdpms, hca, hactive, fun q => ?_,
      h.drop hp hfb⟩
    · simp only [Outputs.intelCrtcDisable, hfb, Outputs.unpin, if_neg hpos]
      rfl
    · rw [Function.update_apply]
      simp

/-- The loop over `disable_pipes` -/
theorem disableLoop_eq (h : Pinned cfg s) (ps : List Nat) (hps : ∀ p ∈ ps, p < cfg.numPipes) :
    ∃ t, ps.foldlM (Outputs.intelCrtcDisable cfg) s = .ok t ∧ TurnedOff cfg s ps t := by
  induction ps generalizing s with
  | nil => exact ⟨s, rfl, s.dpms, s.connectorsActive, s.active, s.fb, s.pins, rfl, by simp, by simp,
      by simp, by simp, h⟩
  | cons p ps ih =>
    obtain ⟨u, hu, d, a, v, b, n, rfl, hd, ha, hv, hb, hpinned⟩ :=
      intelCrtcDisable_eq h (hps p List.mem_cons_self)
    obtain ⟨t, ht, d', a', v', b', n', rfl, hd', ha', hv', hb', hpinned'⟩ :=
      ih hpinned fun q hq => hps q (List.mem_cons_of_mem p hq)
    refine ⟨_, ?_, d', a', v', b', n', rfl, fun c => ?_, fun e => ?_, fun q => ?_, fun q => ?_,
      hpinned'⟩
    · rw [List.foldlM_cons, hu]
      exact ht
    · have hcrtcOf : Outputs.crtcOf { s with
          dpms := d, connectorsActive := a, active := v, fb := b, pins := n } c = s.crtcOf c := rfl
      rw [hd', hcrtcOf]
      dsimp only
      rw [hd]
      by_cases hc : c ∈ cfg.connectors ∧ ∃ q ∈ ps, s.crtcOf c = some q
      · obtain ⟨hmem, q, hq, hcq⟩ := hc
        rw [if_pos ⟨hmem, q, hq, hcq⟩, if_pos ⟨hmem, q, List.mem_cons_of_mem p hq, hcq⟩]
      · rw [if_neg hc]
        refine if_congr ⟨fun ⟨hmem, q, hq, hcq⟩ => ⟨hmem, q, ?_, hcq⟩,
          fun ⟨hmem, q, hq, hcq⟩ => ⟨hmem, q, ?_, hcq⟩⟩ rfl rfl
        · exact List.mem_singleton.1 hq ▸ List.mem_cons_self
        · rcases List.mem_cons.1 hq with rfl | hq
          · exact List.mem_singleton_self q
          · exact absurd ⟨hmem, q, hq, hcq⟩ hc
    · rw [ha']
      dsimp only
      rw [ha]
      by_cases he : (∃ q ∈ ps, s.crtc e = some q) ∧ ∃ c ∈ cfg.connectors, s.encoder c = some e
      · obtain ⟨⟨q, hq, heq⟩, hused⟩ := he
        rw [if_pos ⟨⟨q, hq, heq⟩, hused⟩, if_pos ⟨⟨q, List.mem_cons_of_mem p hq, heq⟩, hused⟩]
      · rw [if_neg he]
        refine if_congr ⟨fun ⟨⟨q, hq, heq⟩, hused⟩ => ⟨⟨q, ?_, heq⟩, hused⟩,
          fun ⟨⟨q, hq, heq⟩, hused⟩ => ⟨⟨q, ?_, heq⟩, hused⟩⟩ rfl rfl
        · exact List.mem_singleton.1 hq ▸ List.mem_cons_self
        · rcases List.mem_cons.1 hq with rfl | hq
          · exact List.mem_singleton_self q
          · exact absurd ⟨⟨q, hq, heq⟩, hused⟩ he
    · rw [hv']
      dsimp only
      rw [hv]
      by_cases hq : q ∈ ps <;> simp [hq]
    · rw [hb']
      dsimp only
      rw [hb]
      by_cases hq : q ∈ ps <;> simp [hq]

/-! ## Masks -/

theorem mapM_ok {f : Nat → Except Stop (List Nat)} {P : Nat → Prop} {l : List Nat}
    (h : ∀ c ∈ l, ∃ r, f c = .ok r ∧ ∀ q ∈ r, P q) :
    ∃ rs, l.mapM f = .ok rs ∧ ∀ q ∈ rs.flatten, P q := by
  induction l with
  | nil => exact ⟨[], rfl, by simp⟩
  | cons c l ih =>
    obtain ⟨r, hr, hP⟩ := h c List.mem_cons_self
    obtain ⟨rs, hrs, hPs⟩ := ih fun d hd => h d (List.mem_cons_of_mem c hd)
    refine ⟨r :: rs, by rw [List.mapM_cons, hr, hrs]; rfl, fun q hq => ?_⟩
    rw [List.flatten_cons] at hq
    rcases List.mem_append.1 hq with hq | hq
    · exact hP q hq
    · exact hPs q hq

/-- In linked maps the encoder of a connector has a crtc. -/
theorem pipeOf_eq {encoder crtc : Nat → Option Nat} (h : Linked cfg encoder crtc) {c : Nat}
    (hc : c ∈ cfg.connectors) :
    ∃ r, Outputs.pipeOf crtc (encoder c) = .ok r ∧ ∀ q ∈ r, Drives cfg crtc q := by
  cases he : encoder c with
  | none => exact ⟨[], rfl, by simp⟩
  | some e =>
    obtain ⟨hmem, q, hq, -⟩ := h.exists_crtc hc he
    refine ⟨[q], by rw [Outputs.pipeOf, hq], fun r hr => ?_⟩
    rw [List.mem_singleton.1 hr]
    exact ⟨e, hmem, hq⟩

/-- **`intel_modeset_affected_pipes`**: the crtc of the call when the staged links drive it, and the
crtcs that they drive no more. -/
theorem affectedPipes_eq (hinv : Inv cfg s) (hnew : Linked cfg s.newEncoder s.newCrtc)
    (hp : p < cfg.numPipes) :
    ∃ pipes, s.affectedPipes cfg p = .ok pipes ∧ pipes.prepare = pipes.modeset ∧
      (∀ q, pipes.modeset q = true ↔ q = p ∧ Drives cfg s.newCrtc p) ∧
      ∀ q, pipes.disable q = true ↔ q < cfg.numPipes ∧ TurnsOff cfg s q := by
  have hconn : ∀ c ∈ cfg.connectors, ∃ r, s.connectorPipes c = .ok r ∧
      ∀ q ∈ r, Drives cfg s.crtc q ∨ Drives cfg s.newCrtc q := by
    intro c hc
    rw [Outputs.connectorPipes]
    by_cases hsame : s.encoder c = s.newEncoder c
    · exact ⟨[], if_pos hsame, by simp⟩
    obtain ⟨old, hold, hdrives⟩ := pipeOf_eq hinv.linked hc
    obtain ⟨new, hnewp, hdrives'⟩ := pipeOf_eq hnew hc
    refine ⟨old ++ new, by rw [if_neg hsame, hold, hnewp]; rfl, fun q hq => ?_⟩
    rcases List.mem_append.1 hq with hq | hq
    · exact .inl (hdrives q hq)
    · exact .inr (hdrives' q hq)
  obtain ⟨changed, hchanged, hdrives⟩ := mapM_ok hconn
  have henc : ∀ q ∈ cfg.encoders.flatMap s.encoderPipes,
      Drives cfg s.crtc q ∨ Drives cfg s.newCrtc q := by
    intro q hq
    obtain ⟨e, he, hqe⟩ := List.mem_flatMap.1 hq
    rw [Outputs.encoderPipes] at hqe
    split at hqe
    · cases hqe
    · rcases List.mem_append.1 hqe with hqe | hqe
      · exact .inl ⟨e, he, Option.mem_toList.1 hqe⟩
      · exact .inr ⟨e, he, Option.mem_toList.1 hqe⟩
  refine ⟨_, by rw [Outputs.affectedPipes, hchanged]; rfl, rfl, fun q => ?_, fun q => ?_⟩
  · simp only [Bool.and_eq_true, Bool.not_eq_true', decide_eq_true_eq, decide_eq_false_iff_not,
      beq_iff_eq]
    constructor
    · intro ⟨⟨hprepare, hkept⟩, hqp⟩
      subst hqp
      refine ⟨rfl, ?_⟩
      by_contra hno
      -- a crtc that no staged link drives is turned off, or was off and is not affected
      have hoff : s.enabled q ≠ true := fun hon => hkept ⟨hp, hon, hno⟩
      have hold : ¬ Drives cfg s.crtc q := fun h => hoff ((hinv.enabled q hp).2 h)
      rcases hprepare with hq | hq | ⟨-, hon⟩
      · exact (hdrives q hq).elim hold hno
      · exact (henc q hq).elim hold hno
      · exact hoff hon
    · intro ⟨hqp, hdriven⟩
      subst hqp
      refine ⟨⟨?_, fun hdis => hdis.2.2 hdriven⟩, rfl⟩
      by_cases hon : s.enabled q = true
      · exact .inr (.inr ⟨rfl, hon⟩)
      · obtain ⟨e, he, hnewe⟩ := hdriven
        have hne : s.crtc e ≠ s.newCrtc e := by
          intro hsame
          rw [hnewe] at hsame
          exact hon ((hinv.enabled q hp).2 ⟨e, he, hsame⟩)
        refine .inr (.inl (List.mem_flatMap.2 ⟨e, he, ?_⟩))
        rw [Outputs.encoderPipes, if_neg hne, hnewe]
        simp
  · simp only [decide_eq_true_eq]
    exact Iff.rfl

theorem mem_masked {pipes : Pipes} {q : Nat} :
    q ∈ Outputs.masked cfg pipes ↔ q < cfg.numPipes ∧ pipes q = true := by
  simp [Outputs.masked]

/-- A mask of one pipe -/
theorem masked_eq_singleton {pipes : Pipes} (hp : p < cfg.numPipes)
    (h : ∀ q, pipes q = true ↔ q = p) : Outputs.masked cfg pipes = [p] := by
  have hsame : Outputs.masked cfg pipes = (List.range cfg.numPipes).filter (· == p) := by
    refine List.filter_congr fun q _ => ?_
    rw [Bool.eq_iff_iff, h q, beq_iff_eq]
  rw [hsame, List.filter_beq, List.count_eq_one_of_mem List.nodup_range (List.mem_range.2 hp)]
  rfl

/-! ## Committing the links -/

/-- `w` is the state in which `__intel_set_mode` sets the mode, as the code computes it: the pipes
of `ps` are turned off, and the one in `prepare` gets its links and a mode. -/
structure Committed (cfg : Cfg) (s : Outputs) (ps : List Nat) (prepare : Pipes)
    (mode : Nat → DisplayMode) (w : Outputs) : Prop where
  newEncoder : w.newEncoder = s.newEncoder
  newCrtc : w.newCrtc = s.newCrtc
  encoder : ∀ c ∈ cfg.connectors, w.encoder c = s.newEncoder c
  crtc : ∀ e ∈ cfg.encoders, w.crtc e = s.newCrtc e
  enabled : ∀ q < cfg.numPipes, w.enabled q = w.crtcInUse cfg q
  active : ∀ q, w.active q =
    if q ∈ Outputs.masked cfg prepare ∧ s.enabled q = true then false
    else if q ∈ ps then false else s.active q
  fb : ∀ q, w.fb q = if q ∈ ps then none else s.fb q
  dpms : ∀ c, w.dpms c =
    if c ∈ cfg.connectors ∧ (w.crtcOf c).any prepare = true then .on
    else if c ∈ cfg.connectors ∧ ∃ q ∈ ps, s.crtcOf c = some q then .off else s.dpms c
  connectorsActive : ∀ e, w.connectorsActive e =
    if (w.crtc e).any prepare = true ∧ ∃ c ∈ cfg.connectors, w.encoder c = some e then true
    else if e ∈ cfg.encoders ∧ (s.crtc e).any prepare = true then false
    else if (∃ q ∈ ps, s.crtc e = some q) ∧ ∃ c ∈ cfg.connectors, s.encoder c = some e then false
    else s.connectorsActive e
  mode : w.mode = mode
  hwmode : w.hwmode = s.hwmode
  x : w.x = s.x
  y : w.y = s.y
  pinned : Pinned cfg w

theorem updateState_committed {u : Outputs} {ps : List Nat} (hoff : TurnedOff cfg s ps u)
    (prepare : Pipes) (mode : Nat → DisplayMode) :
    Committed cfg s ps prepare mode (Outputs.updateState cfg { u with
      active := fun q => if q ∈ Outputs.masked cfg prepare ∧ u.enabled q then false else u.active q
      mode := mode } prepare) := by
  obtain ⟨d, a, v, b, n, rfl, hd, ha, hv, hb, hpinned⟩ := hoff
  exact {
    newEncoder := rfl
    newCrtc := rfl
    encoder := fun c hc => if_pos hc
    crtc := fun e he => if_pos he
    enabled := fun q hq => if_pos hq
    active := fun q => by rw [← hv q]; rfl
    fb := hb
    dpms := fun c => by rw [← hd c]; rfl
    connectorsActive := fun e => by rw [← ha e]; rfl
    mode := rfl
    hwmode := rfl
    x := rfl
    y := rfl
    pinned := hpinned }

/-- `t` has the staged links of `s`, and the crtcs other than `p` are as they were, apart from the
ones that are turned off. -/
structure SetTo (cfg : Cfg) (s : Outputs) (p : Nat) (t : Outputs) : Prop where
  newEncoder : t.newEncoder = s.newEncoder
  newCrtc : t.newCrtc = s.newCrtc
  encoder : ∀ c ∈ cfg.connectors, t.encoder c = s.newEncoder c
  crtc : ∀ e ∈ cfg.encoders, t.crtc e = s.newCrtc e
  inv : Inv cfg t
  dpms : ∀ c ∈ cfg.connectors, t.dpms c =
    if (s.newEncoder c).bind s.newCrtc = some p then .on
    else if (s.crtcOf c).any (fun q => TurnsOff cfg s q) = true then .off else s.dpms c
  connectorsActive : ∀ e ∈ cfg.encoders, t.connectorsActive e =
    if s.newCrtc e = some p then true
    else if s.crtc e = some p ∨ (s.crtc e).any (fun q => TurnsOff cfg s q) = true then false
    else s.connectorsActive e
  other : ∀ q < cfg.numPipes, q ≠ p →
    t.fb q = (if TurnsOff cfg s q then none else s.fb q) ∧
      t.active q = (if TurnsOff cfg s q then false else s.active q) ∧ t.mode q = s.mode q ∧
      t.hwmode q = s.hwmode q ∧ t.x q = s.x q ∧ t.y q = s.y q

/-- Committed links drive what is staged. -/
theorem SetTo.drives (h : SetTo cfg s p t) (q : Nat) :
    Drives cfg t.crtc q ↔ Drives cfg s.newCrtc q := by
  constructor
  · intro ⟨e, he, hq⟩
    exact ⟨e, he, (h.crtc e he).symm.trans hq⟩
  · intro ⟨e, he, hq⟩
    exact ⟨e, he, (h.crtc e he).trans hq⟩

/-- The crtc `p` may show anything, as long as it is driven and the pins are counted. -/
theorem SetTo.show (h : SetTo cfg s p t) (hp : p < cfg.numPipes) (hdriven : Drives cfg s.newCrtc p)
    {active : Nat → Bool} {fb : Nat → Option Nat} {mode hwmode : Nat → DisplayMode}
    {x y : Nat → Int} {pins : Nat → Nat} (hactive : ∀ q, q ≠ p → active q = t.active q)
    (hfb : ∀ q, q ≠ p → fb q = t.fb q) (hmode : ∀ q, q ≠ p → mode q = t.mode q)
    (hhwmode : ∀ q, q ≠ p → hwmode q = t.hwmode q) (hx : ∀ q, q ≠ p → x q = t.x q)
    (hy : ∀ q, q ≠ p → y q = t.y q)
    (hpins : ∀ f, pins f = holders fb (List.range cfg.numPipes) f) :
    SetTo cfg s p { t with
      active := active
      fb := fb
      mode := mode
      hwmode := hwmode
      x := x
      y := y
      pins := pins } := by
  refine ⟨h.newEncoder, h.newCrtc, h.encoder, h.crtc,
    ⟨h.inv.linked, h.inv.enabled, fun q hq hoff => ?_, hpins, h.inv.activeCrtc⟩, h.dpms,
    h.connectorsActive, fun q hq hne => ?_⟩
  · have hne : q ≠ p := by
      intro hqp
      subst hqp
      rw [(h.inv.enabled q hq).2 ((h.drives q).2 hdriven)] at hoff
      cases hoff
    dsimp only
    rw [hfb q hne, hactive q hne]
    exact h.inv.dark q hq hoff
  · dsimp only
    rw [hfb q hne, hactive q hne, hmode q hne, hhwmode q hne, hx q hne, hy q hne]
    exact h.other q hq hne

/-- The pipe of the call is the only one in `prepare`. -/
theorem any_prepare {prepare : Pipes}
    (hprepare : ∀ q, prepare q = true ↔ q = p ∧ Drives cfg s.newCrtc p) (o : Option Nat) :
    o.any prepare = true ↔ o = some p ∧ Drives cfg s.newCrtc p := by
  cases o with
  | none => simp
  | some q => rw [Option.any_some, hprepare q, Option.some.injEq]

/-! What the committed state is, in terms of the links. -/

section
variable (hinv : Inv cfg s) (hnew : Linked cfg s.newEncoder s.newCrtc) (hp : p < cfg.numPipes)
  {ps : List Nat} (hps : ∀ q, q ∈ ps ↔ q < cfg.numPipes ∧ TurnsOff cfg s q) {prepare : Pipes}
  (hprepare : ∀ q, prepare q = true ↔ q = p ∧ Drives cfg s.newCrtc p) {mode : Nat → DisplayMode}
  {w : Outputs} (hw : Committed cfg s ps prepare mode w)

include hw in
theorem Committed.drives (q : Nat) : Drives cfg w.crtc q ↔ Drives cfg s.newCrtc q := by
  constructor
  · intro ⟨e, he, hq⟩
    exact ⟨e, he, (hw.crtc e he).symm.trans hq⟩
  · intro ⟨e, he, hq⟩
    exact ⟨e, he, (hw.crtc e he).trans hq⟩

include hw in
theorem Committed.enabled_iff {q : Nat} (hq : q < cfg.numPipes) :
    w.enabled q = true ↔ Drives cfg w.crtc q := by
  rw [hw.enabled q hq, Outputs.crtcInUse, List.any_eq_true]
  simp only [decide_eq_true_eq]
  exact Iff.rfl

include hps hw in
theorem Committed.fb_eq {q : Nat} (hq : q < cfg.numPipes) :
    w.fb q = if TurnsOff cfg s q then none else s.fb q := by
  rw [hw.fb q]
  exact if_congr ((hps q).trans (and_iff_right hq)) rfl rfl

include hps hprepare hw in
theorem Committed.active_eq {q : Nat} (hq : q < cfg.numPipes)
    (hne : ¬ (q = p ∧ Drives cfg s.newCrtc p)) :
    w.active q = if TurnsOff cfg s q then false else s.active q := by
  rw [hw.active q, if_neg fun h => hne ((hprepare q).1 (mem_masked.1 h.1).2)]
  exact if_congr ((hps q).trans (and_iff_right hq)) rfl rfl

include hinv hp hps hprepare hw

/-- The crtc of the call is off. -/
theorem Committed.active_self : w.active p = false := by
  by_cases hon : s.enabled p = true
  · by_cases hdriven : Drives cfg s.newCrtc p
    · rw [hw.active p]
      exact if_pos ⟨mem_masked.2 ⟨hp, (hprepare p).2 ⟨rfl, hdriven⟩⟩, hon⟩
    · rw [hw.active_eq hps hprepare hp fun h => hdriven h.2, if_pos ⟨hon, hdriven⟩]
  · rw [hw.active p, if_neg fun h => hon h.2, (hinv.dark p hp (by simpa using hon)).2]
    split <;> rfl

omit hprepare in
theorem Committed.fb_self : w.fb p = if Drives cfg s.newCrtc p then s.fb p else none := by
  rw [hw.fb_eq hps hp]
  by_cases hdriven : Drives cfg s.newCrtc p
  · rw [if_neg fun h => h.2 hdriven, if_pos hdriven]
  rw [if_neg hdriven]
  by_cases hon : s.enabled p = true
  · exact if_pos ⟨hon, hdriven⟩
  · rw [if_neg fun h => hon h.1]
    exact (hinv.dark p hp (by simpa using hon)).1

include hnew

/-- An encoder of the crtc is active, and one that the crtc or a pipe that is turned off had is
not. -/
theorem Committed.connectorsActive_eq {e : Nat} (he : e ∈ cfg.encoders) :
    w.connectorsActive e =
      if s.newCrtc e = some p then true
      else if s.crtc e = some p ∨ (s.crtc e).any (fun q => TurnsOff cfg s q) = true then false
      else s.connectorsActive e := by
  rw [hw.connectorsActive e]
  by_cases hon : s.newCrtc e = some p
  · have hcrtce : w.crtc e = some p := (hw.crtc e he).trans hon
    have hused := ((hnew.congr hw.encoder hw.crtc).used e he).1 (by rw [hcrtce]; rfl)
    rw [if_pos hon, if_pos ⟨(any_prepare hprepare _).2 ⟨hcrtce, e, he, hon⟩, hused⟩]
  rw [if_neg hon,
    if_neg fun h => hon ((hw.crtc e he).symm.trans ((any_prepare hprepare _).1 h.1).1)]
  by_cases hold : s.crtc e = some p ∨ (s.crtc e).any (fun q => TurnsOff cfg s q) = true
  · rw [if_pos hold]
    by_cases hclear : e ∈ cfg.encoders ∧ (s.crtc e).any prepare = true
    · exact if_pos hclear
    rw [if_neg hclear]
    -- the crtc of the encoder is turned off: it is `p` and no staged link drives it
    have hoff : ∃ q ∈ ps, s.crtc e = some q := by
      rcases hold with hold | hold
      · have hundriven : ¬ Drives cfg s.newCrtc p := fun h =>
          hclear ⟨he, (any_prepare hprepare _).2 ⟨hold, h⟩⟩
        exact ⟨p, (hps p).2 ⟨hp, (hinv.enabled p hp).2 ⟨e, he, hold⟩, hundriven⟩, hold⟩
      · obtain ⟨q, hq, hoffq⟩ := (Option.any_eq_true _ _).1 hold
        exact ⟨q, (hps q).2 ⟨(hinv.linked.possible e he q hq).1, of_decide_eq_true hoffq⟩, hq⟩
    exact if_pos ⟨hoff, (hinv.linked.used e he).1 (by obtain ⟨q, -, hq⟩ := hoff; rw [hq]; rfl)⟩
  · rw [if_neg hold, if_neg fun h => hold (.inl ((any_prepare hprepare _).1 h.2).1)]
    refine if_neg fun ⟨⟨q, hq, heq⟩, _⟩ => hold (.inr ?_)
    rw [heq, Option.any_some]
    exact decide_eq_true ((hps q).1 hq).2

omit hp in
/-- The connectors of the crtc are switched on, the ones of a pipe that is turned off are off. -/
theorem Committed.dpms_eq {c : Nat} (hc : c ∈ cfg.connectors) :
    w.dpms c =
      if (s.newEncoder c).bind s.newCrtc = some p then .on
      else if (s.crtcOf c).any (fun q => TurnsOff cfg s q) = true then .off else s.dpms c := by
  have hcrtcOf : w.crtcOf c = (s.newEncoder c).bind s.newCrtc := by
    rw [Outputs.crtcOf, hw.encoder c hc]
    cases he : s.newEncoder c with
    | none => rfl
    | some e => exact hw.crtc e (hnew.exists_crtc hc he).1
  rw [hw.dpms c, hcrtcOf]
  by_cases hon : (s.newEncoder c).bind s.newCrtc = some p
  · have hdriven : Drives cfg s.newCrtc p := by
      obtain ⟨e, he, hpe⟩ := Option.bind_eq_some_iff.1 hon
      exact ⟨e, (hnew.exists_crtc hc he).1, hpe⟩
    rw [if_pos hon, if_pos ⟨hc, (any_prepare hprepare _).2 ⟨hon, hdriven⟩⟩]
  rw [if_neg hon, if_neg fun h => hon ((any_prepare hprepare _).1 h.2).1]
  refine if_congr ?_ rfl rfl
  constructor
  · intro h
    obtain ⟨-, q, hq, hcq⟩ := h
    rw [hcq, Option.any_some]
    exact decide_eq_true ((hps q).1 hq).2
  · intro h
    obtain ⟨q, hcq, hoffq⟩ := (Option.any_eq_true _ _).1 h
    obtain ⟨e, he, hqe⟩ := Option.bind_eq_some_iff.1 hcq
    have hmem := (hinv.linked.exists_crtc hc he).1
    exact ⟨hc, q, (hps q).2 ⟨(hinv.linked.possible e hmem q hqe).1, of_decide_eq_true hoffq⟩, hcq⟩

end

section
variable (hinv : Inv cfg s) (hnew : Linked cfg s.newEncoder s.newCrtc)
  (hkeep : ∀ e ∈ cfg.encoders, ∀ q, q ≠ p → s.crtc e = some q → (s.newCrtc e).isSome = true)
  (hp : p < cfg.numPipes)
include hinv hnew hkeep hp

/-- **The commit** sets the links, with the crtc of the call off. -/
theorem Committed.setTo {ps : List Nat}
    (hps : ∀ q, q ∈ ps ↔ q < cfg.numPipes ∧ TurnsOff cfg s q) {prepare : Pipes}
    (hprepare : ∀ q, prepare q = true ↔ q = p ∧ Drives cfg s.newCrtc p) {mode : Nat → DisplayMode}
    (hmode : ∀ q, q ≠ p → mode q = s.mode q) {w : Outputs}
    (hw : Committed cfg s ps prepare mode w) : SetTo cfg s p w := by
  have hcaEq := fun e he => hw.connectorsActive_eq hinv hnew hp hps hprepare (e := e) he
  refine ⟨hw.newEncoder, hw.newCrtc, hw.encoder, hw.crtc,
    ⟨hnew.congr hw.encoder hw.crtc, fun q hq => hw.enabled_iff hq, fun q hq hoff => ?_, hw.pinned,
      fun e he hact => ?_⟩,
    fun c hc => hw.dpms_eq hinv hnew hps hprepare hc, hcaEq, fun q hq hne => ?_⟩
  · have hundriven : ¬ Drives cfg s.newCrtc q := by
      intro h
      rw [(hw.enabled_iff hq).2 ((hw.drives q).2 h)] at hoff
      cases hoff
    rw [hw.fb_eq hps hq, hw.active_eq hps hprepare hq fun h => hundriven (h.1 ▸ h.2)]
    by_cases hon : s.enabled q = true
    · rw [if_pos ⟨hon, hundriven⟩, if_pos ⟨hon, hundriven⟩]
      exact ⟨rfl, rfl⟩
    · rw [if_neg fun h => hon h.1, if_neg fun h => hon h.1]
      exact hinv.dark q hq (by simpa using hon)
  · rw [hw.crtc e he]
    rw [hcaEq e he] at hact
    split at hact
    next hon => rw [hon]; rfl
    next =>
      split at hact
      next => cases hact
      next hold =>
        obtain ⟨q, hq⟩ := Option.isSome_iff_exists.1 (hinv.activeCrtc e he hact)
        exact hkeep e he q (fun hqp => hold (.inl (hqp ▸ hq))) hq
  · rw [hw.fb_eq hps hq, hw.active_eq hps hprepare hq fun h => hne h.1, hw.mode, hmode q hne,
      hw.hwmode, hw.x, hw.y]
    exact ⟨rfl, rfl, rfl, rfl, rfl, rfl⟩

end

/-! ## `intel_set_mode` -/

/-- The allocations succeed, and the encoders and the crtc agree on a configuration. -/
structure Agrees (cfg : Cfg) (s : Outputs) (p : Nat) (ans : SetModeAns) : Prop where
  cloning : s.checkEncoderCloning cfg p = true
  alloc : ans.configAlloc = true
  adjusted : ans.adjusted.isSome = true

/-- How `intel_set_mode` ends. -/
inductive SetModeEnd (cfg : Cfg) (s : Outputs) (p : Nat) (mode : Option DisplayMode) (x y : Int)
    (fb : Option Nat) (ans : SetModeAns) : Except Stop (Int × Outputs) → Prop
  /-- refused before anything changes -/
  | refused (ret : Int) (hret : ret ≠ 0)
      (hwhy : ans.alloc = false ∨ (Drives cfg s.newCrtc p ∧ ¬ Agrees cfg s p ans ∧
        (s.checkEncoderCloning cfg p = true → ans.configAlloc = true → fb.isSome = true))) :
      SetModeEnd cfg s p mode x y fb ans (.ok (ret, s))
  /-- a null pointer, where there is no mode or no framebuffer -/
  | oops (halloc : ans.alloc = true) (hdriven : Drives cfg s.newCrtc p)
      (hcloning : s.checkEncoderCloning cfg p = true) (hconfig : ans.configAlloc = true)
      (hnull : mode = none ∨ fb = none) : SetModeEnd cfg s p mode x y fb ans (.error .oops)
  /-- the crtc is off -/
  | off (t : Outputs) (halloc : ans.alloc = true) (hset : SetTo cfg s p t)
      (hdriven : ¬ Drives cfg s.newCrtc p) (hfb : t.fb p = none) (hactive : t.active p = false)
      (hmode : t.mode p = s.mode p) (hx : t.x p = s.x p) (hy : t.y p = s.y p) :
      SetModeEnd cfg s p mode x y fb ans (.ok (0, t))
  /-- the crtc shows the framebuffer -/
  | lit (t : Outputs) (halloc : ans.alloc = true) (hset : SetTo cfg s p t)
      (hdriven : Drives cfg s.newCrtc p) (hagrees : Agrees cfg s p ans)
      (hfb : fb.isSome = true ∧ t.fb p = fb) (hactive : t.active p = true)
      (hmode : mode = some (t.mode p)) (hx : t.x p = x) (hy : t.y p = y) :
      SetModeEnd cfg s p mode x y fb ans (.ok (0, t))
  /-- the mode was not set -/
  | failed (t : Outputs) (ret : Int) (hret : ret ≠ 0) (halloc : ans.alloc = true)
      (hset : SetTo cfg s p t) (hdriven : Drives cfg s.newCrtc p) (hagrees : Agrees cfg s p ans)
      (hfb : fb.isSome = true ∧ t.fb p = s.fb p) (hactive : t.active p = false)
      (hmode : t.mode p = s.mode p) (hx : t.x p = s.x p) (hy : t.y p = s.y p) :
      SetModeEnd cfg s p mode x y fb ans (.ok (ret, t))

section
variable (hinv : Inv cfg s) (hnew : Linked cfg s.newEncoder s.newCrtc)
  (hkeep : ∀ e ∈ cfg.encoders, ∀ q, q ≠ p → s.crtc e = some q → (s.newCrtc e).isSome = true)
  (hp : p < cfg.numPipes)
include hinv hnew hkeep hp

/-- Where the staged links do not drive the crtc, the call turns pipes off and commits the links. -/
theorem program_off {pipes : Outputs.Affected} (hprep : pipes.prepare = pipes.modeset)
    (hmodeset : ∀ q, pipes.modeset q = true ↔ q = p ∧ Drives cfg s.newCrtc p)
    (hps : ∀ q, q ∈ Outputs.masked cfg pipes.disable ↔ q < cfg.numPipes ∧ TurnsOff cfg s q)
    (hdriven : ¬ Drives cfg s.newCrtc p) (x y : Int) (fb : Option Nat) (ans : SetModeAns) :
    ∃ t, s.program cfg p pipes none x y fb ans = .ok (0, t) ∧ SetTo cfg s p t ∧ t.fb p = none ∧
      t.active p = false ∧ t.mode p = s.mode p ∧ t.x p = s.x p ∧ t.y p = s.y p := by
  obtain ⟨u, hu, hoff⟩ := disableLoop_eq hinv.pinned
    (Outputs.masked cfg pipes.disable) fun q hq => ((hps q).1 hq).1
  have hnil : Outputs.masked cfg pipes.modeset = [] := by
    refine List.eq_nil_iff_forall_not_mem.2 fun q hq => ?_
    exact hdriven ((hmodeset q).1 (mem_masked.1 hq).2).2
  have hmode : u.mode = s.mode := by
    obtain ⟨d, a, v, b, n, rfl, -⟩ := hoff
    rfl
  have hprepare : ∀ q, pipes.prepare q = true ↔ q = p ∧ Drives cfg s.newCrtc p := hprep ▸ hmodeset
  have hcommit := updateState_committed hoff pipes.prepare u.mode
  generalize hw : Outputs.updateState cfg { u with
      active := fun q =>
        if q ∈ Outputs.masked cfg pipes.prepare ∧ u.enabled q then false else u.active q
      mode := u.mode } pipes.prepare = w at hcommit
  have hset := hcommit.setTo hinv hnew hkeep hp hps hprepare fun q _ => by rw [hmode]
  refine ⟨w, ?_, hset, by rw [hcommit.fb_self hinv hp hps, if_neg hdriven],
    hcommit.active_self hinv hp hps hprepare, by rw [hcommit.mode, hmode], by rw [hcommit.x],
    by rw [hcommit.y]⟩
  have hsame : w.afterModeSet cfg p (s.mode p) (s.hwmode p) pipes.prepare none 0 = w := by
    have hactive : (fun q => if q ∈ Outputs.masked cfg pipes.prepare then true else w.active q) =
        w.active := by
      funext q
      rw [hprep, hnil, if_neg List.not_mem_nil]
    rw [Outputs.afterModeSet, if_neg (by simp)]
    dsimp only
    rw [hactive]
  have hres : s.program cfg p pipes none x y fb ans =
      .ok (0, w.afterModeSet cfg p (s.mode p) (s.hwmode p) pipes.prepare none 0) := by
    rw [Outputs.program, hu, hnil, ← hw]
    rfl
  rw [hres, hsame]

/-- Where they do, the mode of the crtc is set, or the hook fails. -/
theorem program_on {pipes : Outputs.Affected} (hprep : pipes.prepare = pipes.modeset)
    (hmodeset : ∀ q, pipes.modeset q = true ↔ q = p ∧ Drives cfg s.newCrtc p)
    (hps : ∀ q, q ∈ Outputs.masked cfg pipes.disable ↔ q < cfg.numPipes ∧ TurnsOff cfg s q)
    (hdriven : Drives cfg s.newCrtc p) (mode adjusted : DisplayMode) (x y : Int) (f : Nat)
    (ans : SetModeAns) :
    ∃ t ret, s.program cfg p pipes (some (mode, adjusted)) x y (some f) ans = .ok (ret, t) ∧
      SetTo cfg s p t ∧
      ((ret = 0 ∧ t.fb p = some f ∧ t.active p = true ∧ t.mode p = mode ∧ t.x p = x ∧ t.y p = y) ∨
        (ret ≠ 0 ∧ t.fb p = s.fb p ∧ t.active p = false ∧ t.mode p = s.mode p ∧ t.x p = s.x p ∧
          t.y p = s.y p)) := by
  obtain ⟨u, hu, hoff⟩ := disableLoop_eq hinv.pinned
    (Outputs.masked cfg pipes.disable) fun q hq => ((hps q).1 hq).1
  have hone : Outputs.masked cfg pipes.modeset = [p] :=
    masked_eq_singleton hp fun q => (hmodeset q).trans (and_iff_left hdriven)
  have hmode : u.mode = s.mode := by
    obtain ⟨d, a, v, b, n, rfl, -⟩ := hoff
    rfl
  have hprepare : ∀ q, pipes.prepare q = true ↔ q = p ∧ Drives cfg s.newCrtc p := hprep ▸ hmodeset
  have hcommit := updateState_committed hoff pipes.prepare (Function.update u.mode p mode)
  generalize hw : Outputs.updateState cfg { u with
      active := fun q =>
        if q ∈ Outputs.masked cfg pipes.prepare ∧ u.enabled q then false else u.active q
      mode := Function.update u.mode p mode } pipes.prepare = w at hcommit
  have hset := hcommit.setTo hinv hnew hkeep hp hps hprepare fun q hq => by
    rw [Function.update_of_ne hq, hmode]
  have henabled : w.enabled p = true := (hcommit.enabled_iff hp).2 ((hcommit.drives p).2 hdriven)
  have hfb : w.fb p = s.fb p := by rw [hcommit.fb_self hinv hp hps, if_pos hdriven]
  have hactive := hcommit.active_self hinv hp hps hprepare
  have hx : w.x p = s.x p := by rw [hcommit.x]
  have hy : w.y p = s.y p := by rw [hcommit.y]
  have hmodep : w.mode p = mode := by rw [hcommit.mode, Function.update_self]
  have hres {ret : Int} {t : Outputs} (ht : w.crtcModeSet p x y (some f) ans = .ok (ret, t)) :
      s.program cfg p pipes (some (mode, adjusted)) x y (some f) ans =
        .ok (ret, t.afterModeSet cfg p (s.mode p) (s.hwmode p) pipes.prepare
          (some (mode, adjusted)) ret) := by
    rw [Outputs.program, hu, hone]
    change (Outputs.modeSetLoop x y (some f) ans (Outputs.updateState cfg _ pipes.prepare) [p]).bind
      _ = _
    rw [hw, Outputs.modeSetLoop, ht]
    by_cases hret : ret = 0
    · subst hret
      rfl
    · change Except.bind (if ret ≠ 0 then _ else _) _ = _
      rw [if_pos hret]
      rfl
  -- a hook that fails leaves the crtc off, with its modes put back
  have hfailed {ret : Int} (hret : ret ≠ 0)
      (ht : w.crtcModeSet p x y (some f) ans = .ok (ret, w)) :
      ∃ t ret, s.program cfg p pipes (some (mode, adjusted)) x y (some f) ans = .ok (ret, t) ∧
        SetTo cfg s p t ∧
        ((ret = 0 ∧ t.fb p = some f ∧ t.active p = true ∧ t.mode p = mode ∧ t.x p = x ∧
            t.y p = y) ∨
          (ret ≠ 0 ∧ t.fb p = s.fb p ∧ t.active p = false ∧ t.mode p = s.mode p ∧ t.x p = s.x p ∧
            t.y p = s.y p)) := by
    refine ⟨_, ret, hres ht, ?_⟩
    rw [Outputs.afterModeSet, if_pos hret, if_pos henabled]
    refine ⟨hset.show hp hdriven (fun _ _ => rfl) (fun _ _ => rfl)
      (fun q hq => Function.update_of_ne hq _ _) (fun q hq => Function.update_of_ne hq _ _)
      (fun _ _ => rfl) (fun _ _ => rfl) hset.inv.pinned, .inr ⟨hret, hfb, hactive, ?_, hx, hy⟩⟩
    exact Function.update_self _ _ _
  by_cases hmodeSet : ans.modeSet ≠ 0
  · exact hfailed hmodeSet (if_pos hmodeSet)
  have hbase : w.crtcModeSet p x y (some f) ans = w.pipeSetBase p x y (some f) ans :=
    if_neg hmodeSet
  rcases pipeSetBase_cases hset.inv.pinned hp (f := f) x y ans with
    ⟨ret, hret, ht⟩ | ⟨pins, ht, hpins⟩
  · exact hfailed hret (hbase.trans ht)
  · refine ⟨_, 0, hres (hbase.trans ht), ?_⟩
    rw [Outputs.afterModeSet, if_neg (by simp)]
    refine ⟨hset.show hp hdriven (fun q hq => ?_) (fun q hq => Function.update_of_ne hq _ _)
      (fun _ _ => rfl) (fun q hq => Function.update_of_ne hq _ _)
      (fun q hq => Function.update_of_ne hq _ _) (fun q hq => Function.update_of_ne hq _ _) hpins,
      .inl ⟨rfl, Function.update_self _ _ _, ?_, ?_, Function.update_self _ _ _,
        Function.update_self _ _ _⟩⟩
    · exact if_neg fun h => hq ((hmodeset q).1 (hprep ▸ (mem_masked.1 h).2)).1
    · exact if_pos (by rw [hprep, hone]; exact List.mem_singleton_self p)
    · exact hmodep

/-- **`intel_set_mode`** ends in one of these ways. -/
theorem setMode_end (mode : Option DisplayMode) (x y : Int) (fb : Option Nat) (ans : SetModeAns) :
    SetModeEnd cfg s p mode x y fb ans (s.setMode cfg p mode x y fb ans) := by
  rw [Outputs.setMode]
  by_cases halloc : ans.alloc = true
  case neg =>
    rw [if_neg halloc]
    exact .refused _ (by decide) (.inl (by simpa using halloc))
  rw [if_pos halloc]
  obtain ⟨pipes, hpipes, hprep, hmodeset, hdisable⟩ := affectedPipes_eq hinv hnew hp
  have hps (q : Nat) : q ∈ Outputs.masked cfg pipes.disable ↔
      q < cfg.numPipes ∧ TurnsOff cfg s q := by
    rw [mem_masked, hdisable q]
    exact and_iff_right_of_imp And.left
  by_cases hdriven : Drives cfg s.newCrtc p
  case neg =>
    have hnil : Outputs.masked cfg pipes.modeset = [] := by
      refine List.eq_nil_iff_forall_not_mem.2 fun q hq => ?_
      exact hdriven ((hmodeset q).1 (mem_masked.1 hq).2).2
    obtain ⟨t, ht, hset, hfb, hactive, hmode, hx, hy⟩ :=
      program_off hinv hnew hkeep hp hprep hmodeset hps hdriven x y fb ans
    rw [hpipes]
    change SetModeEnd cfg s p mode x y fb ans
      (if Outputs.masked cfg pipes.modeset = [] then s.program cfg p pipes none x y fb ans else _)
    rw [if_pos hnil, ht]
    exact .off t halloc hset hdriven hfb hactive hmode hx hy
  have hone : Outputs.masked cfg pipes.modeset ≠ [] := by
    rw [masked_eq_singleton hp fun q => (hmodeset q).trans (and_iff_left hdriven)]
    exact List.cons_ne_nil p []
  rw [hpipes]
  change SetModeEnd cfg s p mode x y fb ans
    (if Outputs.masked cfg pipes.modeset = [] then _ else (s.pipeConfig cfg p fb mode ans).bind _)
  rw [if_neg hone, Outputs.pipeConfig]
  by_cases hcloning : s.checkEncoderCloning cfg p = true
  case neg =>
    rw [if_neg (by simp [hcloning])]
    exact .refused _ (by decide) (.inr ⟨hdriven, fun h => hcloning h.cloning,
      fun h => absurd h hcloning⟩)
  by_cases hconfig : ans.configAlloc = true
  case neg =>
    rw [if_neg (by simp [hconfig])]
    exact .refused _ (by decide) (.inr ⟨hdriven, fun h => hconfig h.alloc,
      fun _ h => absurd h hconfig⟩)
  rw [if_pos (by simp [hcloning, hconfig])]
  cases mode with
  | none => exact .oops halloc hdriven hcloning hconfig (.inl rfl)
  | some m =>
    cases fb with
    | none => exact .oops halloc hdriven hcloning hconfig (.inr rfl)
    | some f =>
      rw [if_pos ⟨rfl, rfl⟩]
      cases hadjusted : ans.adjusted with
      | none =>
        refine .refused _ (by decide) (.inr ⟨hdriven, fun h => ?_, fun _ _ => rfl⟩)
        have hsome := h.adjusted
        rw [hadjusted] at hsome
        cases hsome
      | some a =>
        have hagrees : Agrees cfg s p ans := ⟨hcloning, hconfig, by rw [hadjusted]; rfl⟩
        obtain ⟨t, ret, ht, hset, hcase⟩ :=
          program_on hinv hnew hkeep hp hprep hmodeset hps hdriven m a x y f ans
        change SetModeEnd cfg s p (some m) x y (some f) ans
          (s.program cfg p pipes (some (m, a)) x y (some f) ans)
        rw [ht]
        rcases hcase with ⟨rfl, hfb, hactive, hmode, hx, hy⟩ | ⟨hret, hfb, hactive, hmode, hx, hy⟩
        · exact .lit t halloc hset hdriven hagrees ⟨rfl, hfb⟩ hactive (by rw [hmode]) hx hy
        · exact .failed t ret hret halloc hset hdriven hagrees ⟨rfl, hfb⟩ hactive hmode hx hy

end

end I915.Modeset
